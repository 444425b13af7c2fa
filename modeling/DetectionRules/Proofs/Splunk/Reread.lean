import DetectionRules.Proofs.Splunk.Query
import DetectionRules.Proofs.Accepted
import DetectionRules.Proofs.Avoiding

/-!
What is read back of a Splunk query. The tests of the source are lifted out of
the conjunction of all filters, and what is left of it has the conjuncts of the
rule, those that were written as commands behind the others.

Some queries are not read again. An equality sign with a tilde behind it is one
sign of the tokens, which no search knows. It is written where a text begins
with a tilde and stands without quotes, so exactly the rules without such a text
are read back.
-/

namespace DetectionRules.Splunk

open Expression (led)

variable {rule : Rule}

/-- The expression that is left when the tests of the source are lifted out. -/
def readTree (rule : Rule) : Logic FieldTest :=
  Logic.conj ((kept rule ++ moved rule).map (Logic.bind testTree))

theorem text_read_value {op : Operator} {value : Value} (exact : value.text ≠ "-0") :
    (readValue op value).text = value.text := by
  rw [readValue]
  split
  · exact Value.text_of_literal exact
  · rfl

/-- Every conjunct is kept in the search or moved behind it. -/
theorem parts_perm (rule : Rule) : (kept rule ++ moved rule).Perm rule.expression.conjuncts := by
  have split := List.filter_append_perm (fun item => (commandOf? item).isNone)
    rule.expression.conjuncts
  simpa only [kept, moved, Option.not_isNone] using split

theorem normal_conjunct_tree (writes : Writes rule) {item : Logic FieldTest}
    (member : item ∈ rule.expression.conjuncts) : (item.bind testTree).Normal := by
  refine Logic.Normal.bind ((Rule.normal_expression writes.proper).conjunct member).1.filled ?_
  intro test place
  apply FieldTest.normal_valuewise
  refine (Rule.proper_of_mem_expression writes.proper ?_).filled
  rw [← Logic.terms_conjuncts]
  exact List.mem_flatMap.mpr ⟨item, member, place⟩

theorem normal_read_tree (writes : Writes rule) : (readTree rule).Normal := by
  apply Logic.Normal.conj
  · rw [Ne, List.map_eq_nil_iff]
    intro empty
    have same := parts_perm rule
    rw [empty] at same
    exact (Rule.normal_expression writes.proper).conjuncts_ne_nil same.nil_eq.symm
  · intro tree member
    obtain ⟨item, inside, rfl⟩ := List.mem_map.mp member
    exact normal_conjunct_tree writes (((parts_perm rule).mem_iff.mp inside))

theorem eval_read_tree (writes : Writes rule) (truth : Truth) :
    (readTree rule).eval (·.holds truth) = rule.holds truth := by
  have trees : ∀ item ∈ rule.expression.conjuncts,
      (item.bind testTree).eval (·.holds truth) = item.eval (·.holds truth) := by
    intro item member
    rw [Logic.eval_bind]
    refine Logic.eval_congr _ fun test place => FieldTest.eval_valuewise fun value valued => ?_
    refine text_read_value (writes.exact test ?_ value valued)
    rw [← Logic.terms_conjuncts]
    exact List.mem_flatMap.mpr ⟨item, member, place⟩
  have same := congrArg (List.all · id) (List.map_congr_left trees)
  rw [readTree, Logic.eval_conj, List.all_map, (parts_perm rule).all_eq,
    ← Rule.eval_expression writes.proper, ← Logic.eval_conjuncts]
  simpa only [List.all_map, Function.comp_def, id_eq] using same

theorem test_of_tree (writes : Writes rule) {test : FieldTest} (member : test ∈ (readTree rule).terms) :
    test.Proper ∧ test.field ∉ sourceFields := by
  rw [readTree, Logic.terms_conj, List.flatMap_map] at member
  obtain ⟨item, inside, place⟩ := List.mem_flatMap.mp member
  rw [Logic.terms_bind] at place
  obtain ⟨original, own, place⟩ := List.mem_flatMap.mp place
  have known : original ∈ rule.expression.terms := by
    rw [← Logic.terms_conjuncts]
    exact List.mem_flatMap.mpr ⟨item, ((parts_perm rule).mem_iff.mp inside), own⟩
  refine ⟨FieldTest.proper_valuewise (Rule.proper_of_mem_expression writes.proper known) test place, ?_⟩
  rw [FieldTest.field_valuewise place]
  exact (writes.fields original known).2.1

theorem tree_of_search {search : Logic FieldTest} (writes : Writes rule)
    (found : searchOf? rule = some search) :
    search.bind testTree = Logic.conj ((sourceTests Value.ofLiteral rule.logSource).map .term ++
      (kept rule).map (Logic.bind testTree)) := by
  rw [searchOf?, Logic.group?] at found
  split at found
  · cases found
  · cases found
    rw [Logic.bind_conj, searchItems, List.map_append, tree_of_source_tests]
    · exact fun item member => (normal_search_item writes.proper member).2
    · intro item member
      rcases List.mem_append.mp member with source | condition
      · obtain ⟨test, inside, rfl⟩ := List.mem_map.mp source
        exact FieldTest.normal_valuewise (writable_source_test writes.source inside).proper.filled
      · exact normal_conjunct_tree writes (mem_kept condition).1

theorem normal_search_tree (writes : Writes rule) :
    ∀ tree ∈ (sourceTests Value.ofLiteral rule.logSource).map .term ++
      (kept rule).map (Logic.bind testTree), tree.Normal := by
  intro tree member
  rcases List.mem_append.mp member with source | condition
  · obtain ⟨test, _, rfl⟩ := List.mem_map.mp source
    exact .term test
  · obtain ⟨item, inside, rfl⟩ := List.mem_map.mp condition
    exact normal_conjunct_tree writes (mem_kept inside).1

theorem conj_filtered (writes : Writes rule) :
    Logic.conj (filtered rule).conjuncts =
      led (sourceTests Value.ofLiteral rule.logSource) (readTree rule) := by
  have trees : ∀ tree ∈ (kept rule ++ moved rule).map (Logic.bind testTree), tree.Normal := by
    intro tree member
    obtain ⟨item, inside, rfl⟩ := List.mem_map.mp member
    exact normal_conjunct_tree writes ((parts_perm rule).mem_iff.mp inside)
  rw [led, readTree, Logic.conj_append_conj trees, List.map_append, ← List.append_assoc, filtered,
    searched, trees_of_commands]
  cases found : searchOf? rule with
  | none =>
      have empty : searchItems rule = [] := by
        simpa [searchOf?, Logic.group?] using found
      have noTrees : (sourceTests Value.ofLiteral rule.logSource).map Logic.term ++
          (kept rule).map (Logic.bind testTree) = [] := by
        rw [← tree_of_source_tests, ← List.map_append]
        exact List.map_eq_nil_iff.mpr empty
      rw [noTrees]
      rfl
  | some search =>
      rw [← Logic.conj_conj_cons (normal_search_tree writes), ← tree_of_search writes found]
      rfl

/-- The tests of the source, and nothing else, are lifted out of the filters. -/
theorem logic_filtered (writes : Writes rule) :
    (filtered rule).logic =
      (sourceTests Value.ofLiteral rule.logSource, some (readTree rule)) := by
  have some : (filtered rule).conjuncts ≠ [] := by
    intro empty
    have normal := @Expression.normal_led _ (sourceTests Value.ofLiteral rule.logSource) _
      (normal_read_tree writes)
    rw [← conj_filtered writes, empty] at normal
    have nothing : (Logic.all []).Normal := normal
    cases nothing with
    | all long => simp at long
  rw [Search.logic, Logic.group?, if_neg (by simpa using some)]
  simp only [conj_filtered writes]
  apply Expression.lift_led
  · intro test member
    obtain ⟨field, known, part, _, rfl⟩ := of_mem_source_tests member
    simp only [List.mem_cons, List.not_mem_nil, or_false] at known
    rcases known with rfl | rfl | rfl <;> rfl
  · exact normal_read_tree writes
  · intro test member
    have other := (test_of_tree writes member).2
    simp only [sourceFields] at other
    simp [isSourceTest, other]

theorem read_back_eq (writes : Writes rule) :
    readBack rule = {
      dialect := .splunk
      title := none
      description := none
      logSource := rule.logSource
      selections := (Expression.toSelections (readTree rule)).1
      condition := (Expression.toSelections (readTree rule)).2
      aggregation := rule.aggregation } := by
  have source := fold_source_tests fun part member =>
    Value.text_of_literal (writes.exactSource part member)
  have logic := logic_filtered writes
  cases counted : rule.aggregation with
  | none =>
      rw [readBack, counted, Option.elim_none, Search.toRule]
      simp only [logic, source]
      rfl
  | some aggregation =>
      have same : ((filtered rule).counting aggregation).logic = (filtered rule).logic := rfl
      rw [readBack, counted, Option.elim_some, Search.toRule]
      simp only [same, logic, source]
      rfl

theorem read_back_holds (writes : Writes rule) (truth : Truth) :
    (readBack rule).holds truth = rule.holds truth := by
  have same := read_back_eq writes
  rw [Expression.holds_of_selections (congrArg Rule.selections same) (congrArg Rule.condition same),
    eval_read_tree writes]

theorem read_back_well_formed (writes : Writes rule) : (readBack rule).WellFormed := by
  have same := read_back_eq writes
  apply Expression.well_formed_of_selections (congrArg Rule.selections same)
    (congrArg Rule.condition same) (normal_read_tree writes)
  · exact fun test member => (test_of_tree writes member).1
  · rw [same]
    exact writes.proper.aggregation

end DetectionRules.Splunk

namespace DetectionRules.Splunk

open Expression (wordingIn)
open DetectionRules.Parser (Avoids Leads avoids_pure avoids_bind avoids_map avoids_ite avoids_fail
  avoids_fail_at avoids_expected avoids_many avoids_sees avoids_sign avoids_take_if avoids_take_sign
  avoids_take_word avoids_take_keyword avoids_literal)

theorem avoids_comparison_sign : Avoids "=~" Dialect.takeComparison? := by
  rintro (_ | ⟨⟨lexeme, offset⟩, others⟩) result rest same
  · cases same
    exact .refl []
  · cases lexeme with
    | symbol sign =>
        rw [Dialect.takeComparison?] at same
        split at same
        · rename_i op known
          cases same
          refine .one (fun symbol => ?_) _
          obtain rfl : sign = "=~" := Lexeme.symbol.inj symbol
          cases known
        · cases same
          exact .refl _
    | word text =>
        cases same
        exact .refl _
    | quoted text =>
        cases same
        exact .refl _
    | pattern body flags =>
        cases same
        exact .refl _

theorem avoids_integer : Avoids "=~" Dialect.integer := by
  refine avoids_bind (avoids_literal _) fun literal => ?_
  cases Value.ofLiteral literal.text with
  | int number => exact avoids_pure _
  | str text => exact avoids_fail_at _ _

theorem avoids_next_value (field : String) : Avoids "=~" (nextValue? field) := by
  refine avoids_bind (avoids_take_sign (by decide)) fun _ => avoids_ite (avoids_pure _) ?_
  refine avoids_bind (avoids_sees _) fun _ => avoids_ite (avoids_pure _) ?_
  exact avoids_bind (avoids_literal _) fun _ => avoids_pure _

theorem avoids_value_list (field : String) : Avoids "=~" (valueList field) := by
  have closing (first others : List (Logic FieldTest)) : Avoids "=~" (do
      Parser.sign ")"
      if first.isEmpty then Parser.fail "IN list is empty"
      return Logic.disj (first ++ others)) :=
    avoids_bind (avoids_sign (by decide)) fun _ =>
      avoids_ite (avoids_bind (avoids_fail _) fun _ => avoids_pure _) (avoids_pure _)
  refine avoids_bind (avoids_sign (by decide)) fun _ => avoids_bind (avoids_sees _) fun isEmpty => ?_
  simp only [pure_bind, bind_assoc]
  refine avoids_ite (avoids_ite (closing _ _) ?_) (avoids_bind (avoids_literal _) fun first => ?_)
  · exact avoids_bind (avoids_many (avoids_next_value field)) (closing _)
  · exact avoids_ite (closing _ _) (avoids_bind (avoids_many (avoids_next_value field)) (closing _))

theorem avoids_comparison (field : String) : Avoids "=~" (comparisonOf field) := by
  have value {change : Parser.Literal → Logic FieldTest} : Avoids "=~" (do
      return change (← Parser.literal "a value")) :=
    avoids_bind (avoids_literal _) fun _ => avoids_pure _
  refine avoids_bind (avoids_take_if fun _ _ => rfl) fun _ => avoids_ite (avoids_value_list field) ?_
  refine avoids_bind (avoids_take_sign (by decide)) fun _ => avoids_ite value ?_
  refine avoids_bind (avoids_take_sign (by decide)) fun _ => avoids_ite value ?_
  refine avoids_bind avoids_comparison_sign fun op => ?_
  cases op with
  | none => exact avoids_pure _
  | some op => exact avoids_bind avoids_integer fun _ => avoids_pure _

theorem avoids_term : Avoids "=~" term := by
  rintro (_ | ⟨⟨lexeme, offset⟩, others⟩) result rest same
  · cases same
  · cases lexeme with
    | word field =>
        have read : comparisonOf field others = .ok (result, rest) := same
        exact (Leads.one (by simp) others).trans (avoids_comparison field others result rest read)
    | quoted text =>
        cases same
        exact .one (by simp) others
    | symbol sign => cases same
    | pattern body flags => cases same

theorem avoids_query_start : Avoids "=~" queryStart := by
  have searches : Avoids "=~" search :=
    Expression.avoids_parse (by decide) (by decide) (by decide) avoids_term
  refine avoids_bind (avoids_take_keyword _) fun _ => avoids_bind (avoids_take_word _) fun _ => ?_
  refine avoids_bind (avoids_sees _) fun _ => avoids_ite (avoids_pure _) ?_
  exact avoids_bind searches fun _ => avoids_pure _

theorem tilde_of_assigned {field text : String} (tilde : IsTildeWord text) :
    .symbol "=~" ∈ assignedLexemes field text := by
  rw [assignedLexemes, if_pos tilde]
  split <;> simp

theorem tilde_of_lost {test : FieldTest} (lost : LosesTilde test) :
    .symbol "=~" ∈ testLexemes test := by
  obtain ⟨kind, value, member, tilde⟩ := lost
  rcases kind with ⟨equals, single⟩ | starts
  · obtain ⟨only, same⟩ := List.length_eq_one_iff.mp single
    rw [same, List.mem_singleton] at member
    subst member
    simp only [testLexemes, equals, same]
    exact tilde_of_assigned tilde
  · have glob : (globOf test.op value).toList = value.text.toList ++ ['*'] := by
      simp [globOf, Glob.ofOperator?, starts]
    have whole : IsTildeWord (globOf test.op value) := by
      refine ⟨?_, fun c place => ?_⟩
      · rw [glob, List.head?_append, tilde.1]
        rfl
      · rw [glob, List.mem_append, List.mem_singleton] at place
        rcases place with place | rfl
        · exact tilde.2 c place
        · exact Token.ends_word_of_plain (by simp [Token.isPlain])
    have assigned := @tilde_of_assigned test.field _ whole
    simp only [testLexemes, starts, globLexemes]
    rw [starts] at assigned
    rcases given : test.values with _ | ⟨first, _ | ⟨second, others⟩⟩ <;> rw [given] at member
    · cases member
    · obtain rfl := List.mem_singleton.mp member
      exact assigned
    · refine List.mem_cons_of_mem _ (List.mem_append_left _ ?_)
      exact Expression.subset_joined member assigned

theorem no_pipe_in_text (text : String) : Lexeme.symbol "|" ≠ textLexeme text := by
  rw [textLexeme]
  split <;> simp

theorem no_pipe_in_assigned (field text : String) : .symbol "|" ∉ assignedLexemes field text := by
  rw [assignedLexemes]
  split
  · split <;> simp
  · simp [no_pipe_in_text]

theorem no_pipe_in_alternatives {lexemes : Value → List Lexeme}
    (each : ∀ value, .symbol "|" ∉ lexemes value) (values : List Value) :
    .symbol "|" ∉ Expression.alternativesIn [.word "OR"] lexemes values := by
  intro member
  rw [Expression.alternativesIn.eq_def] at member
  split at member
  · exact each _ member
  · simp only [List.cons_append, List.mem_cons, List.mem_append, List.not_mem_nil,
      or_false] at member
    rcases member with same | inner | same
    · simp at same
    · rcases Expression.mem_joined inner with word | ⟨value, _, place⟩
      · simp at word
      · exact each value place
    · simp at same

theorem no_pipe_in_list (values : List Value) : .symbol "|" ∉ listLexemes values := by
  intro member
  simp only [listLexemes, List.cons_append, List.mem_cons, List.mem_append, List.not_mem_nil,
    or_false] at member
  rcases member with same | inner | same
  · simp at same
  · rcases Expression.mem_joined inner with comma | ⟨value, _, place⟩
    · simp at comma
    · exact no_pipe_in_text _ (List.mem_singleton.mp place)
  · simp at same

theorem no_pipe_in_test (test : FieldTest) : .symbol "|" ∉ testLexemes test := by
  have globs : .symbol "|" ∉ globLexemes test :=
    no_pipe_in_alternatives (fun value => no_pipe_in_assigned test.field (globOf test.op value)) _
  have sign (op : Operator) : op.sign?.getD ">" ≠ "|" := by cases op <;> decide
  rw [testLexemes]
  split
  · split
    · exact no_pipe_in_assigned _ _
    · simp [no_pipe_in_list]
  · split
    · exact no_pipe_in_alternatives (fun value => by simp) _
    · exact globs
  · exact globs
  · exact globs
  all_goals simp [(sign _).symm]

theorem no_pipe_in_search (rule : Rule) : ∀ lexeme ∈ searchLexemes rule, lexeme ≠ .symbol "|" := by
  rw [searchLexemes]
  cases searchOf? rule with
  | none => simp
  | some search =>
      apply Expression.wording_forall
      · simp
      · simp [wording]
      · simp [wording]
      · intro lexemes each lexeme member
        rcases List.mem_cons.mp member with rfl | member
        · simp
        · exact each lexeme member
      · exact fun test lexeme member same => no_pipe_in_test test (same ▸ member)

/-- A query in whose search the sign stands is refused, since its search ends before the sign. -/
theorem not_read_of_sign {rule result : Rule} {tokens rest : List Token}
    (same : tokens.map (·.lexeme) = queryLexemes rule)
    (sign : .symbol "=~" ∈ searchLexemes rule) : query tokens ≠ .ok (result, rest) := by
  intro parsed
  rw [query_eq, Parser.bind_apply] at parsed
  cases found : queryStart tokens with
  | error fault =>
      rw [found] at parsed
      cases parsed
  | ok pair =>
      obtain ⟨start, left⟩ := pair
      obtain ⟨taken, split, clean⟩ := avoids_query_start tokens start left found
      rw [split, List.map_append, queryLexemes] at same
      have noSign : .symbol "=~" ∉ taken.map (·.lexeme) := by
        intro member
        obtain ⟨token, place, isSign⟩ := List.mem_map.mp member
        exact clean token place isSign
      obtain ⟨more, searched, others⟩ : ∃ more, searchLexemes rule = taken.map (·.lexeme) ++ more ∧
          left.map (·.lexeme) = more ++ endLexemes rule := by
        rcases List.append_eq_append_iff.mp same with ⟨more, searched, others⟩ | ⟨more, front, _⟩
        · exact ⟨more, searched, others⟩
        · refine absurd ?_ noSign
          rw [front]
          exact List.mem_append_left _ sign
      have inMore : .symbol "=~" ∈ more := by
        rw [searched] at sign
        exact (List.mem_append.mp sign).resolve_left noSign
      obtain ⟨head, tail, rfl⟩ := List.exists_cons_of_ne_nil (List.ne_nil_of_mem inMore)
      obtain ⟨offset, behind, rfl, _⟩ := Parser.cons_of_lexemes others
      have noPipe : Parser.nextIsSign "|" (⟨head, offset⟩ :: behind) = false := by
        apply Parser.next_is_sign_of_head
        have other := no_pipe_in_search rule head (by simp [searched])
        simpa using other
      have stops : nextCommand? start (⟨head, offset⟩ :: behind) =
          .ok (none, ⟨head, offset⟩ :: behind) := by
        simp [nextCommand?, Parser.takeSign, noPipe]
      rw [found] at parsed
      simp only [queryEnd, Parser.bind_apply, Parser.iterate, stops] at parsed
      simp [Parser.expected] at parsed

/-- Whether a text of a rule gives its tilde to an equality sign. -/
def GivesTilde (rule : Rule) : Prop :=
  (∃ test ∈ rule.expression.terms, LosesTilde test) ∨ ∃ part ∈ sourceParts rule.logSource, IsTildeWord part

theorem source_test_of_part {source : LogSource} {part : String} (member : part ∈ sourceParts source) :
    ∃ test ∈ sourceTests .str source, test.op = .equals ∧ test.values = [.str part] := by
  obtain ⟨product, category, service⟩ := source
  cases product <;> cases category <;> cases service <;>
    simp_all [sourceParts, sourceTests, FieldTest.single]
  all_goals grind

theorem gives_tilde_iff (rule : Rule) :
    GivesTilde rule ↔ ∃ test ∈ searchTests rule, LosesTilde test := by
  constructor
  · rintro (⟨test, member, lost⟩ | ⟨part, member, tilde⟩)
    · rw [← Logic.terms_conjuncts] at member
      obtain ⟨item, inside, place⟩ := List.mem_flatMap.mp member
      have stays : commandOf? item = none := by
        cases found : commandOf? item with
        | none => rfl
        | some command =>
            have regex := (patterns_of_command (is_command found)).2 test place
            rcases lost.1 with ⟨equals, _⟩ | starts
            · cases equals.symm.trans regex
            · cases starts.symm.trans regex
      have keeps : item ∈ kept rule := List.mem_filter.mpr ⟨inside, by rw [stays]; rfl⟩
      exact ⟨test, List.mem_append_right _ (List.mem_flatMap.mpr ⟨item, keeps, place⟩), lost⟩
    · obtain ⟨test, inside, equals, values⟩ := source_test_of_part member
      refine ⟨test, List.mem_append_left _ inside, .inl ⟨equals, by simp [values]⟩, .str part, ?_, tilde⟩
      simp [values]
  · rintro ⟨test, member, lost⟩
    rcases List.mem_append.mp member with source | condition
    · obtain ⟨field, _, part, known, rfl⟩ := of_mem_source_tests source
      obtain ⟨_, value, place, tilde⟩ := lost
      obtain rfl := List.mem_singleton.mp place
      exact .inr ⟨part, known, tilde⟩
    · exact .inl ⟨test, mem_terms_kept condition, lost⟩

theorem refused_of_tilde {rule : Rule} {text : String} (writes : Writes rule)
    (written : write rule = .ok text) (gives : GivesTilde rule) :
    ∃ error, read text = .error error := by
  obtain ⟨test, member, lost⟩ := (gives_tilde_iff rule).mp gives
  have sign : .symbol "=~" ∈ searchLexemes rule := by
    rw [searchLexemes]
    cases found : searchOf? rule with
    | none =>
        have empty : searchItems rule = [] := by simpa [searchOf?, Logic.group?] using found
        rw [← terms_search_items, empty] at member
        cases member
    | some search =>
        rw [← terms_search found] at member
        exact Expression.wording_of_term (fun lexemes => List.subset_cons_self _ lexemes) member .none
          (tilde_of_lost lost)
  cases accepted : read text with
  | error error => exact ⟨error, rfl⟩
  | ok again =>
      obtain ⟨_, tokens, rest, listed, parsed⟩ := Dialect.of_located_tokens accepted
      obtain ⟨others, spelled, same⟩ := Token.list_of_spells (write_spells writes written)
      rw [spelled] at listed
      cases listed
      exact absurd parsed (not_read_of_sign same sign)

theorem reread_without_tilde {rule : Rule} {text : String} (writes : Writes rule)
    (written : write rule = .ok text) (keeps : ¬ GivesTilde rule) :
    read text = .ok (readBack rule) := by
  have filled : queryLexemes rule ≠ [] := by
    rw [queryLexemes, searchLexemes]
    cases found : searchOf? rule with
    | none => simp
    | some search =>
        obtain ⟨head, start, _⟩ := begins_search writes found
        obtain ⟨tail, same⟩ := List.head?_eq_some_iff.mp start
        simp [same]
  have tests : ∀ test ∈ searchTests rule, Writable test ∧ ¬ LosesTilde test := by
    intro test member
    refine ⟨?_, fun lost => keeps ((gives_tilde_iff rule).mpr ⟨test, member, lost⟩)⟩
    obtain ⟨_, terms, found, _⟩ := of_write written
    rcases search_terms_ok writes.proper writes.source found with ⟨none, _⟩ | ⟨search, found, _, rendered⟩
    · have empty : searchItems rule = [] := by simpa [searchOf?, Logic.group?] using none
      rw [← terms_search_items, empty] at member
      cases member
    · rw [← terms_search found] at member
      exact writable_search_test writes found rendered test member
  have parsed := Dialect.read_tokens_of_reads filled (write_spells writes written)
    (reads_query writes tests) (read_back_well_formed writes)
  rw [read, parsed]
  rfl

/-- Fields that have a word of their own in a search. -/
structure IsSearchField (field : String) : Prop where
  filled : field ≠ ""
  whole : ∀ c ∈ field.toList, Text.isBlank c = false ∧ c ∉ "=!<>()[]\x7b\x7d,|\x22".toList
  free : field ∉ ["AND", "OR", "NOT", "*", "index", "source", "sourcetype", "earliest", "latest",
    "_time"]
  other : Text.sameLetters field "search" = false

instance (field : String) : Decidable (IsSearchField field) :=
  decidable_of_iff (field ≠ "" ∧
    (field.toList.all fun c =>
      !Text.isBlank c && !"=!<>()[]\x7b\x7d,|\x22".toList.contains c) = true ∧
    field ∉ ["AND", "OR", "NOT", "*", "index", "source", "sourcetype", "earliest", "latest", "_time"] ∧
    Text.sameLetters field "search" = false) (by
      rw [List.all_eq_true]
      simp only [Bool.and_eq_true, Bool.not_eq_true', List.contains_eq_mem, decide_eq_false_iff_not]
      exact ⟨fun ⟨filled, whole, free, other⟩ => ⟨filled, whole, free, other⟩,
        fun ⟨filled, whole, free, other⟩ => ⟨filled, whole, free, other⟩⟩)

theorem IsSearchField.word {field : String} (known : IsSearchField field) :
    Token.IsWord quoting field.toList := by
  refine ⟨by simpa using known.filled, fun c member => ?_, nofun⟩
  obtain ⟨noBlank, plain⟩ := known.whole c member
  simpa [Token.endsWord, noBlank] using plain

/-- A rule that is written is read back with the same meaning, source and threshold, unless one of
its texts gives its tilde to an equality sign; then the query is refused. A condition that is a
single name has depth one, so at depth 31 the connectives nest 30 deep. -/
theorem written_query_reread {rule : Rule} {text : String} (written : write rule = .ok text)
    (shallow : rule.condition.depth ≤ 31)
    (fields : ∀ test ∈ rule.tests, IsSearchField test.field)
    (counts : ∀ aggregation ∈ rule.aggregation, ∀ field ∈ aggregation.fields, IsSearchField field)
    (patterns : ∀ test ∈ rule.tests, test.op = .regex → ∀ value ∈ test.values,
      Regex.isValid value.text = true)
    (parts : ∀ test ∈ rule.tests, test.op = .contains ∨ test.op = .startsWith ∨ test.op = .endsWith →
      ∀ value ∈ test.values, value.text ≠ "")
    (exact : ∀ test ∈ rule.tests, ∀ value ∈ test.values, value.text ≠ "-0")
    (source : ∀ part ∈ sourceParts rule.logSource, part ≠ "-0" ∧ '*' ∉ part.toList) :
    (GivesTilde rule ∧ ∃ error, read text = .error error) ∨
      ¬ GivesTilde rule ∧ ∃ again, read text = .ok again ∧
        (∀ truth, again.holds truth = rule.holds truth) ∧
        again.logSource = rule.logSource ∧ again.aggregation = rule.aggregation := by
  have known : ∀ test ∈ rule.expression.terms, test ∈ rule.tests := by
    intro test member
    obtain ⟨selection, inside, _, place⟩ := Rule.mem_terms_expression member
    exact List.mem_flatMap.mpr ⟨selection, inside, place⟩
  have writes : Writes rule := by
    refine ⟨(of_write written).1, shallow, fun test member => ?_, fun test member part => ?_,
      fun test member => patterns test (known test member), fun test member => exact test (known test member),
      fun part member => (source part member).2, fun part member => (source part member).1,
      fun aggregation member => ⟨fun field inside => (counts aggregation member field inside).word, ?_⟩⟩
    · have field := fields test (known test member)
      have free := field.free
      simp only [List.mem_cons, List.not_mem_nil, or_false, not_or] at free
      exact ⟨⟨field.word, by simp [free]⟩, by simp [sourceFields, free], free.2.2.2.1, field.other⟩
    · refine parts test (known test member) ?_
      cases operator : test.op <;> simp_all [Operator.isPart]
    · intro bucket
      refine (counts aggregation member "_time" ?_).free (by simp)
      rw [Aggregation.fields]
      split <;> simp [bucket]
  by_cases gives : GivesTilde rule
  · exact .inl ⟨gives, refused_of_tilde writes written gives⟩
  · refine .inr ⟨gives, readBack rule, reread_without_tilde writes written gives,
      read_back_holds writes, ?_, ?_⟩
    · rw [read_back_eq writes]
    · rw [read_back_eq writes]

instance (rule : Rule) : Decidable (GivesTilde rule) :=
  inferInstanceAs (Decidable ((∃ test ∈ rule.expression.terms, LosesTilde test) ∨
    ∃ part ∈ sourceParts rule.logSource, IsTildeWord part))

def failedLogins : Rule where
  dialect := .sigma
  title := none
  description := none
  logSource := { product := some "windows", category := some "x~" }
  selections := [
    ⟨"start", [⟨"user", .startsWith, [.str "adm in~", .int 5]⟩, ⟨"tries", .gte, [.int (-3)]⟩]⟩,
    ⟨"known", [⟨"host", .regex, [.str "^(a|b)$", .str "~"]⟩]⟩,
    ⟨"noise", [⟨"_raw", .contains, [.str "a \"b\"", .str "~c"]⟩, ⟨"id", .equals, [.int 7, .str "~x"]⟩]⟩]
  condition := .all [.term "known", .not (.all [.term "start", .term "noise"])]
  aggregation := some ⟨.distinct "user", ["host", "src_ip"], .lte, 5, some ⟨7200⟩⟩

theorem failed_logins_reread_whole : ∃ text again, write failedLogins = .ok text ∧
    read text = .ok again ∧ (∀ truth, again.holds truth = failedLogins.holds truth) ∧
    again.logSource = failedLogins.logSource ∧ again.aggregation = failedLogins.aggregation := by
  have known : ((write failedLogins).map fun _ => true) = .ok true := by decide +kernel
  obtain ⟨text, written, _⟩ := Success.of_map known
  rcases written_query_reread written (by decide) (by decide +kernel) (by decide +kernel)
    (by decide +kernel) (by decide +kernel) (by decide) (by decide) with
    ⟨gives, _⟩ | ⟨_, again, accepted, same⟩
  · exact absurd gives (by decide +kernel)
  · exact ⟨text, again, written, accepted, same⟩

def tildeRule : Rule := .ofTests .splunk [⟨"a", .equals, [.str "~x"]⟩]

/-- The text is written behind its equality sign without quotes, and the query is refused. -/
theorem tilde_text_refused : tildeRule.WellFormed ∧ tildeRule.condition.depth ≤ 31 ∧
    (∀ test ∈ tildeRule.tests, IsSearchField test.field ∧ test.op = .equals ∧
      ∀ value ∈ test.values, value.text ≠ "-0") ∧
    tildeRule.aggregation = none ∧ tildeRule.logSource = {} ∧
    ∃ text error, write tildeRule = .ok text ∧ read text = .error error := by
  refine ⟨by decide, by decide, by decide +kernel, rfl, rfl, ?_⟩
  have known : ((write tildeRule).map fun text => (read text).toOption.isNone) = .ok true := by
    decide +kernel
  obtain ⟨text, written, refused⟩ := Success.of_map known
  cases found : read text with
  | error error => exact ⟨text, error, written, found⟩
  | ok rule =>
      rw [found] at refused
      cases refused

end DetectionRules.Splunk
