import DetectionRules.Proofs.Lead
import DetectionRules.Proofs.QRadar.Clauses
import DetectionRules.Proofs.QRadar.Filter

/-!
QRadar queries mean what the rules they are written for mean. Tests of where
events come from lead the filter and are lifted out of it again, so the source
is the same, the rest of the filter holds for the same events, and the clauses
behind it count the same.
-/

namespace DetectionRules.QRadar

open Expression (EndsDisjunction encloseIf led wordingIn)
open DetectionRules.Parser (Reads reads_bind reads_bind_cons reads_bind_nil reads_bind_last
  reads_pure reads_cons reads_nil)
open Token (Spells joined)

/-- Rules that can be written as queries. -/
structure Writes (rule : Rule) : Prop where
  proper : rule.Proper
  shallow : rule.condition.depth ≤ 31
  tests : ∀ selection ∈ rule.selections, ∀ test ∈ selection.tests,
    Writable test ∧ test.field ∉ sourceCalls
  groups : ∀ aggregation ∈ rule.aggregation, ∀ field ∈ aggregation.groupBy,
    Text.sameLetters field "FROM" = false

def sourceFilter (source : LogSource) : List FieldTest :=
  [(typeCall, source.product), (categoryCall, source.category), (sourceCall, source.service)].filterMap
    fun (call, value) => value.map fun value => .single call .equals (.str value)

def sourceText (test : FieldTest) : String :=
  column test.field ++ " = " ++ Text.singleQuote (test.values.head?.elim "" (·.text))

theorem of_mem_source_filter {source : LogSource} {test : FieldTest}
    (member : test ∈ sourceFilter source) :
    ∃ call ∈ sourceCalls, ∃ value, test = .single call .equals (.str value) := by
  obtain ⟨⟨call, value⟩, inside, found⟩ := List.mem_filterMap.mp member
  obtain ⟨text, _, rfl⟩ := Option.map_eq_some_iff.mp found
  refine ⟨call, ?_, text, rfl⟩
  simp only [List.mem_cons, List.not_mem_nil, or_false, Prod.mk.injEq] at inside
  rcases inside with ⟨rfl, _⟩ | ⟨rfl, _⟩ | ⟨rfl, _⟩ <;> simp [sourceCalls]

theorem source_tests_eq (source : LogSource) :
    sourceTests source = (sourceFilter source).map sourceText := by
  have names : column typeCall = typeCall ∧ column categoryCall = categoryCall ∧
      column sourceCall = sourceCall := by
    decide
  obtain ⟨product, category, service⟩ := source
  cases product <;> cases category <;> cases service <;>
    simp [sourceTests, sourceFilter, sourceText, FieldTest.single, Value.text, names]

theorem render_source_test {source : LogSource} {test : FieldTest}
    (member : test ∈ sourceFilter source) : renderTest test = .ok (sourceText test) := by
  obtain ⟨call, _, value, rfl⟩ := of_mem_source_filter member
  rfl

theorem writable_source_test {source : LogSource} {test : FieldTest}
    (member : test ∈ sourceFilter source) : Writable test := by
  obtain ⟨call, known, value, rfl⟩ := of_mem_source_filter member
  have named : ∀ call ∈ sourceCalls, call ≠ "" := by decide
  have column : ∀ call ∈ sourceCalls, ∀ word ∈ reserved, Text.sameLetters call word = false := by
    decide
  exact ⟨⟨named call known, by simp [FieldTest.single], nofun⟩, nofun, nofun, column call known⟩

theorem fold_source_filter (source : LogSource) :
    (sourceFilter source).foldl addSource {} = source := by
  obtain ⟨product, category, service⟩ := source
  cases product <;> cases category <;> cases service <;>
    simp [sourceFilter, addSource, FieldTest.single, Value.text, typeCall, categoryCall, sourceCall]

def filterOf (rule : Rule) : Logic FieldTest := led (sourceFilter rule.logSource) rule.expression

def queryLexemes (rule : Rule) : List Lexeme :=
  .word "SELECT" :: (selectLexemes rule.aggregation ++ [.word "FROM", .word "events", .word "WHERE"] ++
    wordingIn wording .none (filterOf rule) ++ rule.aggregation.elim [] clauseLexemes)

theorem writable_of_filter {rule : Rule} (writes : Writes rule) {test : FieldTest}
    (member : test ∈ (filterOf rule).terms) : Writable test := by
  rcases Expression.mem_terms_led.mp member with source | condition
  · exact writable_source_test source
  · obtain ⟨selection, inside, _, place⟩ := Rule.mem_terms_expression condition
    exact (writes.tests selection inside test place).1

theorem render_test_total (test : FieldTest) : ∃ text, renderTest test = .ok text := by
  obtain ⟨field, op, values⟩ := test
  cases op with
  | equals =>
      match values with
      | [] => exact ⟨_, rfl⟩
      | [value] => exact ⟨_, rfl⟩
      | first :: second :: others => exact ⟨_, rfl⟩
  | gt | gte | lt | lte => exact ⟨_, rfl⟩
  | contains | startsWith | endsWith | regex => exact Expression.render_alternatives_total _ _ _

theorem spells_not {text : String} {lexemes : List Lexeme} (spells : Spells quoting text lexemes) :
    Spells quoting ("NOT " ++ text) (.word "NOT" :: lexemes) :=
  Token.spells_behind_word (by simp) (by simp) (by simp [Token.isPlain]) spells

theorem spells_filter {filter : Logic FieldTest} {text : String} (normal : filter.Normal)
    (writable : ∀ test ∈ filter.terms, Writable test)
    (rendered : Expression.render spelling filter = .ok text) :
    Spells quoting text (wordingIn wording .none filter) := by
  have tests : ∀ test ∈ filter.terms, ∀ text, spelling.term test = .ok text →
      Spells quoting text (wording.term test) := by
    intro test member text rendered
    exact spells_test (writable test member) rendered
  exact Expression.spells_render normal.filled tests connects_and connects_or (fun _ _ => spells_not) rfl
    rendered

theorem spells_front {text : String} {lexemes : List Lexeme} (aggregation : Option Aggregation)
    (spells : Spells quoting text lexemes) :
    Spells quoting ("SELECT " ++ columnsText aggregation ++ " FROM events WHERE " ++ text)
      (.word "SELECT" :: (selectLexemes aggregation ++
        [.word "FROM", .word "events", .word "WHERE"] ++ lexemes)) := by
  have select : Spells quoting "SELECT" [.word "SELECT"] :=
    Token.spells_plain (by simp) (by simp [Token.isPlain])
  have shown := Token.connects_blank select (spells_select aggregation)
  have front := @Token.spells_before_word quoting _ "FROM" _ shown (by simp) (by simp [Token.isPlain])
  have table := @Token.spells_before_word quoting _ "events" _ front (by simp) (by simp [Token.isPlain])
  have clause := @Token.spells_before_word quoting _ "WHERE" _ table (by simp) (by simp [Token.isPlain])
  have whole := Token.connects_blank clause spells
  have first : "SELECT " = "SELECT" ++ " " := by simp
  have middle : " FROM events WHERE " = " " ++ "FROM" ++ " " ++ "events" ++ " " ++ "WHERE" ++ " " := by
    simp
  rw [first, middle]
  simpa only [String.append_assoc, List.append_assoc, List.cons_append, List.nil_append] using whole

theorem write_spells {rule : Rule} (writes : Writes rule) :
    ∃ text, write rule = .ok text ∧ Spells quoting text (queryLexemes rule) := by
  have proper := writes.proper
  have normal := Rule.normal_expression proper
  obtain ⟨condition, rendered⟩ : ∃ condition,
      Expression.render spelling rule.expression = .ok condition :=
    Expression.render_total (fun test _ => render_test_total test) .none
  have ready : Dialect.ensureWritable .qradar rule = .ok () :=
    Dialect.ensure_writable ((Rule.well_formed_iff rule).mpr proper) rfl
  have known : ∀ test ∈ sourceFilter rule.logSource, spelling.term test = .ok (sourceText test) :=
    fun _ => render_source_test
  have filter : Spells quoting (String.intercalate " AND " _) (wordingIn wording .none (filterOf rule)) :=
    spells_filter (Expression.normal_led normal) (fun _ => writable_of_filter writes)
      (Expression.render_led known normal rendered)
  have front := spells_front rule.aggregation filter
  refine ⟨"SELECT " ++ columnsText rule.aggregation ++ " FROM events WHERE " ++
    String.intercalate " AND " (sourceTests rule.logSource ++
      [encloseIf (rule.expression.isDisjunction && !(sourceTests rule.logSource).isEmpty) condition]) ++
    rule.aggregation.elim "" aggregationText, ?_, ?_⟩
  · rw [write, ready, Dialect.expression_eq .qradar proper]
    simp only [bind, Except.bind, rendered]
    rfl
  · rw [source_tests_eq, List.isEmpty_map, queryLexemes]
    cases counted : rule.aggregation with
    | none =>
        rw [counted] at front
        simpa only [Option.elim_none, String.append_empty, List.append_nil] using front
    | some aggregation =>
        rw [counted] at front
        exact spells_clauses front aggregation

def readBack (rule : Rule) : Rule :=
  toRule (some ((filterOf rule).bind FieldTest.listed)) (rule.aggregation.elim {} clausesOf)

def Passes (lexeme : Lexeme) : Prop :=
  ∀ offset rest, Parser.nextIsKeyword "FROM" (⟨lexeme, offset⟩ :: rest) = false

theorem passes_column {field : String} (other : Text.sameLetters field "FROM" = false) :
    ∀ lexeme ∈ columnLexemes field, Passes lexeme := by
  have names : ∀ call ∈ calls, Text.sameLetters call.1 "FROM" = false ∧
      Text.sameLetters call.2 "FROM" = false := by
    decide
  rw [columnLexemes]
  cases found : calls.find? (callText · == field) with
  | some call =>
      obtain ⟨name, argument⟩ := names call (find_call found).1
      simp only [List.forall_mem_cons]
      exact ⟨fun _ _ => name, fun _ _ => rfl, fun _ _ => argument, fun _ _ => rfl,
        List.forall_mem_nil _⟩
  | none =>
      intro lexeme member
      by_cases plain : isPlainColumn field = true
      · obtain rfl : lexeme = .word field := by simpa [plain] using member
        exact fun _ _ => other
      · obtain rfl : lexeme = .quoted field := by simpa [plain] using member
        exact fun _ _ => rfl

theorem passes_columns {rule : Rule} (writes : Writes rule) :
    ∀ lexeme ∈ selectLexemes rule.aggregation, Passes lexeme := by
  have words : ∀ word ∈ ["COUNT", "*", "AS", "event_count"],
      Text.sameLetters word "FROM" = false := by
    decide
  have word (word : String) (known : word ∈ ["COUNT", "*", "AS", "event_count"]) :
      Passes (.word word) := fun _ _ => words word known
  have sign (sign : String) : Passes (.symbol sign) := fun _ _ => rfl
  have groups := writes.groups
  generalize rule.aggregation = aggregation at groups
  cases aggregation with
  | none => exact List.forall_mem_singleton.mpr (word "*" (by simp))
  | some aggregation =>
      intro lexeme member
      rcases Expression.mem_joined member with comma | ⟨column, shown, place⟩
      · rw [List.mem_singleton.mp comma]
        exact sign ","
      · rcases List.mem_append.mp shown with group | count
        · obtain ⟨field, inside, rfl⟩ := List.mem_map.mp group
          exact passes_column (groups aggregation rfl field inside) lexeme place
        · rw [List.mem_singleton.mp count] at place
          simp only [id, List.mem_cons, List.not_mem_nil, or_false] at place
          rcases place with rfl | rfl | rfl | rfl | rfl | rfl
          · exact word "COUNT" (by simp)
          · exact sign "("
          · exact word "*" (by simp)
          · exact sign ")"
          · exact word "AS" (by simp)
          · exact word "event_count" (by simp)

theorem ends_filter (aggregation : Option Aggregation) :
    EndsDisjunction connectives atClause (aggregation.elim [] clauseLexemes) := by
  cases aggregation with
  | none => exact ends_disjunction (by simp) (by simp)
  | some aggregation =>
      have front : (clauseLexemes aggregation).head? = some (.word "GROUP") ∨
          (clauseLexemes aggregation).head? = some (.word "HAVING") := by
        rw [clauseLexemes, groupLexemes.eq_def]
        split
        · exact .inr rfl
        · exact .inl rfl
      apply ends_disjunction
      · rcases front with front | front <;> simp [front, IsBoundary]
      · rcases front with front | front <;> simp [front]

theorem reads_query {rule : Rule} (writes : Writes rule) :
    Reads query (queryLexemes rule) (readBack rule) [] := by
  have normal := Rule.normal_expression writes.proper
  have shallow : (filterOf rule).depth ≤ Expression.maxDepth :=
    (Expression.depth_led_le (Rule.depth_expression_le rule)).trans
      ((Nat.add_le_add_right writes.shallow 2).trans (by decide))
  have filter := reads_filter (Expression.normal_led normal) shallow
    (fun _ => writable_of_filter writes) (ends_filter rule.aggregation)
  have clauses : Reads (Parser.iterate clause {}) (rule.aggregation.elim [] clauseLexemes)
      (rule.aggregation.elim {} clausesOf) [] := by
    cases counted : rule.aggregation with
    | none => exact Parser.reads_iterate_stop (reads_no_clause _)
    | some aggregation => exact reads_clauses (writes.proper.aggregation aggregation counted)
  have table : ["events", "flows"].any (Text.sameLetters "events") = true := by decide
  have shape : queryLexemes rule = .word "SELECT" :: (selectLexemes rule.aggregation ++
      .word "FROM" :: .word "events" :: .word "WHERE" :: (wordingIn wording .none (filterOf rule) ++
        rule.aggregation.elim [] clauseLexemes)) := by
    simp [queryLexemes]
  rw [shape]
  apply reads_bind_cons (Parser.reads_keyword "SELECT" _)
  apply reads_bind (Parser.reads_skip_until (passes_columns writes) (by simp))
  apply reads_bind_cons (Parser.reads_keyword "FROM" _)
  apply Parser.reads_bind_word_at
  intro offset
  simp only [table]
  apply reads_bind_cons (Parser.reads_take_keyword "WHERE" _)
  rw [if_pos rfl]
  apply reads_bind (by rw [List.append_nil]; exact filter)
  apply reads_bind_nil (reads_pure _ _)
  exact reads_bind_last clauses (reads_pure _ _)

def readTree (rule : Rule) : Logic FieldTest := rule.expression.bind FieldTest.listed

theorem test_of_tree {rule : Rule} (writes : Writes rule) {test : FieldTest}
    (member : test ∈ (readTree rule).terms) : test.Proper ∧ test.field ∉ sourceCalls := by
  rw [readTree, Logic.terms_bind] at member
  obtain ⟨original, inside, place⟩ := List.mem_flatMap.mp member
  obtain ⟨selection, known, _, original_known⟩ := Rule.mem_terms_expression inside
  obtain ⟨writable, other⟩ := writes.tests selection known original original_known
  refine ⟨FieldTest.proper_listed writable.proper test place, ?_⟩
  rwa [FieldTest.field_listed place]

theorem normal_read_tree {rule : Rule} (writes : Writes rule) : (readTree rule).Normal := by
  apply Logic.Normal.bind (Rule.normal_expression writes.proper).filled
  intro test member
  obtain ⟨selection, known, _, place⟩ := Rule.mem_terms_expression member
  exact FieldTest.normal_listed (writes.tests selection known test place).1.proper.filled

/-- The tests of the source, and nothing else, are lifted out of the filter. -/
theorem lift_filter {rule : Rule} (writes : Writes rule) :
    Expression.liftTests isSourceTest ((filterOf rule).bind FieldTest.listed) =
      (sourceFilter rule.logSource, some (readTree rule)) := by
  have itself : ∀ test ∈ sourceFilter rule.logSource, test.listed = .term test := by
    intro test member
    obtain ⟨call, _, value, rfl⟩ := of_mem_source_filter member
    rfl
  have trees : ∀ test ∈ rule.expression.terms, test.listed.Normal := by
    intro test member
    obtain ⟨selection, known, _, place⟩ := Rule.mem_terms_expression member
    exact FieldTest.normal_listed (writes.tests selection known test place).1.proper.filled
  rw [filterOf, Expression.bind_led itself (Rule.normal_expression writes.proper) trees]
  apply Expression.lift_led
  · intro test member
    obtain ⟨call, known, value, rfl⟩ := of_mem_source_filter member
    simp [isSourceTest, FieldTest.single, known]
  · exact normal_read_tree writes
  · intro test member
    have other := (test_of_tree writes member).2
    simp [isSourceTest, other]

theorem read_back_eq {rule : Rule} (writes : Writes rule) :
    readBack rule = {
      dialect := .qradar
      title := none
      description := none
      logSource := rule.logSource
      selections := (Expression.toSelections (readTree rule)).1
      condition := (Expression.toSelections (readTree rule)).2
      aggregation := rule.aggregation } := by
  have counted : (rule.aggregation.elim {} clausesOf).aggregation = rule.aggregation := by
    cases rule.aggregation with
    | none => rfl
    | some aggregation => exact clauses_aggregation aggregation
  rw [readBack, toRule]
  simp only [lift_filter writes, fold_source_filter, counted]

theorem read_back_holds {rule : Rule} (writes : Writes rule) (truth : Truth) :
    (readBack rule).holds truth = rule.holds truth := by
  have same := read_back_eq writes
  rw [Expression.holds_of_selections (congrArg Rule.selections same) (congrArg Rule.condition same),
    readTree, Logic.eval_bind, ← Rule.eval_expression writes.proper]
  apply Logic.eval_congr
  intro test _
  exact FieldTest.eval_listed test truth

theorem read_back_well_formed {rule : Rule} (writes : Writes rule) :
    (readBack rule).WellFormed := by
  have same := read_back_eq writes
  apply Expression.well_formed_of_selections (congrArg Rule.selections same)
    (congrArg Rule.condition same) (normal_read_tree writes)
  · exact fun test member => (test_of_tree writes member).1
  · rw [same]
    exact writes.proper.aggregation

/-- A rule is written, the query is read, and what is read holds for the same events, comes from
the same source and counts the same. A condition that is a single name has depth one, so at depth
31 the connectives nest 30 deep. -/
theorem written_query_read_back {rule : Rule} (sound : rule.WellFormed)
    (shallow : rule.condition.depth ≤ 31)
    (patterns : ∀ selection ∈ rule.selections, ∀ test ∈ selection.tests, test.op = .regex →
      ∀ value ∈ test.values, Regex.isValid value.text = true)
    (parts : ∀ selection ∈ rule.selections, ∀ test ∈ selection.tests,
      test.op = .contains ∨ test.op = .startsWith ∨ test.op = .endsWith →
      ∀ value ∈ test.values, value.text ≠ "" ∧ '%' ∉ value.text.toList ∧ '_' ∉ value.text.toList)
    (columns : ∀ selection ∈ rule.selections, ∀ test ∈ selection.tests,
      ∀ word ∈ ["NOT", "GROUP", "HAVING", "ORDER", "LIMIT", "LAST", "START", "STOP"] ++ sourceCalls,
        Text.sameLetters test.field word = false)
    (groups : ∀ aggregation ∈ rule.aggregation, ∀ field ∈ aggregation.groupBy,
      Text.sameLetters field "FROM" = false) :
    ∃ text again, write rule = .ok text ∧ read text = .ok again ∧
      (∀ truth, again.holds truth = rule.holds truth) ∧
      again.logSource = rule.logSource ∧ again.aggregation = rule.aggregation := by
  have proper := (Rule.well_formed_iff rule).mp sound
  have writes : Writes rule := by
    refine ⟨proper, shallow, fun selection inside test member => ?_, groups⟩
    have column := columns selection inside test member
    refine ⟨⟨(proper.selections selection inside).tests test member,
      patterns selection inside test member, fun globbed => ?_,
      fun word known => column word (List.mem_append_left _ known)⟩, fun call => ?_⟩
    · refine parts selection inside test member ?_
      cases operator : test.op <;> simp_all [isGlobbed]
    · have other := column test.field (List.mem_append_right _ call)
      rw [Parser.same_letters_self] at other
      cases other
  obtain ⟨text, written, spells⟩ := write_spells writes
  have parsed := Dialect.read_tokens_of_reads (by simp [queryLexemes]) spells (reads_query writes)
    (read_back_well_formed writes)
  refine ⟨text, readBack rule, written, ?_, read_back_holds writes, ?_, ?_⟩
  · rw [read, parsed]
    rfl
  · rw [read_back_eq writes]
  · rw [read_back_eq writes]

def refusedLogins : Rule where
  dialect := .sigma
  title := none
  description := none
  logSource := { product := some "it's", service := some "vpn" }
  selections := [
    ⟨"start", [⟨"User Name", .startsWith, [.str "ad'min", .int 5]⟩, ⟨"tries", .gte, [.int (-3)]⟩]⟩,
    ⟨"known", [⟨"host", .regex, [.str "^(a|b)$"]⟩, ⟨"from", .equals, [.str "", .int 7]⟩]⟩]
  condition := .any [.term "start", .not (.term "known")]
  aggregation := some ⟨.distinct "CATEGORYNAME(category)", ["host", "User Name"], .eq, 5, some ⟨7200⟩⟩

theorem refused_logins_read_back : ∃ text again, write refusedLogins = .ok text ∧
    read text = .ok again ∧ (∀ truth, again.holds truth = refusedLogins.holds truth) ∧
    again.logSource = refusedLogins.logSource ∧ again.aggregation = refusedLogins.aggregation :=
  written_query_read_back (by decide) (by decide) (by decide +kernel) (by decide) (by decide) (by decide)

end DetectionRules.QRadar
