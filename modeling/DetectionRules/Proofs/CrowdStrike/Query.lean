import DetectionRules.Proofs.CrowdStrike.Filter
import DetectionRules.Proofs.CrowdStrike.Source
import DetectionRules.Proofs.CrowdStrike.Summary
import DetectionRules.Proofs.Lead

/-!
CrowdStrike queries mean what the rules they are written for mean. The tests of
the source lead the filter as members of one conjunction, so a query is the
written form of that conjunction, and of the count after it. A stage takes a
word before a parenthesis for a call, so a filter whose first word negates a
group is taken for a call of `not`; no other filter is taken for a call but of
`in`, which is a test.
-/

namespace DetectionRules.CrowdStrike

open Expression (FitsIn wordingIn wordingAll renderIn renderAll encloseIf enclosed Binding)
open Token (behind joined)

/-- What stands at the front of a written filter, where something is to follow it. -/
structure Front (text : String) (lexemes : List Lexeme) : Prop where
  call : ∀ next name rest, lexemes ++ next = .word name :: .symbol "(" :: rest →
    name = "in" ∨ name = "not" ∧ Text.startsWith text "not (" = true
  group : ∀ next rest, lexemes ++ next = .symbol "(" :: rest → Text.startsWith text "(" = true
  filled : lexemes ≠ []

theorem starts_with_append {text start rest : String} (starts : Text.startsWith text start = true) :
    Text.startsWith (text ++ rest) start = true := by
  rw [Text.startsWith, List.isPrefixOf_iff_prefix] at starts ⊢
  rw [String.toList_append]
  exact starts.trans (List.prefix_append _ _)

theorem starts_behind (before : String) {text start : String}
    (starts : Text.startsWith text start = true) :
    Text.startsWith (before ++ text) (before ++ start) = true := by
  rw [Text.startsWith, List.isPrefixOf_iff_prefix] at starts ⊢
  rw [String.toList_append, String.toList_append]
  exact (List.prefix_append_right_inj _).mpr starts

theorem starts_with_parenthesis (text : String) :
    Text.startsWith ("(" ++ text) "(" = true := by
  simp [Text.startsWith]

theorem front_of_plain_head {text : String} {head : Lexeme} {tail : List Lexeme}
    (noGroup : head ≠ .symbol "(")
    (noCall : ∀ next name rest, head :: tail ++ next = .word name :: .symbol "(" :: rest →
      name = "in") : Front text (head :: tail) where
  call := fun next name rest same => .inl (noCall next name rest same)
  group := fun _ _ same => absurd (List.cons.inj same).1 noGroup
  filled := List.cons_ne_nil _ _

theorem front_of_enclosed (text : String) (lexemes : List Lexeme) :
    Front ("(" ++ text ++ ")") (.symbol "(" :: lexemes) where
  call := fun _ _ _ same => nomatch (List.cons.inj same).1
  group := fun _ _ _ => starts_with_append (starts_with_parenthesis text)
  filled := List.cons_ne_nil _ _

theorem front_of_comparison (field sign text : String) {tail : List Lexeme}
    (noCall : sign ≠ "(") : Front text (.word field :: .symbol sign :: tail) := by
  apply front_of_plain_head (by simp)
  intro next name rest same
  simp [noCall] at same

theorem front_of_glob_test (test : FieldTest) (text : String) :
    Front text (globTestLexemes test) := by
  rw [globTestLexemes]
  split
  · exact front_of_comparison _ _ _ (by simp)
  · apply front_of_plain_head (by simp)
    intro next name rest same
    simpa [eq_comm] using (List.cons.inj same).1

theorem front_of_alternatives {test : FieldTest} {text : String}
    {single : FieldTest → Except RuleError String} {lexemes : Value → List Lexeme}
    (front : ∀ value text, Front text (lexemes value))
    (written : Expression.renderAlternatives disjunctionText single test = .ok text) :
    Front text (Expression.alternativesIn [.word "or"] lexemes test.values) := by
  rw [Expression.renderAlternatives] at written
  rw [Expression.alternativesIn.eq_def]
  split
  · exact front _ text
  · rename_i several
    rw [if_neg] at written
    · obtain ⟨texts, _, written⟩ := Success.of_bind written
      cases written
      exact front_of_enclosed _ _
    · intro single
      obtain ⟨value, same⟩ := List.length_eq_one_iff.mp single
      exact several value same

theorem front_of_test {test : FieldTest} {text : String} (written : renderTest test = .ok text) :
    Front text (testLexemes test) := by
  rw [renderTest] at written
  obtain ⟨field, _, written⟩ := Success.of_bind written
  rw [testLexemes]
  cases operator : test.op with
  | equals | startsWith | endsWith => exact front_of_glob_test test text
  | gt | gte | lt | lte =>
      apply front_of_comparison
      decide
  | regex =>
      simp only [operator] at written
      exact front_of_alternatives (fun _ _ => front_of_comparison _ _ _ (by simp)) written
  | contains =>
      simp only [operator] at written ⊢
      split
      · rename_i raw
        rw [if_pos raw] at written
        exact front_of_alternatives
          (fun _ _ => front_of_plain_head (by simp) (by simp)) written
      · exact front_of_glob_test test text

theorem front_of_joined {text : String} {texts : List String} {separator : String}
    {first : List Lexeme} {others : List Lexeme} (front : Front text first) :
    Front (String.intercalate separator (text :: texts)) (first ++ others) := by
  have starts (start : String) (begins : Text.startsWith text start = true) :
      Text.startsWith (String.intercalate separator (text :: texts)) start = true := by
    cases texts with
    | nil => simpa using begins
    | cons second texts =>
        rw [String.intercalate_cons_cons, String.append_assoc]
        exact starts_with_append begins
  refine ⟨fun next name rest same => ?_, fun next rest same => ?_, by simp [front.filled]⟩
  · rcases front.call (others ++ next) name rest (by simpa using same) with call | ⟨name, begins⟩
    · exact .inl call
    · exact .inr ⟨name, starts _ begins⟩
  · exact starts _ (front.group (others ++ next) rest (by simpa using same))

theorem front_of_enclose {needed : Bool} {text : String} {lexemes : List Lexeme}
    (front : Front text lexemes) : Front (encloseIf needed text) (enclosed needed lexemes) := by
  cases needed with
  | false => exact front
  | true => exact front_of_enclosed text _

theorem front_of_group {separator : String} {between : List Lexeme} {surroundings inner : Binding}
    {items : List (Logic FieldTest)} {text : String} (filled : items ≠ [])
    (members : ∀ item ∈ items, ∀ text, renderIn spelling inner item = .ok text →
      Front text (wordingIn wording inner item))
    (written : (do
      let parts ← renderAll spelling inner items
      return encloseIf (inner.strength < surroundings.strength)
        (String.intercalate separator parts)) = .ok text) :
    Front text (enclosed (inner.strength < surroundings.strength)
      (joined between id (wordingAll wording inner items))) := by
  obtain ⟨first, others, rfl⟩ := List.exists_cons_of_ne_nil filled
  obtain ⟨parts, partsWritten, written⟩ := Success.of_bind written
  rw [renderAll] at partsWritten
  obtain ⟨part, partWritten, partsWritten⟩ := Success.of_bind partsWritten
  obtain ⟨rest, _, partsWritten⟩ := Success.of_bind partsWritten
  cases partsWritten
  cases written
  apply front_of_enclose
  exact front_of_joined (members first (by simp) part partWritten)

theorem front_of_render {surroundings : Binding} {expression : Logic FieldTest} {text : String}
    (normal : expression.Normal)
    (written : renderIn spelling surroundings expression = .ok text) :
    Front text (wordingIn wording surroundings expression) := by
  induction normal generalizing surroundings text with
  | term test => exact front_of_test written
  | @all items long _ _ members =>
      rw [renderIn] at written
      rw [wordingIn]
      refine front_of_group ?_ (fun item member text written => members item member written) written
      rintro rfl
      simp at long
  | @any items long _ _ members =>
      rw [renderIn] at written
      rw [wordingIn]
      refine front_of_group ?_ (fun item member text written => members item member written) written
      rintro rfl
      simp at long
  | @not item _ _ inner =>
      rw [renderIn] at written
      obtain ⟨innerText, innerWritten, written⟩ := Success.of_bind written
      cases written
      have front : Front innerText (wordingIn wording wording.negated item) := inner innerWritten
      refine ⟨fun next name rest same => .inr ?_, fun next rest same => ?_, by simp [wordingIn, wording]⟩
      · obtain ⟨named, behind⟩ := List.cons.inj same
        refine ⟨(Lexeme.word.inj named).symm, ?_⟩
        exact starts_behind "not " (front.group next rest behind)
      · cases (List.cons.inj same).1

end DetectionRules.CrowdStrike

namespace DetectionRules.CrowdStrike

open Expression (FitsIn wordingIn encloseIf)
open DetectionRules.Parser (Reads reads_bind reads_bind_cons reads_bind_nil reads_bind_last
  reads_pure reads_cons reads_nil)
open Token (Spells joined)

/-- The filter of a query that is written for a rule. -/
def filterOf (rule : Rule) : Logic FieldTest :=
  Expression.led (sourceTests rule.logSource) rule.expression

def queryLexemes (rule : Rule) : List Lexeme :=
  wordingIn wording .none (filterOf rule) ++ rule.aggregation.elim [] aggregationLexemes

def sourceText (test : FieldTest) : String := test.field ++ "=" ++ firstText test

theorem source_terms_eq (source : LogSource) :
    sourceTerms source = (sourceTests source).map sourceText := by
  unfold sourceTerms sourceTests
  cases source.category.bind eventOf? <;> cases source.product.bind platformOf? <;> rfl

def isPlainName (name : String) : Bool := isBareGlob .equals name && !name.toList.contains '*'

theorem of_mem_source_tests {source : LogSource} {test : FieldTest}
    (member : test ∈ sourceTests source) :
    ∃ field name, test = .single field .equals (.str name) ∧
      (field = eventField ∨ field = platformField) ∧ isPlainName name = true := by
  have event : ∀ pair ∈ events, isPlainName pair.1 = true := by decide +kernel
  have platform : ∀ pair ∈ platforms, isPlainName pair.1 = true := by decide +kernel
  rw [sourceTests, List.mem_append, Option.mem_toList, Option.mem_toList] at member
  rcases member with member | member
  · obtain ⟨name, found, rfl⟩ := Option.map_eq_some_iff.mp member
    obtain ⟨category, _, found⟩ := Option.bind_eq_some_iff.mp found
    obtain ⟨pair, known, rfl⟩ := Option.map_eq_some_iff.mp found
    exact ⟨eventField, _, rfl, .inl rfl, event pair (List.mem_of_find?_eq_some known)⟩
  · obtain ⟨name, found, rfl⟩ := Option.map_eq_some_iff.mp member
    obtain ⟨product, _, found⟩ := Option.bind_eq_some_iff.mp found
    obtain ⟨pair, known, rfl⟩ := Option.map_eq_some_iff.mp found
    exact ⟨platformField, _, rfl, .inr rfl, platform pair (List.mem_of_find?_eq_some known)⟩

theorem render_source_test {source : LogSource} {test : FieldTest}
    (member : test ∈ sourceTests source) : renderTest test = .ok (sourceText test) := by
  obtain ⟨field, name, rfl, known, plain⟩ := of_mem_source_tests member
  rw [isPlainName, Bool.and_eq_true] at plain
  have isField : isPlainField field = true := by rcases known with rfl | rfl <;> decide
  have noStar : Text.containsChar name '*' = false := by
    simpa [Text.containsChar] using plain.2
  have glob : globText .equals (.str name) = .ok name := by
    simp [globText, Value.text, noStar, Glob.ofOperator?, plain.1]
  simp [renderTest, fieldText, isField, FieldTest.single, globTest, glob]
  rfl

theorem writable_source_test {source : LogSource} {test : FieldTest}
    (member : test ∈ sourceTests source) : Writable test := by
  have written := render_source_test member
  obtain ⟨field, name, rfl, known, plain⟩ := of_mem_source_tests member
  have named : field ≠ "" := by rcases known with rfl | rfl <;> decide
  have word : isFieldWord field = true := by rcases known with rfl | rfl <;> decide
  exact ⟨⟨named, by simp [FieldTest.single], by simp [FieldTest.single, Operator.isComparison]⟩, word,
    ⟨_, written⟩, by simp [FieldTest.single], fun _ _ _ => .inl rfl⟩

theorem not_free_source_test {source : LogSource} {test : FieldTest}
    (member : test ∈ sourceTests source) : isFree test = false := by
  obtain ⟨field, name, rfl, _⟩ := of_mem_source_tests member
  rfl

/-- What is written is the form of one conjunction, led by the tests of the source. -/
theorem render_filter {rule : Rule} {text : String} (normal : rule.expression.Normal)
    (rendered : Expression.render spelling rule.expression = .ok text) :
    Expression.render spelling (filterOf rule) =
      .ok (String.intercalate " " (sourceTerms rule.logSource ++
        [encloseIf (rule.expression.isDisjunction && !(sourceTerms rule.logSource).isEmpty) text])) := by
  have known : ∀ test ∈ sourceTests rule.logSource, spelling.term test = .ok (sourceText test) :=
    fun _ => render_source_test
  rw [source_terms_eq, List.isEmpty_map]
  exact Expression.render_led known normal rendered

theorem of_write {rule : Rule} {text : String} (written : write rule = .ok text) :
    rule.Proper ∧ ∃ filter, Expression.render spelling (filterOf rule) = .ok filter ∧
      (rule.aggregation = none ∧ text = filter ∨
        ∃ aggregation stats, rule.aggregation = some aggregation ∧
          aggregationText aggregation = .ok stats ∧ text = filter ++ stats) := by
  rw [write] at written
  obtain ⟨_, ready, written⟩ := Success.of_bind written
  have proper := (Rule.well_formed_iff rule).mp (Dialect.well_formed_of_writable ready)
  obtain ⟨expression, found, written⟩ := Success.of_bind written
  obtain ⟨part, rendered, written⟩ := Success.of_bind written
  obtain rfl : rule.expression = expression := by
    rw [Dialect.expression_eq .crowdstrike proper] at found
    exact Except.ok.inj found
  refine ⟨proper, _, render_filter (Rule.normal_expression proper) rendered, ?_⟩
  cases counted : rule.aggregation with
  | none =>
      simp only [counted] at written
      cases written
      exact .inl ⟨rfl, by simp⟩
  | some aggregation =>
      simp only [counted] at written
      obtain ⟨stats, statsWritten, written⟩ := Success.of_bind written
      cases written
      exact .inr ⟨aggregation, stats, rfl, statsWritten, rfl⟩

/-- What reading a written query takes: tests that can be read, and free text only where it
stands for itself. -/
structure Writes (rule : Rule) : Prop where
  proper : rule.Proper
  shallow : rule.condition.depth ≤ 31
  tests : ∀ test ∈ rule.expression.terms, Writable test
  free : FitsIn wording Stands .none false (filterOf rule)
    (rule.aggregation.elim [] aggregationLexemes)

theorem normal_filter {rule : Rule} (proper : rule.Proper) : (filterOf rule).Normal :=
  Expression.normal_led (Rule.normal_expression proper)

theorem mem_terms_filter {rule : Rule} {test : FieldTest} :
    test ∈ (filterOf rule).terms ↔
      test ∈ sourceTests rule.logSource ∨ test ∈ rule.expression.terms :=
  Expression.mem_terms_led

theorem depth_filter_le (rule : Rule) : (filterOf rule).depth ≤ rule.condition.depth + 2 :=
  Expression.depth_led_le (Rule.depth_expression_le rule)

theorem eval_filter {rule : Rule} (proper : rule.Proper) (truth : Truth) :
    (filterOf rule).eval (·.holds truth) = holdsFrom truth rule := by
  rw [filterOf, Expression.eval_led, Rule.eval_expression proper, holdsFrom]

theorem writable_of_filter {rule : Rule} (writes : Writes rule) {test : FieldTest}
    (member : test ∈ (filterOf rule).terms) : Writable test := by
  rcases mem_terms_filter.mp member with source | condition
  · exact writable_source_test source
  · exact writes.tests test condition

theorem write_spells {rule : Rule} {text : String} (writes : Writes rule)
    (written : write rule = .ok text) : Spells quoting text (queryLexemes rule) := by
  obtain ⟨proper, filter, rendered, stats⟩ := of_write written
  have tests : ∀ test ∈ (filterOf rule).terms, ∀ text, spelling.term test = .ok text →
      Spells quoting text (wording.term test) := by
    intro test member text written
    exact spells_test (writable_of_filter writes member) written
  have spells := Expression.spells_render (normal_filter proper).filled tests Token.connects_blank
    Token.connects_or (fun _ _ => Token.spells_not) rfl rendered
  rw [queryLexemes]
  rcases stats with ⟨counted, rfl⟩ | ⟨aggregation, stats, counted, statsWritten, rfl⟩
  · simpa [counted] using spells
  · rw [counted]
    exact spells_aggregation spells statsWritten

/-- A query is taken for a call of `not` only if that is what it looks like. -/
theorem front_of_write {rule : Rule} {text : String} (written : write rule = .ok text) :
    Front text (wordingIn wording .none (filterOf rule)) := by
  obtain ⟨proper, filter, rendered, stats⟩ := of_write written
  have front := front_of_render (normal_filter proper) rendered
  rcases stats with ⟨_, rfl⟩ | ⟨_, stats, _, _, rfl⟩
  · exact front
  · refine ⟨fun next name rest same => ?_, fun next rest same => ?_, front.filled⟩
    · rcases front.call next name rest same with call | ⟨named, begins⟩
      · exact .inl call
      · exact .inr ⟨named, starts_with_append begins⟩
    · exact starts_with_append (front.group next rest same)

def nextStage (query : Query) : Parser (Option Query) := do
  if ← Parser.takeSign "|" then return some (← stage query) else return none

theorem reads_next_stage {start result : Query} {lexemes next : List Lexeme}
    (reads : Reads (stage start) lexemes result next) :
    Reads (nextStage start) (.symbol "|" :: lexemes) (some result) next := by
  apply reads_bind_cons (Parser.reads_take_sign "|" _)
  rw [if_pos rfl]
  exact reads_bind_last reads (reads_pure _ _)

theorem reads_no_stage (query : Query) : Reads (nextStage query) [] none [] := by
  apply reads_bind_nil
  · exact Parser.reads_no_sign (by simp)
  · exact reads_pure _ _

theorem call_of_next {tokens : List Token} {call : String}
    (called : Parser.nextCall? tokens = some call) :
    ∃ name rest, tokens.map (·.lexeme) = .word name :: .symbol "(" :: rest ∧
      call = Text.lower name := by
  rcases tokens with _ | ⟨⟨lexeme, offset⟩, tokens⟩
  · cases called
  · cases lexeme with
    | word name =>
        rw [Parser.nextCall?] at called
        split at called
        · rename_i opens
          rw [Parser.nextIsSign.eq_def] at opens
          split at opens
          · rename_i sign opening rest
            obtain rfl : sign = "(" := by simpa using opens
            exact ⟨name, _, rfl, (Option.some.inj called).symm⟩
          · cases opens
        · cases called
    | quoted text => cases called
    | pattern body flags => cases called
    | symbol sign => cases called

theorem reads_filter_stage {lexemes next : List Lexeme} {expression : Logic FieldTest}
    (filled : lexemes ≠ [])
    (noCall : ∀ name rest, lexemes ++ next = .word name :: .symbol "(" :: rest → name = "in")
    (reads : Reads filter lexemes expression next) :
    Reads (stage {}) lexemes { filters := [expression] } next := by
  intro tokens rest same follows
  have read := reads tokens rest same follows
  have test (offset : Option Nat) :
      testStage {} offset (tokens ++ rest) = .ok ({ filters := [expression] }, rest) := by
    simp [testStage, read]
  have some : tokens ≠ [] := by
    rintro rfl
    exact filled same.symm
  cases called : Parser.nextCall? (tokens ++ rest) with
  | none => simp [stage, some, called, test]
  | some call =>
      obtain ⟨name, others, lexemesSame, rfl⟩ := call_of_next called
      rw [List.map_append, same, follows] at lexemesSame
      obtain rfl := noCall name others lexemesSame
      have name : Text.lower "in" = "in" := by decide
      simp [stage, some, called, name, test]

/-- What the stages of a written query say. -/
def queryOf (rule : Rule) : Query where
  filters := [(filterOf rule).bind testTree]
  stats := rule.aggregation.map statsOf
  threshold := rule.aggregation.map fun aggregation =>
    (aggregation.comparison, aggregation.threshold)

def readBack (rule : Rule) : Rule := (queryOf rule).toRule

theorem reads_query {rule : Rule} (writes : Writes rule)
    (noCall : ∀ next name rest, wordingIn wording .none (filterOf rule) ++ next =
      .word name :: .symbol "(" :: rest → name = "in")
    (filled : wordingIn wording .none (filterOf rule) ≠ []) :
    Reads query (queryLexemes rule) (readBack rule) [] := by
  have shallow : (filterOf rule).depth ≤ Expression.maxDepth :=
    (depth_filter_le rule).trans ((Nat.add_le_add_right writes.shallow 2).trans (by decide))
  have fit : FitsIn wording fits .none false (filterOf rule)
      (rule.aggregation.elim [] aggregationLexemes) := by
    refine Expression.fits_mono (fun test member _ _ stands => ?_) writes.free
    exact ⟨writable_of_filter writes member, stands⟩
  have first (next : List Lexeme) (same : rule.aggregation.elim [] aggregationLexemes = next)
      (ends : Expression.EndsDisjunction connectives atPipe next) :=
    reads_filter_stage filled (noCall next)
      (reads_filter (normal_filter writes.proper) shallow (same ▸ fit) ends)
  have finish (result : Query) (some : result.filters.isEmpty = false) :
      Reads (do
        if !(← Parser.atEnd) then Parser.expected "'|' or end of query"
        if result.filters.isEmpty then Parser.failAt (.some 0) "query has no filter stage"
        return result.toRule) [] result.toRule [] := by
    apply reads_nil
    intro rest follows
    obtain rfl : rest = [] := by simpa using follows
    simp [some]
  have filtered : (queryOf rule).filters.isEmpty = false := rfl
  have whole {first : Query} {lexemes others : List Lexeme}
      (reads : Reads (stage {}) lexemes first others)
      (iterates : Reads (Parser.iterate nextStage first) others (queryOf rule) []) :
      Reads query (lexemes ++ others) (readBack rule) [] := by
    apply reads_bind (by rwa [List.append_nil])
    exact reads_bind_last iterates (finish (queryOf rule) filtered)
  unfold queryLexemes
  cases counted : rule.aggregation with
  | none =>
      apply whole (first [] (by rw [counted]; rfl) Expression.ends_with_text)
      rw [queryOf, counted]
      exact Parser.reads_iterate_stop (reads_no_stage _)
  | some aggregation =>
      have proper := writes.proper.aggregation aggregation counted
      apply whole (first _ (by rw [counted]; rfl) (ends_disjunction (.inr rfl)))
      have stats := reads_next_stage (@reads_stats_stage aggregation proper
        { filters := [(filterOf rule).bind testTree] } rfl
        (.symbol "|" :: thresholdLexemes aggregation ++ []))
      have compared := reads_next_stage (@reads_threshold_stage aggregation
        { filters := [(filterOf rule).bind testTree], stats := some (statsOf aggregation) } rfl rfl [])
      rw [queryOf, counted]
      apply Parser.reads_iterate_next (by simp) stats
      exact Parser.reads_iterate_last (by simp) compared (reads_no_stage _)

/-- The expression that is read from the filter. -/
def readTree (rule : Rule) : Logic FieldTest := (filterOf rule).bind testTree

theorem normal_read_tree {rule : Rule} (writes : Writes rule) : (readTree rule).Normal := by
  apply Logic.Normal.bind (normal_filter writes.proper).filled
  intro test member
  exact normal_test_tree (writable_of_filter writes member).proper.filled

theorem eval_read_tree {rule : Rule} (writes : Writes rule) (truth : Truth) :
    (readTree rule).eval (·.holds truth) = holdsFrom truth rule := by
  rw [readTree, Logic.eval_bind, ← eval_filter writes.proper]
  apply Logic.eval_congr
  intro test _
  exact eval_test_tree test truth

theorem read_back_source {rule : Rule} (writes : Writes rule) :
    (readBack rule).logSource = (liftSource (readTree rule)).1 := by
  have single := Logic.conj_single (normal_read_tree writes)
  rw [readTree] at single
  simp [readBack, Query.toRule, queryOf, single, readTree]

theorem read_back_selections {rule : Rule} (writes : Writes rule) :
    ((readBack rule).selections, (readBack rule).condition) =
      Expression.toSelections (liftSource (readTree rule)).2 := by
  have single := Logic.conj_single (normal_read_tree writes)
  rw [readTree] at single
  simp [readBack, Query.toRule, queryOf, single, readTree]

theorem read_back_aggregation (rule : Rule) : (readBack rule).aggregation = rule.aggregation := by
  cases counted : rule.aggregation with
  | none => simp [readBack, Query.toRule, Query.aggregation, queryOf, counted]
  | some aggregation =>
      simp [readBack, Query.toRule, Query.aggregation, queryOf, statsOf, counted]

theorem read_back_holds {rule : Rule} (writes : Writes rule) (truth : Truth) :
    holdsFrom truth (readBack rule) = holdsFrom truth rule := by
  have same := read_back_selections writes
  have lifts := eval_lift_source (·.holds truth) (readTree rule)
  rw [holdsFrom, read_back_source writes,
    Expression.holds_of_selections (congrArg Prod.fst same) (congrArg Prod.snd same), lifts,
    eval_read_tree writes]

theorem read_back_well_formed {rule : Rule} (writes : Writes rule) :
    (readBack rule).WellFormed := by
  have same := read_back_selections writes
  have normal := normal_lift_source (normal_read_tree writes)
  apply Expression.well_formed_of_selections (congrArg Prod.fst same) (congrArg Prod.snd same) normal
  · intro test member
    have inside := terms_of_lift_source member
    rw [readTree, Logic.terms_bind] at inside
    obtain ⟨original, known, place⟩ := List.mem_flatMap.mp inside
    exact proper_test_tree (writable_of_filter writes known).proper test place
  · rw [read_back_aggregation]
    exact writes.proper.aggregation

/-- A query that is not taken for a call of `not` is read back. -/
theorem read_of_write {rule : Rule} {text : String} (writes : Writes rule)
    (written : write rule = .ok text) (noCall : Text.startsWith text "not (" = false) :
    read text = .ok (readBack rule) := by
  have front := front_of_write written
  have filled : queryLexemes rule ≠ [] := by simp [queryLexemes, front.filled]
  have calls : ∀ next name rest, wordingIn wording .none (filterOf rule) ++ next =
      .word name :: .symbol "(" :: rest → name = "in" := by
    intro next name rest same
    rcases front.call next name rest same with call | ⟨_, begins⟩
    · exact call
    · rw [noCall] at begins
      cases begins
  have parsed := Dialect.read_tokens_of_reads filled (write_spells writes written)
    (reads_query writes calls front.filled) (read_back_well_formed writes)
  rw [read]
  change Dialect.located .crowdstrike text (Dialect.readTokens quoting query text) = _
  rw [parsed]
  rfl

end DetectionRules.CrowdStrike
