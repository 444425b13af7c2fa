import DetectionRules.Proofs.Accepted
import DetectionRules.Proofs.CrowdStrike.Query
import DetectionRules.Proofs.Values

/-!
Queries that are accepted are written in a form that is accepted again and means
the same, unless the form begins with a negated group: a word before a
parenthesis at the start of a stage is taken for a call.

Free text stands alone between quotes, and what follows it decides whether it is
read: before a sign it is taken for a field.
-/

namespace DetectionRules.CrowdStrike

open Expression (HasAll has_all_conj has_all_disj has_all_negate inherited_has_all keeps_parse)
open DetectionRules.Parser (Keeps Leaves keeps_pure keeps_bind keeps_next keeps_ite keeps_map keeps_mono
  keeps_check keeps_fail_at keeps_fail keeps_expected keeps_get keeps_iterate keeps_sep_by
  leaves_set leaves_offset leaves_sees leaves_skip leaves_sign leaves_take_if leaves_word
  leaves_literal leaves_number leaves_of_keeps)

/-- What is known of the values of a query: expressions are valid and can be put between slashes,
and nothing is looked for at an end or in the middle of a field without a text to look for. -/
def IsReread : Demand := fun field op value =>
  (op = .regex → Regex.isValid value.text = true ∧ isSlashable value.text.toList = true) ∧
    (value.text = "" → op = .equals ∨ op = .regex ∨ op = .contains ∧ field = rawField)

theorem meets_single {demand : Demand} {field : String} {op : Operator} {value : Value}
    (meets : demand field op value) : (FieldTest.single field op value).Meets demand := by
  intro other member
  obtain rfl := List.mem_singleton.mp member
  exact meets

theorem reread_equality (field : String) (value : Value) :
    (FieldTest.single field .equals value).Meets IsReread :=
  meets_single ⟨nofun, fun _ => .inl rfl⟩

theorem reread_glob (field glob : String) : (FieldTest.ofGlob field '*' glob).Meets IsReread := by
  rw [FieldTest.ofGlob]
  split
  · exact reread_equality _ _
  · rename_i op text _ classified
    rcases Glob.of_classify classified with rfl | ⟨rfl, rfl⟩ | ⟨cut, filled⟩
    · exact reread_equality _ _
    · refine meets_single ⟨fun _ => ⟨Glob.valid_to_regex _, ?_⟩, fun _ => .inr (.inl rfl)⟩
      rw [Value.text, String.toList_ofList]
      exact slashable_to_regex _ _
    · refine meets_single ⟨?_, fun empty => absurd ?_ filled⟩
      · rintro rfl
        simp at cut
      · simpa [Value.text] using empty

theorem reread_literal (field : String) (literal : Parser.Literal) :
    (literalTest field literal).Meets IsReread := by
  rw [literalTest]
  split
  · exact reread_equality _ _
  · exact reread_glob _ _

theorem keeps_slashed_regex (offset : Option Nat) {body flags : String}
    (slashable : isSlashable body.toList = true) :
    Keeps IsSlashable (Dialect.slashedRegex offset body flags) fun value =>
      Regex.isValid value.text = true ∧ isSlashable value.text.toList = true := by
  have valid (pattern : String) (slashable : isSlashable pattern.toList = true) :
      Keeps IsSlashable (do Dialect.ensureShortRegex offset pattern; return Value.str pattern)
        fun value => Regex.isValid value.text = true ∧ isSlashable value.text.toList = true :=
    keeps_bind (Dialect.keeps_ensure_regex _ _ _) fun _ valid => keeps_pure ⟨valid, slashable⟩
  rw [Dialect.slashedRegex.eq_def]
  split
  · exact valid body slashable
  · apply valid
    simpa [slashable_plain] using slashable
  · exact @keeps_bind _ _ _ _ _ (fun _ => False) _ (keeps_fail_at _ _) fun _ never => never.elim

theorem keeps_equality_test (field : String) :
    Keeps IsSlashable (equalityTest field) (·.Meets IsReread) := by
  refine keeps_bind keeps_get fun tokens all => ?_
  split
  · rename_i body flags offset rest
    obtain ⟨first, others⟩ := List.forall_mem_cons.mp all
    refine keeps_next (leaves_set others) fun _ => ?_
    refine keeps_bind (keeps_slashed_regex _ (first body flags rfl)) fun value known => ?_
    exact keeps_pure (meets_single ⟨fun _ => known, fun _ => .inr (.inl rfl)⟩)
  · exact keeps_next (leaves_literal _) fun literal => keeps_pure (reread_literal _ _)

abbrev Rereads : Logic FieldTest → Prop := HasAll (·.Meets IsReread)

theorem rereads_term {test : FieldTest} (meets : test.Meets IsReread) : Rereads (.term test) := by
  intro other member
  obtain rfl := List.mem_singleton.mp member
  exact meets

theorem rereads_int (field : String) (op : Operator) (number : Int64)
    (comparison : op.isComparison = true) :
    (FieldTest.single field op (.int number)).Meets IsReread := by
  refine meets_single ⟨?_, fun empty => ?_⟩
  · rintro rfl
    cases comparison
  · obtain ⟨c, start, _⟩ := (front_of_int number).1
    simp [empty] at start

theorem comparison_of_sign {sign : String} {op : Operator} (known : Operator.ofSign? sign = some op) :
    op.isComparison = true := by
  unfold Operator.ofSign? at known
  split at known
  all_goals
    cases known
    try rfl

theorem keeps_take_comparison : Keeps IsSlashable Dialect.takeComparison? fun found =>
    ∀ op ∈ found, op.isComparison = true := by
  intro tokens result rest all same
  unfold Dialect.takeComparison? at same
  split at same
  · split at same
    · rename_i op known
      cases same
      refine ⟨?_, (List.forall_mem_cons.mp all).2⟩
      rintro _ ⟨⟩
      exact comparison_of_sign known
    · cases same
      exact ⟨nofun, all⟩
  · cases same
    exact ⟨nofun, all⟩

theorem keeps_comparison_of (field : Parser.Literal) :
    Keeps IsSlashable (comparisonOf field) Rereads := by
  refine keeps_next (leaves_take_if _) fun _ => keeps_ite ?_ ?_
  · exact keeps_bind (keeps_equality_test _) fun test meets => keeps_pure (rereads_term meets)
  · refine keeps_next (leaves_take_if _) fun _ => keeps_ite ?_ ?_
    · refine keeps_bind (keeps_equality_test _) fun test meets => keeps_pure ?_
      exact has_all_negate (rereads_term meets)
    · refine keeps_bind keeps_take_comparison fun found comparison => ?_
      cases found with
      | some op =>
          refine keeps_bind Parser.keeps_integer fun value known => keeps_pure ?_
          obtain ⟨number, rfl⟩ := known
          exact rereads_term (rereads_int _ _ _ (comparison op rfl))
      | none =>
          refine keeps_next (leaves_sees _) fun _ => keeps_ite (keeps_pure ?_) (keeps_expected _)
          exact rereads_term (meets_single ⟨nofun, fun _ => .inr (.inr ⟨rfl, rfl⟩)⟩)

theorem leaves_parameter : Leaves IsSlashable parameter? := by
  refine keeps_next (leaves_sees _) fun _ => keeps_ite ?_ (keeps_pure trivial)
  exact keeps_next (leaves_word _) fun _ => keeps_next (leaves_sign _) fun _ => keeps_pure trivial

theorem leaves_field_name : Leaves IsSlashable fieldName :=
  keeps_next (leaves_literal _) fun _ => keeps_pure trivial

theorem leaves_comma : Leaves IsSlashable comma := leaves_take_if _

theorem leaves_field_list : Leaves IsSlashable fieldList := by
  refine keeps_next (leaves_take_if _) fun _ => keeps_ite ?_ ?_
  · refine keeps_next (leaves_of_keeps (keeps_sep_by leaves_comma leaves_field_name)) fun _ => ?_
    exact keeps_next (leaves_sign _) fun _ => keeps_pure trivial
  · exact keeps_next leaves_field_name fun _ => keeps_pure trivial

theorem leaves_value_list : Leaves IsSlashable valueList := by
  refine keeps_next (leaves_sign _) fun _ => keeps_next (leaves_take_if _) fun _ => ?_
  refine keeps_ite (keeps_pure trivial) ?_
  refine keeps_next (leaves_of_keeps (keeps_sep_by leaves_comma (leaves_literal _))) fun _ => ?_
  exact keeps_next (leaves_sign _) fun _ => keeps_pure trivial

theorem leaves_membership_argument (arguments : Option String × List Parser.Literal) :
    Leaves IsSlashable (membershipArgument arguments) := by
  obtain ⟨field, values⟩ := arguments
  refine keeps_next leaves_offset fun _ => keeps_next leaves_parameter fun name => ?_
  split
  · exact keeps_next leaves_field_name fun _ => keeps_pure trivial
  · exact keeps_next leaves_value_list fun _ => keeps_pure trivial
  · exact keeps_fail_at _ _
  · refine keeps_ite ?_ (keeps_expected _)
    exact keeps_next leaves_field_name fun _ => keeps_pure trivial

theorem leaves_arguments {Arguments : Type} {argument : Arguments → Parser Arguments}
    (leaves : ∀ found, Leaves IsSlashable (argument found)) (start : Arguments) :
    Leaves IsSlashable (arguments argument start) := by
  refine keeps_next (leaves start) fun first => ?_
  refine keeps_iterate (fun found _ => ?_) trivial
  refine keeps_next leaves_comma fun _ => keeps_ite ?_ (keeps_pure nofun)
  exact keeps_next (leaves found) fun _ => keeps_pure fun _ _ => trivial

theorem keeps_membership : Keeps IsSlashable membership Rereads := by
  refine keeps_next leaves_skip fun _ => keeps_next (leaves_sign _) fun _ => ?_
  refine keeps_next (leaves_arguments leaves_membership_argument _) fun found => ?_
  obtain ⟨field, values⟩ := found
  refine keeps_next leaves_offset fun _ => keeps_next (leaves_sign _) fun _ => ?_
  cases field with
  | none => exact keeps_fail_at _ _
  | some field =>
      refine keeps_check (keeps_fail_at _ _) fun _ => keeps_pure (has_all_disj ?_)
      intro item member
      obtain ⟨literal, _, rfl⟩ := List.mem_map.mp member
      exact rereads_term (reread_literal field literal)

theorem keeps_filter : Keeps IsSlashable filter Rereads := by
  apply keeps_parse inherited_has_all
  refine keeps_bind keeps_get fun tokens _ => keeps_ite keeps_membership ?_
  exact keeps_next (leaves_literal _) keeps_comparison_of

theorem leaves_count_argument (field : Option String) (distinct : Bool) :
    Leaves IsSlashable (countArgument field distinct) := by
  refine keeps_next leaves_offset fun _ => keeps_next leaves_parameter fun name => ?_
  split
  · exact keeps_next leaves_field_list fun _ => keeps_pure trivial
  · exact keeps_next leaves_field_list fun _ => keeps_pure trivial
  · exact keeps_next (leaves_word _) fun _ => keeps_pure trivial
  · exact keeps_fail_at _ _

theorem leaves_count_call : Leaves IsSlashable countCall := by
  refine keeps_next leaves_offset fun _ => keeps_bind keeps_get fun _ _ => ?_
  refine keeps_check (keeps_fail_at _ _) fun _ => keeps_next leaves_skip fun _ => ?_
  refine keeps_next (leaves_sign _) fun _ => ?_
  refine keeps_next (keeps_iterate (fun state _ => ?_) trivial) fun found => ?_
  · obtain ⟨⟨field, distinct⟩, more⟩ := state
    refine keeps_next (leaves_sees _) fun _ => keeps_ite (keeps_pure nofun) ?_
    refine keeps_next (leaves_count_argument _ _) fun _ => keeps_next leaves_comma fun _ => ?_
    exact keeps_pure fun _ _ => trivial
  · obtain ⟨⟨field, distinct⟩, more⟩ := found
    refine keeps_next (leaves_sign _) fun _ => ?_
    split
    · exact keeps_pure trivial
    · exact keeps_fail_at _ _
    · exact keeps_pure trivial

theorem leaves_stats_argument (call : String) (state : Stats × Bool) :
    Leaves IsSlashable (statsArgument call state) := by
  obtain ⟨stats, isFirst⟩ := state
  refine keeps_next leaves_offset fun _ => keeps_next leaves_parameter fun name => ?_
  split
  · exact keeps_next leaves_count_call fun _ => keeps_pure trivial
  · exact keeps_next leaves_field_list fun _ => keeps_pure trivial
  · refine keeps_ite ?_ (keeps_fail_at _ _)
    refine keeps_next (leaves_literal _) fun literal => ?_
    split
    · exact keeps_pure trivial
    · exact keeps_fail_at _ _
  · refine keeps_ite ?_ (keeps_expected _)
    exact keeps_next leaves_field_list fun _ => keeps_pure trivial

theorem leaves_stats_call (call : String) : Leaves IsSlashable (statsCall call) := by
  refine keeps_ite (keeps_next leaves_count_call fun _ => keeps_pure trivial) ?_
  refine keeps_next leaves_skip fun _ => keeps_next (leaves_sign _) fun _ => ?_
  refine keeps_next (leaves_arguments (leaves_stats_argument call) _) fun found => ?_
  obtain ⟨stats, isFirst⟩ := found
  refine keeps_next (leaves_sign _) fun _ => keeps_check (keeps_fail _) fun _ => ?_
  exact keeps_check (keeps_fail _) fun _ => keeps_pure trivial

theorem of_drop_call {depth : Nat} {tokens rest : List Token}
    (dropped : dropCall depth tokens = some rest) : ∀ token ∈ rest, token ∈ tokens := by
  induction depth, tokens using dropCall.induct with
  | case1 tokens =>
      rw [dropCall] at dropped
      cases dropped
      exact fun _ => id
  | case2 depth some =>
      rw [dropCall] at dropped
      · cases dropped
      · exact some
  | case3 depth offset tokens induction =>
      exact fun token member => List.mem_cons_of_mem _ (induction dropped token member)
  | case4 depth offset tokens induction =>
      exact fun token member => List.mem_cons_of_mem _ (induction dropped token member)
  | case5 depth head tokens noOpening noClosing induction =>
      rw [dropCall] at dropped
      · exact fun token member => List.mem_cons_of_mem _ (induction dropped token member)
      · exact noOpening
      · exact noClosing

theorem leaves_skip_call : Leaves IsSlashable skipCall := by
  refine keeps_next leaves_skip fun _ => keeps_next (leaves_sign _) fun _ => ?_
  refine keeps_bind keeps_get fun tokens all => ?_
  split
  · rename_i rest dropped
    exact leaves_set fun token member => all token (of_drop_call dropped token member)
  · exact keeps_next (leaves_set (by simp)) fun _ => keeps_expected _

theorem leaves_threshold : Leaves IsSlashable threshold := by
  refine keeps_next leaves_offset fun _ => keeps_next (leaves_word _) fun _ => ?_
  refine keeps_check (keeps_fail_at _ _) fun _ => keeps_next ?_ fun _ => ?_
  · intro tokens result rest all same
    unfold Dialect.comparisonOr at same
    split at same
    · split at same
      · cases same
        exact ⟨trivial, (List.forall_mem_cons.mp all).2⟩
      · cases same
    · cases same
  · exact keeps_next (leaves_number _) fun _ => keeps_pure trivial

def Query.Rereads (query : Query) : Prop :=
  ∀ filter ∈ query.filters, CrowdStrike.Rereads filter

theorem keeps_test_stage {query : Query} (known : query.Rereads) (offset : Option Nat) :
    Keeps IsSlashable (testStage query offset) (·.Rereads) := by
  refine keeps_ite ?_ ?_
  · refine keeps_check (keeps_fail_at _ _) fun _ => ?_
    exact keeps_next leaves_threshold fun _ => keeps_pure known
  · refine keeps_bind keeps_filter fun filter rereads => keeps_pure ?_
    exact List.forall_mem_append.mpr ⟨known, by simpa using rereads⟩

theorem keeps_stage {query : Query} (known : query.Rereads) :
    Keeps IsSlashable (stage query) (·.Rereads) := by
  refine keeps_next (leaves_sees _) fun _ => keeps_ite (keeps_expected _) ?_
  refine keeps_next leaves_offset fun offset => keeps_bind keeps_get fun tokens _ => ?_
  split
  · exact keeps_test_stage known offset
  · exact keeps_test_stage known offset
  · refine keeps_ite (keeps_check (keeps_fail_at _ _) fun _ => ?_) (keeps_ite ?_ (keeps_fail_at _ _))
    · exact keeps_next (leaves_stats_call _) fun _ => keeps_pure known
    · exact keeps_next leaves_skip_call fun _ => keeps_pure known

theorem meets_to_rule {query : Query} (known : query.Rereads) :
    ∀ test ∈ query.toRule.tests, test.Meets IsReread := by
  intro test member
  obtain ⟨selection, inside, place⟩ := List.mem_flatMap.mp member
  refine Expression.meets_to_selections (fun other lifted => ?_) selection inside test place
  have origin := terms_of_lift_source lifted
  exact has_all_conj known other origin

theorem keeps_query : Keeps IsSlashable query fun rule => ∀ test ∈ rule.tests, test.Meets IsReread := by
  refine keeps_bind (keeps_stage (by simp [Query.Rereads])) fun first known => ?_
  refine keeps_bind (keeps_iterate (fun query known => ?_) known) fun query known => ?_
  · refine keeps_next (leaves_take_if _) fun _ => keeps_ite ?_ (keeps_pure nofun)
    refine keeps_bind (keeps_stage known) fun query known => keeps_pure ?_
    rintro _ ⟨⟩
    exact known
  · refine keeps_next (leaves_sees _) fun _ => keeps_check (keeps_expected _) fun _ => ?_
    exact keeps_check (keeps_fail_at _ _) fun _ => keeps_pure (meets_to_rule known)

/-- A test of a rule that is written can be read again if its values can. -/
theorem writable_of_meets {rule : Rule} {text : String} {test : FieldTest}
    (written : write rule = .ok text) (member : test ∈ rule.expression.terms)
    (word : isFieldWord test.field = true) (meets : test.Meets IsReread) : Writable test := by
  obtain ⟨proper, filter, rendered, _⟩ := of_write written
  refine ⟨Rule.proper_of_mem_expression proper member, word, ?_, ?_, ?_⟩
  · exact Expression.render_terms rendered test (mem_terms_filter.mpr (.inr member))
  · exact fun operator value inside => (meets value inside).1 operator
  · intro value inside empty
    rcases (meets value inside).2 empty with equals | regex | free
    · exact .inl equals
    · exact .inr (.inl regex)
    · exact .inr (.inr (by simp [isFree, free]))

theorem stands_without_free_text {rule : Rule} {next : List Lexeme}
    (noFree : ∀ test ∈ rule.expression.terms, isFree test = false) :
    Expression.FitsIn wording Stands .none false (filterOf rule) next := by
  apply @Expression.fits_of_follows _ _ _ fun _ => True
  · exact fun _ => trivial
  · exact fun _ => trivial
  · exact fun _ => trivial
  · intro test member _ _ _ free
    have other : isFree test = false := by
      rcases mem_terms_filter.mp member with source | condition
      · exact not_free_source_test source
      · exact noFree test condition
    rw [other] at free
    cases free
  · trivial

theorem lexemes_of_not {text : String} {tokens : List Token}
    (begins : Text.startsWith text "not (" = true)
    (listed : Token.list quoting text = .ok tokens) :
    ∃ lexemes, tokens.map (·.lexeme) = .word "not" :: .symbol "(" :: lexemes := by
  rw [Text.startsWith, List.isPrefixOf_iff_prefix] at begins
  obtain ⟨rest, same⟩ := begins
  have isWord : Token.IsWord quoting ['n', 'o', 't'] :=
    Token.is_word_of_plain (by simp) (by simp [Token.isPlain])
  have word : Token.scan quoting 'n' ('o' :: 't' :: ' ' :: '(' :: rest) = .ok (.word "not", 2) :=
    @Token.scan_word quoting 'n' ['o', 't'] (' ' :: '(' :: rest) isWord
      (by simp [Token.endsWord, Text.isBlank])
  have sign : Token.scan quoting '(' rest = .ok (.symbol "(", 0) :=
    Token.scan_sign (by simp [Token.sign?, Token.signs]) (by decide)
  have written : text.toList = 'n' :: 'o' :: 't' :: ' ' :: '(' :: rest := same.symm
  rw [Token.list, written, Token.listFrom, if_neg (by decide), word] at listed
  obtain ⟨later, laterListed, listed⟩ := Success.of_bind listed
  cases listed
  rw [List.drop_succ_cons, List.drop_succ_cons, List.drop_zero, Token.listFrom,
    if_pos (by decide), Token.listFrom, if_neg (by decide), sign] at laterListed
  obtain ⟨others, _, laterListed⟩ := Success.of_bind laterListed
  cases laterListed
  exact ⟨_, rfl⟩

/-- A stage that begins with a call of `not` is refused. -/
theorem not_read_of_not {text : String} (begins : Text.startsWith text "not (" = true)
    (rule : Rule) : read text ≠ .ok rule := by
  intro accepted
  obtain ⟨_, tokens, rest, listed, parsed⟩ := Dialect.of_located_tokens accepted
  obtain ⟨lexemes, same⟩ := lexemes_of_not begins listed
  have called : Parser.nextCall? tokens = some "not" := next_call_of_lexemes same
  have some : tokens ≠ [] := by
    rintro rfl
    cases same
  simp [query, stage, some, called, isCounting, isShaping, Parser.failAt] at parsed

/-- The form of an accepted query without free text is read back unless it begins with a negated
group, and then it is refused. What is read back asks for the same events and counts the same. -/
theorem accepted_query_read_back {source text : String} {rule : Rule}
    (accepted : read source = .ok rule) (shallow : rule.condition.depth ≤ 31)
    (words : ∀ test ∈ rule.tests, isFieldWord test.field = true)
    (noFree : ∀ test ∈ rule.tests, isFree test = false) (written : write rule = .ok text) :
    (∃ again, read text = .ok again ∧
      (∀ truth, holdsFrom truth again = holdsFrom truth rule) ∧
      again.aggregation = rule.aggregation) ↔ Text.startsWith text "not (" = false := by
  obtain ⟨_, tokens, rest, listed, parsed⟩ := Dialect.of_located_tokens accepted
  obtain ⟨meets, _⟩ := keeps_query tokens rule rest (slashable_of_list listed) parsed
  have inside : ∀ test ∈ rule.expression.terms, test ∈ rule.tests := by
    intro test member
    obtain ⟨selection, selected, _, place⟩ := Rule.mem_terms_expression member
    exact List.mem_flatMap.mpr ⟨selection, selected, place⟩
  have writes : Writes rule := by
    refine ⟨(of_write written).1, shallow, fun test member => ?_, ?_⟩
    · have known := inside test member
      exact writable_of_meets written member (words test known) (meets test known)
    · exact stands_without_free_text fun test member => noFree test (inside test member)
  constructor
  · rintro ⟨again, read, _⟩
    by_contra begins
    exact not_read_of_not (by simpa using begins) again read
  · intro noCall
    exact ⟨readBack rule, read_of_write writes written noCall, read_back_holds writes,
      read_back_aggregation rule⟩

def foreignShells : String :=
  "#event_simpleName=ProcessRollup2 (FileName=*cmd.exe or CommandLine=/-enc/i) !User=admin" ++
    " | groupBy([ComputerName]) | _count > 5"

theorem foreign_shells_read_back : ∃ rule text again, read foreignShells = .ok rule ∧
    write rule = .ok text ∧ read text = .ok again ∧
    (∀ truth, holdsFrom truth again = holdsFrom truth rule) ∧
    again.aggregation = rule.aggregation := by
  have known : ((read foreignShells).bind fun rule => (write rule).map fun text =>
      (decide (rule.condition.depth ≤ 31 ∧ (∀ test ∈ rule.tests, isFieldWord test.field = true) ∧
        (∀ test ∈ rule.tests, isFree test = false) ∧ Text.startsWith text "not (" = false))) =
        .ok true := by
    decide +kernel
  obtain ⟨rule, accepted, known⟩ := Success.of_bind known
  obtain ⟨text, written, known⟩ := Success.of_map known
  obtain ⟨shallow, words, noFree, noCall⟩ := of_decide_eq_true known
  obtain ⟨again, readBack⟩ :=
    (accepted_query_read_back accepted shallow words noFree written).mpr noCall
  exact ⟨rule, text, again, accepted, written, readBack⟩

/-- A negated group is accepted behind an exclamation mark and refused behind the word. -/
theorem negated_group_refused : ∃ rule text, read "!(a=1 or b=2)" = .ok rule ∧
    rule.condition.depth ≤ 31 ∧ (∀ test ∈ rule.tests, isFree test = false) ∧
    write rule = .ok text ∧ ∀ again, read text ≠ .ok again := by
  have known : ((read "!(a=1 or b=2)").bind fun rule => (write rule).map fun text =>
      decide (rule.condition.depth ≤ 31 ∧ (∀ test ∈ rule.tests, isFree test = false) ∧
        Text.startsWith text "not (" = true)) = .ok true := by
    decide +kernel
  obtain ⟨rule, accepted, known⟩ := Success.of_bind known
  obtain ⟨text, written, known⟩ := Success.of_map known
  obtain ⟨shallow, noFree, begins⟩ := of_decide_eq_true known
  exact ⟨rule, text, accepted, shallow, noFree, written, not_read_of_not begins⟩

end DetectionRules.CrowdStrike

namespace DetectionRules.CrowdStrike

open Expression (FitsIn)

/-- Free text and equalities are read back if all free text stands alone before a word, another text
or the end, and the query does not begin with a negated group. -/
theorem free_text_read_back {rule : Rule} {text : String} (sound : rule.WellFormed)
    (shallow : rule.condition.depth ≤ 31)
    (tests : ∀ test ∈ rule.tests, isFree test = true ∨ test.op = .equals)
    (words : ∀ test ∈ rule.tests, isFieldWord test.field = true)
    (written : write rule = .ok text)
    (placed : FitsIn wording Stands .none false (filterOf rule)
      (rule.aggregation.elim [] aggregationLexemes))
    (noCall : Text.startsWith text "not (" = false) :
    ∃ again, read text = .ok again ∧ (∀ truth, holdsFrom truth again = holdsFrom truth rule) ∧
      again.aggregation = rule.aggregation := by
  have proper := (Rule.well_formed_iff rule).mp sound
  have writable : ∀ test ∈ rule.expression.terms, Writable test := by
    intro test member
    obtain ⟨selection, selected, _, place⟩ := Rule.mem_terms_expression member
    have inside : test ∈ rule.tests := List.mem_flatMap.mpr ⟨selection, selected, place⟩
    refine writable_of_meets written member (words test inside) fun value _ => ?_
    rcases tests test inside with free | equals
    · obtain ⟨contains, raw⟩ : test.op = .contains ∧ test.field = rawField := by
        simpa [isFree] using free
      exact ⟨fun regex => absurd (contains.symm.trans regex) (by simp),
        fun _ => .inr (.inr ⟨contains, raw⟩)⟩
    · exact ⟨fun regex => absurd (equals.symm.trans regex) (by simp), fun _ => .inl equals⟩
  have writes : Writes rule := ⟨proper, shallow, writable, placed⟩
  exact ⟨readBack rule, read_of_write writes written noCall, read_back_holds writes,
    read_back_aggregation rule⟩

def failedLogins : Rule where
  dialect := .sigma
  title := none
  description := none
  logSource := ⟨some "windows", none, none⟩
  selections := [⟨"text", [⟨rawField, .contains, [.str "failed login"]⟩]⟩,
    ⟨"user", [⟨"User", .equals, [.str "root", .str "admin"]⟩]⟩,
    ⟨"service", [⟨rawField, .contains, [.str "service"]⟩]⟩]
  condition := .all [.term "text", .not (.term "service"), .term "user"]
  aggregation := some ⟨.events, ["ComputerName"], .gt, 5, none⟩

theorem failed_logins_read_back : ∃ text again, write failedLogins = .ok text ∧
    read text = .ok again ∧ (∀ truth, holdsFrom truth again = holdsFrom truth failedLogins) ∧
    again.aggregation = failedLogins.aggregation := by
  have known : (write failedLogins).map (fun text => Text.startsWith text "not (") = .ok false := by
    decide +kernel
  obtain ⟨text, written, noCall⟩ := Success.of_map known
  obtain ⟨again, readBack⟩ := free_text_read_back (by decide) (by decide) (by decide) (by decide)
    written (by decide +kernel) noCall
  exact ⟨text, again, written, readBack⟩

def eitherText : Rule where
  dialect := .crowdstrike
  title := none
  description := none
  logSource := {}
  selections := [⟨"selection", [⟨rawField, .contains, [.str "a", .str "b"]⟩]⟩]
  condition := .term "selection"
  aggregation := none

/-- The last of several texts stands before a parenthesis, where it is not read. -/
theorem either_text_refused : eitherText.WellFormed ∧ ∃ text, write eitherText = .ok text ∧
    ∀ again, read text ≠ .ok again := by
  have known : (write eitherText).map (fun text => (read text).isOk) = .ok false := by
    decide +kernel
  obtain ⟨text, written, refused⟩ := Success.of_map known
  refine ⟨by decide, text, written, fun again accepted => ?_⟩
  rw [accepted] at refused
  cases refused

end DetectionRules.CrowdStrike
