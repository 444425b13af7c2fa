import DetectionRules.Proofs.Splunk.Test

/-!
The searches of Splunk queries. Members of a conjunction stand side by side, and
the words of connectives are told from fields by their case.
-/

namespace DetectionRules.Splunk

open Expression (Delimiters Operands EndsConjunction EndsDisjunction FitsIn BeginsTerm
  BeginsConjunct operand wordingIn)
open DetectionRules.Parser (Reads)

def Parses (levels : Nat) (parser : Parser (Logic FieldTest)) : Prop :=
  ∃ more, levels < more ∧ parser = operand connectives atPipe term more

def fits (_ : Bool) (test : FieldTest) (_ : List Lexeme) : Prop := Writable test ∧ ¬ LosesTilde test

inductive BeginsTest : Lexeme → Prop where
  | field (field : String) (known : IsField field) : BeginsTest (.word field)
  | quoted (text : String) : BeginsTest (.quoted text)

theorem begins_term {lexeme : Lexeme} (begins : BeginsTest lexeme) :
    BeginsTerm connectives atPipe lexeme := by
  cases begins with
  | field field known =>
      have other : field ≠ "NOT" := fun negation => known.free (by simp [negation])
      refine ⟨by simp, fun offset rest => ⟨rfl, ?_⟩⟩
      simp [Expression.Connectives.nextIsNegation, Expression.Connectives.nextIs, connectives, other]
  | quoted text =>
      refine ⟨by simp, fun offset rest => ⟨rfl, ?_⟩⟩
      simp [Expression.Connectives.nextIsNegation, Expression.Connectives.nextIs, connectives]

def BeginsOperand (lexeme : Lexeme) : Prop :=
  BeginsTest lexeme ∨ lexeme = .word "NOT" ∨ lexeme = .symbol "("

theorem begins_neighbour {lexeme : Lexeme} (begins : BeginsOperand lexeme) :
    BeginsConjunct connectives atPipe lexeme := by
  intro offset rest
  rcases begins with (⟨field, known⟩ | ⟨text⟩) | rfl | rfl
  · have noAnd : field ≠ "AND" := fun conjunction => known.free (by simp [conjunction])
    have noOr : field ≠ "OR" := fun disjunction => known.free (by simp [disjunction])
    simp [Expression.Connectives.nextIsConjunction, Expression.Connectives.nextIsAdjacent,
      Expression.Connectives.nextIsDisjunction, Expression.Connectives.nextIs, connectives, atPipe,
      noAnd, noOr]
  all_goals simp [Expression.Connectives.nextIsConjunction, Expression.Connectives.nextIsAdjacent,
    Expression.Connectives.nextIsDisjunction, Expression.Connectives.nextIs, connectives, atPipe]

/-- Lexemes before which a conjunction ends. -/
def IsBoundary (lexeme : Lexeme) : Prop := lexeme ∈ [.symbol ")", .symbol "|", .word "OR"]

theorem ends_conjunction {next : List Lexeme} (ends : ∀ lexeme ∈ next.head?, IsBoundary lexeme) :
    EndsConjunction connectives atPipe next := by
  refine .of_front fun lexeme start offset rest => ?_
  have known := ends lexeme start
  simp only [IsBoundary, List.mem_cons, List.not_mem_nil, or_false] at known
  rcases known with rfl | rfl | rfl <;> exact ⟨rfl, rfl⟩

theorem ends_disjunction {next : List Lexeme} (ends : ∀ lexeme ∈ next.head?, IsBoundary lexeme)
    (other : next.head? ≠ some (.word "OR")) : EndsDisjunction connectives atPipe next := by
  refine (ends_conjunction ends).disjunction fun lexeme start offset rest => ?_
  have known := ends lexeme start
  simp only [IsBoundary, List.mem_cons, List.not_mem_nil, or_false] at known
  rcases known with rfl | rfl | rfl
  · rfl
  · rfl
  · exact absurd start other

theorem delimiters : Delimiters connectives atPipe [.word "OR"] where
  filled := by simp
  disjoins := fun next => Expression.reads_disjunction_word fun offset rest => by
    simp [Expression.Connectives.nextIsDisjunction, Expression.Connectives.nextIs, connectives]
  divides := fun next => ends_conjunction (by simp [IsBoundary])
  opening := fun offset rest => ⟨rfl, rfl⟩
  closing := fun next => ends_disjunction (by simp [IsBoundary]) (by simp)

theorem begins_assigned (field text : String) :
    ∃ tail, assignedLexemes field text = .word field :: tail := by
  unfold assignedLexemes
  split
  · split
    · exact ⟨_, rfl⟩
    · exact ⟨_, rfl⟩
  · exact ⟨_, rfl⟩

/-- What the lexemes of a test begin with. -/
def Fronts (field : String) (head : Lexeme) : Prop :=
  head = .word field ∨ (∃ text, head = .quoted text) ∨ head = .symbol "("

theorem front_of_test (test : FieldTest) :
    ∃ head tail, testLexemes test = head :: tail ∧ Fronts test.field head := by
  have field (tail : List Lexeme) :
      ∃ head others, .word test.field :: tail = head :: others ∧ Fronts test.field head :=
    ⟨_, tail, rfl, .inl rfl⟩
  have assigned (text : String) :
      ∃ head tail, assignedLexemes test.field text = head :: tail ∧ Fronts test.field head := by
    obtain ⟨tail, same⟩ := begins_assigned test.field text
    exact ⟨_, tail, same, .inl rfl⟩
  have several {lexemes : Value → List Lexeme}
      (front : ∀ value, ∃ head tail, lexemes value = head :: tail ∧ Fronts test.field head) :
      ∃ head tail, Expression.alternativesIn [.word "OR"] lexemes test.values = head :: tail ∧
        Fronts test.field head := by
    rw [Expression.alternativesIn.eq_def]
    split
    · exact front _
    · exact ⟨_, _, rfl, .inr (.inr rfl)⟩
  have globs := several fun value => assigned (globOf test.op value)
  rw [testLexemes]
  split
  · split
    · exact assigned _
    · exact field _
  · split
    · exact several fun value => ⟨_, _, rfl, .inr (.inl ⟨value.text, rfl⟩)⟩
    · exact globs
  · exact globs
  · exact globs
  all_goals exact field _

theorem not_tilde_glob {test : FieldTest} (writable : Writable test) (whole : ¬ LosesTilde test)
    (part : test.op.isPart = true) {value : Value} (member : value ∈ test.values) :
    ¬ IsTildeWord (globOf test.op value) := by
  rintro ⟨start, word⟩
  cases operator : test.op with
  | contains | endsWith => simp [globOf, Glob.ofOperator?, operator] at start
  | startsWith =>
      have filled := writable.filled part value member
      have glob : (globOf test.op value).toList = value.text.toList ++ ['*'] := by
        simp [globOf, Glob.ofOperator?, operator]
      obtain ⟨c, rest, written⟩ := List.exists_cons_of_ne_nil
        (show value.text.toList ≠ [] by simpa using filled)
      rw [glob] at start word
      refine whole ⟨.inr operator, value, member, ?_, fun d inside => word d (by simp [inside])⟩
      simpa [written] using start
  | equals | regex | gt | gte | lt | lte =>
      rw [operator] at part
      cases part

theorem reads_operand {field : String} (known : IsField field) {tail next : List Lexeme}
    {levels : Nat} {result : Logic FieldTest} (reads : Reads term (.word field :: tail) result next) :
    Reads (operand connectives atPipe term (levels + 1)) (.word field :: tail) result next :=
  Expression.reads_term ⟨_, rfl, begins_term (.field field known)⟩ reads

theorem reads_assigned_operand {field text : String} (known : IsField field)
    (whole : ¬ IsTildeWord text) (levels : Nat) (next : List Lexeme) :
    Reads (operand connectives atPipe term (levels + 1)) (assignedLexemes field text)
      (.term (glob field text)) next := by
  have read := reads_assigned whole field next
  obtain ⟨tail, same⟩ := begins_assigned field text
  rw [same] at read ⊢
  exact reads_operand known read

theorem test_tree_alternatives {test : FieldTest} (other : test.op.isComparison = false) :
    testTree test = Logic.disj (test.values.map fun value =>
      .term (.single test.field test.op (readValue test.op value))) := by
  rw [testTree, FieldTest.valuewise, if_neg (by simp [other])]
  rfl

theorem reads_equality {test : FieldTest} {levels : Nat} (writable : Writable test)
    (whole : ¬ LosesTilde test) (equals : test.op = .equals) (next : List Lexeme) :
    Reads (operand connectives atPipe term (levels + 1)) (testLexemes test) (testTree test)
      next := by
  obtain ⟨text, rendered⟩ := writable.written
  have other : test.op.isComparison = false := by rw [equals]; rfl
  have equal (value : Value) (member : value ∈ test.values) :
      Logic.term (glob test.field value.text) =
        .term (.single test.field test.op (readValue test.op value)) := by
    have text : globOf .equals value = value.text := by simp [globOf, Glob.ofOperator?]
    have unpart : ¬ Operator.equals.isPart = true := by decide
    have read := glob_value (.inl rfl) (plain_of_written rendered other value member)
      (fun part => absurd part unpart) test.field
    rw [text] at read
    rw [equals, read]
  rw [test_tree_alternatives other, ← List.map_congr_left equal, testLexemes, equals]
  simp only
  split
  · rename_i value single
    rw [single, List.map_singleton, Logic.disj_single (.term _)]
    refine reads_assigned_operand writable.field (fun tilde => whole ?_) levels next
    exact ⟨.inl ⟨equals, by simp [single]⟩, value, by simp [single], tilde⟩
  · exact reads_operand writable.field (reads_membership test.field writable.proper.filled next)

theorem reads_globs {test : FieldTest} {levels : Nat} (writable : Writable test)
    (whole : ¬ LosesTilde test) (part : test.op.isPart = true) (next : List Lexeme) :
    Reads (operand connectives atPipe term (levels + 2)) (globLexemes test) (testTree test)
      next := by
  obtain ⟨text, rendered⟩ := writable.written
  have other : test.op.isComparison = false := by
    cases operator : test.op <;> rw [operator] at part <;> first | rfl | cases part
  rw [test_tree_alternatives other]
  refine @Expression.reads_values _ _ _ _ _ _ _ _ _ _ (fun _ => True) delimiters
    writable.proper.filled (fun value => .term _) ?_ (fun _ => trivial) (fun _ => trivial) trivial
  intro value member levels next _
  have read := reads_assigned_operand writable.field
    (not_tilde_glob writable whole part member) levels next
  rwa [glob_value (.inr part) (plain_of_written rendered other value member)
    (fun part => writable.filled part value member)] at read

theorem reads_free_test {test : FieldTest} {levels : Nat} (writable : Writable test)
    (contains : test.op = .contains) (raw : test.field = rawField) (next : List Lexeme) :
    Reads (operand connectives atPipe term (levels + 2)) (freeLexemes test) (testTree test)
      next := by
  obtain ⟨text, rendered⟩ := writable.written
  have other : test.op.isComparison = false := by rw [contains]; rfl
  rw [test_tree_alternatives other]
  refine @Expression.reads_values _ _ _ _ _ _ _ _ _ _ (fun _ => True) delimiters
    writable.proper.filled (fun value => .term _) ?_ (fun _ => trivial) (fun _ => trivial) trivial
  intro value member levels next _
  have filled := writable.filled (by rw [contains]; rfl) value member
  rw [raw, contains]
  exact Expression.reads_term ⟨_, rfl, begins_term (.quoted value.text)⟩
    (reads_free (plain_of_written rendered other value member) filled next)

theorem reads_test {test : FieldTest} {levels : Nat} (writable : Writable test)
    (whole : ¬ LosesTilde test) (next : List Lexeme) :
    Reads (operand connectives atPipe term (levels + 2)) (testLexemes test) (testTree test)
      next := by
  have comparison (compares : test.op.isComparison = true) :
      testTree test = .term test := if_pos compares
  have globs (part : test.op.isPart = true) :=
    @reads_globs test levels writable whole part next
  cases operator : test.op with
  | equals => exact reads_equality writable whole operator next
  | contains =>
      rw [testLexemes, operator]
      simp only
      split
      · rename_i raw
        exact reads_free_test writable operator raw next
      · exact globs (by rw [operator]; rfl)
  | startsWith | endsWith =>
      rw [testLexemes, operator]
      exact globs (by rw [operator]; rfl)
  | gt | gte | lt | lte =>
      have compares : test.op.isComparison = true := by rw [operator]; rfl
      have read := @reads_operand _ writable.field _ _ (levels + 1) _
        (reads_comparison writable.proper compares next)
      rw [comparison compares, testLexemes]
      simpa only [operator] using read
  | regex =>
      obtain ⟨text, rendered⟩ := writable.written
      rw [renderTest, operator] at rendered
      cases rendered

theorem begins_operand {item : Logic FieldTest} {adjacent : Bool} {next : List Lexeme}
    (single : item.isConjunction = false)
    (fit : FitsIn wording fits .conjunction adjacent item next) :
    ∃ head tail, wordingIn wording .conjunction item = head :: tail ∧ BeginsOperand head := by
  cases item with
  | term test =>
      rw [FitsIn] at fit
      obtain ⟨head, tail, same, front⟩ := front_of_test test
      refine ⟨head, tail, same, ?_⟩
      rcases front with rfl | ⟨text, rfl⟩ | rfl
      · exact .inl (.field test.field fit.1.field)
      · exact .inl (.quoted text)
      · exact .inr (.inr rfl)
  | all items => cases single
  | any items => exact ⟨_, _, rfl, .inr (.inr rfl)⟩
  | not item => exact ⟨_, _, rfl, .inr (.inl rfl)⟩

theorem test_lexemes_ne_nil (test : FieldTest) : testLexemes test ≠ [] := by
  obtain ⟨head, tail, same, _⟩ := front_of_test test
  rw [same]
  exact List.cons_ne_nil head tail

theorem operands : Operands connectives atPipe wording fits testTree Parses := by
  refine Operands.of_operand 1 "NOT" delimiters
    (fun fit => FieldTest.normal_valuewise fit.1.proper.filled)
    (fun ⟨writable, whole⟩ => reads_test writable whole _) ⟨rfl, fun _ => rfl⟩
    (fun _ _ => ⟨rfl, rfl⟩) (fun single fit reads => ?_)
    (Expression.wording_in_ne_nil test_lexemes_ne_nil fun _ => List.cons_ne_nil _ _)
  obtain ⟨head, tail, same, begins⟩ := begins_operand single fit
  rw [same] at reads ⊢
  exact Expression.reads_neighbour (begins_neighbour begins) reads

/-- A search is read as the expression it is written for. -/
theorem reads_search {filter : Logic FieldTest} {next : List Lexeme} (normal : filter.Normal)
    (shallow : filter.depth ≤ Expression.maxDepth)
    (writable : ∀ test ∈ filter.terms, Writable test ∧ ¬ LosesTilde test)
    (ends : EndsDisjunction connectives atPipe next) :
    Reads search (wordingIn wording .none filter) (filter.bind testTree) next := by
  have fit : FitsIn wording fits .none false filter next := by
    refine @Expression.fits_of_follows _ _ _ (fun _ => True) _ _ _ _ ?_ ?_ ?_ ?_ trivial
    · exact fun _ => trivial
    · exact fun _ => trivial
    · exact fun _ => trivial
    · exact fun test member _ _ _ => writable test member
  exact operands.reads_expression ⟨_, Nat.lt_succ_self _, rfl⟩ normal.flat shallow fit ends

end DetectionRules.Splunk
