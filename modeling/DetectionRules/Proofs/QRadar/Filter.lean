import DetectionRules.Proofs.QRadar.Test

/-!
Filters of QRadar queries. Words are told apart whatever the case of their
letters, so what begins a test must not be taken for a negation or a clause.
-/

namespace DetectionRules.QRadar

open Expression (Delimiters Operands EndsConjunction EndsDisjunction FitsIn BeginsTerm operand
  wordingIn)
open DetectionRules.Parser (Reads)

def Parses (levels : Nat) (parser : Parser (Logic FieldTest)) : Prop :=
  ∃ more, levels < more ∧ parser = operand connectives atClause term more

def fits (_ : Bool) (test : FieldTest) (_ : List Lexeme) : Prop := Writable test

/-- Words that begin a clause behind the filter or part two members of a disjunction. -/
def IsBoundary (lexeme : Lexeme) : Prop :=
  lexeme ∈ [.symbol ")", .word "OR", .word "GROUP", .word "HAVING"]

theorem ends_conjunction {next : List Lexeme} (ends : ∀ lexeme ∈ next.head?, IsBoundary lexeme) :
    EndsConjunction connectives atClause next := by
  refine .of_front fun lexeme start offset rest => ?_
  have known := ends lexeme start
  simp only [IsBoundary, List.mem_cons, List.not_mem_nil, or_false] at known
  rcases known with rfl | rfl | rfl | rfl <;> exact ⟨rfl, rfl⟩

theorem ends_disjunction {next : List Lexeme} (ends : ∀ lexeme ∈ next.head?, IsBoundary lexeme)
    (other : next.head? ≠ some (.word "OR")) : EndsDisjunction connectives atClause next := by
  refine (ends_conjunction ends).disjunction fun lexeme start offset rest => ?_
  have known := ends lexeme start
  simp only [IsBoundary, List.mem_cons, List.not_mem_nil, or_false] at known
  rcases known with rfl | rfl | rfl | rfl
  · rfl
  · exact absurd start other
  · rfl
  · rfl

theorem delimiters : Delimiters connectives atClause [.word "OR"] where
  filled := by simp
  disjoins := fun next => Expression.reads_disjunction_word fun offset rest => by
    simp [Expression.Connectives.nextIsDisjunction, Expression.Connectives.nextIs, connectives]
  divides := fun next => ends_conjunction (by simp [IsBoundary])
  opening := fun offset rest => ⟨rfl, rfl⟩
  closing := fun next => ends_disjunction (by simp [IsBoundary]) (by simp)

theorem begins_word_term {word : String}
    (free : ∀ known ∈ reserved, Text.sameLetters word known = false) :
    BeginsTerm connectives atClause (.word word) := by
  simp only [reserved, List.forall_mem_cons] at free
  obtain ⟨negation, group, having, order, limit, last, start, stop, _⟩ := free
  refine ⟨by simp, fun offset rest => ⟨?_, ?_⟩⟩
  · simp [atClause, group, having, order, limit, last, start, stop]
  · simp [Expression.Connectives.nextIsNegation, Expression.Connectives.nextIs, connectives, negation]

theorem begins_quoted (text : String) : BeginsTerm connectives atClause (.quoted text) :=
  ⟨by simp, fun _ _ => ⟨rfl, rfl⟩⟩

theorem begins_column {field : String}
    (free : ∀ known ∈ reserved, Text.sameLetters field known = false) (tail : List Lexeme) :
    ∃ head ∈ (columnLexemes field ++ tail).head?, BeginsTerm connectives atClause head := by
  have names : ∀ call ∈ calls, ∀ known ∈ reserved, Text.sameLetters call.1 known = false := by
    decide
  rw [columnLexemes]
  cases found : calls.find? (callText · == field) with
  | some call =>
      obtain ⟨member, _⟩ := find_call found
      exact ⟨.word call.1, rfl, begins_word_term (names call member)⟩
  | none =>
      by_cases plain : isPlainColumn field = true
      · exact ⟨.word field, by simp [plain], begins_word_term free⟩
      · exact ⟨.quoted field, by simp [plain], begins_quoted field⟩

theorem front_of_equality (field : String) (values : List Value) :
    ∃ tail, testLexemes ⟨field, .equals, values⟩ = columnLexemes field ++ tail := by
  match values with
  | [] => exact ⟨_, rfl⟩
  | [value] => exact ⟨_, rfl⟩
  | first :: second :: others => exact ⟨_, rfl⟩

theorem reads_operand {test : FieldTest} {result : Logic FieldTest} {levels : Nat}
    (writable : Writable test) {lexemes next : List Lexeme}
    (front : ∃ tail, lexemes = columnLexemes test.field ++ tail)
    (reads : Reads term lexemes result next) :
    Reads (operand connectives atClause term (levels + 1)) lexemes result next := by
  obtain ⟨tail, rfl⟩ := front
  exact Expression.reads_term (begins_column writable.column tail) reads

theorem reads_test {test : FieldTest} {levels : Nat} (writable : Writable test)
    (next : List Lexeme) :
    Reads (operand connectives atClause term (levels + 2)) (testLexemes test) test.listed
      next := by
  have several {lexemes : Value → List Lexeme}
      (front : ∀ value, ∃ tail, lexemes value = columnLexemes test.field ++ tail)
      (reads : ∀ value ∈ test.values, ∀ next,
        Reads term (lexemes value) (.term (test.textual value)) next) :
      Reads (operand connectives atClause term (levels + 2))
        (Expression.alternativesIn [.word "OR"] lexemes test.values)
        (FieldTest.alternatives test.textual test.values) next := by
    refine @Expression.reads_values _ _ _ _ _ _ _ _ _ _ (fun _ => True) delimiters
      writable.proper.filled (fun value => .term _) ?_ (fun _ => trivial) (fun _ => trivial) trivial
    intro value member levels next _
    exact reads_operand writable (front value) (reads value member next)
  obtain ⟨field, op, values⟩ := test
  cases op with
  | equals =>
      exact reads_operand writable (front_of_equality field values)
        (reads_equality writable.proper.filled next)
  | contains | startsWith | endsWith =>
      exact several (fun _ => ⟨_, rfl⟩) fun value member => reads_like writable rfl member
  | regex => exact several (fun _ => ⟨_, rfl⟩) fun value member => reads_matches writable rfl member
  | gt | gte | lt | lte =>
      exact reads_operand writable ⟨_, rfl⟩ (reads_comparison writable rfl next)

theorem operands : Operands connectives atClause wording fits FieldTest.listed Parses :=
  Operands.of_operand 1 "NOT" delimiters
    (fun writable => FieldTest.normal_listed writable.proper.filled)
    (fun writable => reads_test writable _) ⟨rfl, fun _ => rfl⟩ (fun _ _ => ⟨rfl, rfl⟩)
    (fun _ _ reads => Expression.reads_conjunct (fun _ _ => rfl) reads) (by simp [wording])

/-- A filter is read as the expression it is written for. -/
theorem reads_filter {filter : Logic FieldTest} {next : List Lexeme} (normal : filter.Normal)
    (shallow : filter.depth ≤ Expression.maxDepth)
    (writable : ∀ test ∈ filter.terms, Writable test)
    (ends : EndsDisjunction connectives atClause next) :
    Reads (Expression.parse connectives atClause term) (wordingIn wording .none filter)
      (filter.bind FieldTest.listed) next := by
  have fit : FitsIn wording fits .none false filter next := by
    refine @Expression.fits_of_follows _ _ _ (fun _ => True) _ _ _ _ ?_ ?_ ?_ ?_ trivial
    · exact fun _ => trivial
    · exact fun _ => trivial
    · exact fun _ => trivial
    · intro test member _ _ _
      exact writable test member
  exact operands.reads_expression ⟨_, Nat.lt_succ_self _, rfl⟩ normal.flat shallow fit ends

end DetectionRules.QRadar
