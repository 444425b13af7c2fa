import DetectionRules.Proofs.Kql.Test

/-!
Filters of Kusto queries. A negation is a call of `not` whose argument is a
filter of its own, read by a parser with one call less to spare.
-/

namespace DetectionRules.Kql

open Expression (Delimiters Operands EndsConjunction EndsDisjunction FitsIn operand disjunction
  wordingIn)
open DetectionRules.Parser (Reads)
open Token (Spells)

/-- Parsers of operands with so many levels and calls of `not` to spare. -/
def Parses (levels : Nat) (parser : Parser (Logic (Option FieldTest))) : Prop :=
  ∃ more negations, levels < more ∧ levels ≤ negations ∧ levels ≤ Expression.maxDepth ∧
    parser = operand connectives atPipe (term (expression negations)) more

/-- A filter is read without tests that are dropped. -/
def keptTree (test : FieldTest) : Logic (Option FieldTest) := test.listed.map some

def fits (_ : Bool) (test : FieldTest) (_ : List Lexeme) : Prop := Writable test

theorem ends_disjunction {next : List Lexeme} (noAnd : next.head? ≠ some (.word "and"))
    (noOr : next.head? ≠ some (.word "or")) : EndsDisjunction connectives atPipe next :=
  Expression.ends_disjunction_of_word rfl rfl noAnd noOr

theorem delimiters : Delimiters connectives atPipe [.word "or"] where
  filled := by simp
  disjoins := fun next => Expression.reads_disjunction_word fun offset rest => by
    simp [Expression.Connectives.nextIsDisjunction, Expression.Connectives.nextIs, connectives]
  divides := fun next => Expression.ends_conjunction_of_word rfl rfl (by simp [connectives])
  opening := fun offset rest => by
    simp [atPipe, Expression.Connectives.nextIsNegation, connectives]
  closing := fun next => ends_disjunction (by simp) (by simp)

theorem begins_term {lexeme : Lexeme} (opening : lexeme ≠ .symbol "(")
    (pipe : lexeme ≠ .symbol "|") : Expression.BeginsTerm connectives atPipe lexeme := by
  refine ⟨opening, fun offset rest => ⟨?_, rfl⟩⟩
  exact Parser.next_is_sign_of_head (by simpa using pipe)

theorem begins_column (field : String) (tail : List Lexeme) :
    ∃ head ∈ (columnLexemes field ++ tail).head?,
      Expression.BeginsTerm connectives atPipe head := by
  rw [columnLexemes]
  by_cases isName : isTableName field = true
  · rw [if_pos isName]
    exact ⟨.word field, rfl, begins_term (by simp) (by simp)⟩
  · rw [if_neg isName]
    exact ⟨.symbol "[", rfl, begins_term (by simp) (by simp)⟩

theorem begins_equality (field : String) (values : List Value) :
    ∃ head ∈ (testLexemes ⟨field, .equals, values⟩).head?,
      Expression.BeginsTerm connectives atPipe head := by
  match values with
  | [] => exact begins_column field _
  | [value] => exact begins_column field _
  | first :: second :: others => exact begins_column field _

theorem kept_tree_alternatives (single : Value → FieldTest) (values : List Value) :
    (FieldTest.alternatives single values).map some =
      Logic.disj (values.map fun value => kept (single value)) := by
  rw [FieldTest.alternatives, Logic.map_disj, List.map_map]
  rfl

theorem reads_test {expression : Parser (Option (Logic FieldTest))} {test : FieldTest}
    {levels : Nat} (writable : Writable test) (next : List Lexeme) :
    Reads (operand connectives atPipe (term expression) (levels + 2)) (testLexemes test)
      (keptTree test) next := by
  have comparison (isComparison : test.op.isComparison = true) :
      Reads (operand connectives atPipe (term expression) (levels + 2)) (columnLexemes test.field ++
        [.symbol (test.op.sign?.getD ">"), .word (test.values.head?.elim "" (·.text))])
      (kept test) next :=
    Expression.reads_term (begins_column test.field _)
      (reads_comparison writable isComparison next)
  have words (operator : test.op = .contains ∨ test.op = .startsWith ∨ test.op = .endsWith ∨
      test.op = .regex) :
      Reads (operand connectives atPipe (term expression) (levels + 2))
        (Expression.alternativesIn [.word "or"] (wordTestLexemes test) test.values)
        ((FieldTest.alternatives test.textual test.values).map some) next := by
    rw [kept_tree_alternatives]
    refine @Expression.reads_values _ _ _ _ _ _ _ _ _ _ (fun _ => True) delimiters
      writable.proper.filled (fun value => .term _) ?_ ?_ ?_ ?_
    · intro value member levels next _
      apply Expression.reads_term
      · rw [wordTestLexemes, List.append_assoc]
        exact begins_column test.field _
      · exact reads_word_test writable operator member next
    · exact fun _ => trivial
    · exact fun _ => trivial
    · trivial
  obtain ⟨field, op, values⟩ := test
  cases op with
  | equals =>
      exact Expression.reads_term (begins_equality field values)
        (reads_equality writable.proper.filled next)
  | gt | gte | lt | lte => exact comparison rfl
  | contains | startsWith | endsWith | regex => exact words (by simp)

theorem reads_not {negations : Nat} {item : Logic FieldTest} {lexemes next : List Lexeme}
    (normal : (item.bind FieldTest.listed).Normal)
    (reads : Reads (disjunction connectives atPipe
        (operand connectives atPipe (term (expression negations)) (Expression.maxDepth + 1)))
      lexemes (item.bind keptTree) (.symbol ")" :: next)) :
    Reads (term (expression (negations + 1)))
      (.word "not" :: .symbol "(" :: lexemes ++ [.symbol ")"])
      (Logic.negate (item.bind keptTree)) next := by
  have tree : item.bind keptTree = (item.bind FieldTest.listed).map some := by
    rw [Logic.map_bind]
    rfl
  rw [tree] at reads ⊢
  have filter : Reads (expression (negations + 1)) lexemes (some (item.bind FieldTest.listed))
      (.symbol ")" :: next) := by
    apply Parser.reads_bind_last reads
    rw [Logic.flatten_map_some normal]
    exact Parser.reads_pure _ _
  apply Parser.reads_cons
  intro word
  apply Parser.reads_cons
  intro opening tokens rest same follows
  obtain ⟨inside, tail, rfl, insideSame, tailSame⟩ := List.map_eq_append_iff.mp same
  obtain ⟨closing, empty, rfl, emptySame⟩ := Parser.cons_of_lexemes tailSame
  obtain rfl : empty = [] := by simpa using emptySame
  have read := filter inside (⟨.symbol ")", closing⟩ :: rest) insideSame (by simp [follows])
  simp [term, takeCall, nextIsCall, read]

theorem next_and (offset : Nat) (rest : List Token) :
    connectives.nextIsConjunction (⟨.word "and", offset⟩ :: rest) = true := by
  simp [Expression.Connectives.nextIsConjunction, Expression.Connectives.nextIs, connectives]

theorem operands : Operands connectives atPipe wording fits keptTree Parses where
  delimiters := delimiters
  normal := fun writable => (FieldTest.normal_listed writable.proper.filled).map some
  term := by
    rintro levels parser adjacent test next ⟨more, negations, deep, _, _, rfl⟩ writable
    obtain ⟨rest, rfl⟩ : ∃ rest, more = rest + 2 := ⟨more - 2, by omega⟩
    exact reads_test writable next
  parentheses := by
    rintro levels parser lexemes result next ⟨more, negations, deep, spare, bound, rfl⟩ reads
    obtain ⟨rest, rfl⟩ : ∃ rest, more = rest + 1 := ⟨more - 1, by omega⟩
    apply Expression.reads_parentheses delimiters
    exact reads _ ⟨rest, negations, by omega, by omega, by omega, rfl⟩
  negation := by
    rintro levels parser item next ⟨more, negations, deep, spare, bound, rfl⟩ flat fit reads
    obtain ⟨rest, rfl⟩ : ∃ rest, more = rest + 1 := ⟨more - 1, by omega⟩
    obtain ⟨others, rfl⟩ : ∃ others, negations = others + 1 := ⟨negations - 1, by omega⟩
    apply Expression.reads_term
    · exact ⟨.word "not", rfl, begins_term (by simp) (by simp)⟩
    · apply reads_not
      · apply Logic.Normal.bind flat.filled
        intro test member
        obtain ⟨_, _, writable⟩ := Expression.fits_terms fit test member
        exact FieldTest.normal_listed writable.proper.filled
      · exact reads _ ⟨Expression.maxDepth + 1, others, by omega, by omega, by omega, rfl⟩
  conjoins := fun _ _ reads => Expression.reads_conjunct next_and reads
  filled := by simp [wording]

/-- A filter is read as the expression it is written for. -/
theorem reads_filter {filter : Logic FieldTest} {next : List Lexeme} (normal : filter.Normal)
    (shallow : filter.depth ≤ maxNegations) (writable : ∀ test ∈ filter.terms, Writable test)
    (noAnd : next.head? ≠ some (.word "and")) (noOr : next.head? ≠ some (.word "or")) :
    Reads (expression (maxNegations + 1)) (wordingIn wording .none filter)
      (some (filter.bind FieldTest.listed)) next := by
  have tree : filter.bind keptTree = (filter.bind FieldTest.listed).map some := by
    rw [Logic.map_bind]
    rfl
  have fit : FitsIn wording fits .none false filter next := by
    refine @Expression.fits_of_follows _ _ _ (fun _ => True) _ _ _ _ ?_ ?_ ?_ ?_ trivial
    · exact fun _ => trivial
    · exact fun _ => trivial
    · exact fun _ => trivial
    · intro test member _ _ _
      exact writable test member
  have known : Parses maxNegations (operand connectives atPipe
      (term (expression maxNegations)) (Expression.maxDepth + 1)) :=
    ⟨_, _, by decide, by decide, by decide, rfl⟩
  have whole := operands.reads_expression known normal.flat shallow fit
    (ends_disjunction noAnd noOr)
  apply Parser.reads_bind_last whole
  rw [tree, Logic.flatten_map_some]
  · exact Parser.reads_pure _ _
  · apply Logic.Normal.bind normal.filled
    intro test member
    exact FieldTest.normal_listed (writable test member).proper.filled

end DetectionRules.Kql
