import DetectionRules.Proofs.CrowdStrike.Test

/-!
Filters of CrowdStrike queries. Members of a conjunction stand side by side, so
each must begin with something that goes on with no conjunct before it, and
free text must stand before another word, another text or the end.
-/

namespace DetectionRules.CrowdStrike

open Expression (Delimiters Operands EndsConjunction EndsDisjunction FitsIn operand disjunction
  wordingIn BeginsTerm BeginsConjunct)
open DetectionRules.Parser (Reads)

def atPipe : List Token → Bool := Parser.nextIsSign "|"

/-- Parsers of operands with so many levels to spare. -/
def Parses (levels : Nat) (parser : Parser (Logic FieldTest)) : Prop :=
  ∃ more, levels < more ∧ parser = operand connectives atPipe term more

/-- What free text asks of its place. -/
def Stands (_ : Bool) (test : FieldTest) (next : List Lexeme) : Prop :=
  isFree test = true → test.values.length = 1 ∧ EndsFree next

instance {adjacent : Bool} {test : FieldTest} {next : List Lexeme} :
    Decidable (Stands adjacent test next) :=
  inferInstanceAs (Decidable (isFree test = true → test.values.length = 1 ∧
    next.head?.any isSign = false))

def fits (adjacent : Bool) (test : FieldTest) (next : List Lexeme) : Prop :=
  Writable test ∧ Stands adjacent test next

theorem normal_test_tree {test : FieldTest} (filled : test.values ≠ []) :
    (testTree test).Normal :=
  FieldTest.normal_valuewise filled

theorem eval_test_tree (test : FieldTest) (truth : Truth) :
    (testTree test).eval (·.holds truth) = test.holds truth := by
  apply FieldTest.eval_valuewise
  intro value _
  rw [readValue]
  split <;> rfl

theorem proper_test_tree {test : FieldTest} (proper : test.Proper) :
    ∀ other ∈ (testTree test).terms, other.Proper :=
  FieldTest.proper_valuewise proper

/-- Lexemes that go on with no conjunct and begin no negation. -/
inductive BeginsTest : Lexeme → Prop where
  | word (word : String) (plain : ∀ c ∈ word.toList, Token.isPlain c = true)
      (field : isFieldWord word = true) : BeginsTest (.word word)
  | quoted (text : String) : BeginsTest (.quoted text)

theorem same_letters_exclamation {word : String}
    (plain : ∀ c ∈ word.toList, Token.isPlain c = true) : Text.sameLetters word "!" = false := by
  rw [Text.sameLetters, beq_eq_false_iff_ne]
  intro same
  obtain ⟨c, letters, lower⟩ : ∃ c, word.toList = [c] ∧ c.toLower = '!' := by
    simpa using same
  have part := plain c (by simp [letters])
  by_cases upper : c.isUpper = true
  · have letter : c.toLower.isAlpha = true := by
      rw [Char.isAlpha_toLower_eq_isAlpha]
      simp [Char.isAlpha, upper]
    rw [lower] at letter
    revert letter
    decide
  · rw [Char.toLower_eq_of_not_isUpper upper] at lower
    rw [lower] at part
    revert part
    decide

theorem begins_term {lexeme : Lexeme} (begins : BeginsTest lexeme) :
    BeginsTerm connectives atPipe lexeme := by
  cases begins with
  | word word plain field =>
      have exclamation := same_letters_exclamation plain
      have noNot : Text.sameLetters word "not" = false := by
        simp [isFieldWord] at field
        simp [field]
      refine ⟨by simp, fun offset rest => ⟨rfl, ?_⟩⟩
      simp [Expression.Connectives.nextIsNegation, Expression.Connectives.nextIs, connectives,
        exclamation, noNot]
  | quoted text =>
      refine ⟨by simp, fun offset rest => ⟨rfl, ?_⟩⟩
      simp [Expression.Connectives.nextIsNegation, Expression.Connectives.nextIs, connectives]

theorem begins_neighbour {lexeme : Lexeme}
    (begins : BeginsTest lexeme ∨ lexeme = .word "not" ∨ lexeme = .symbol "(") :
    BeginsConjunct connectives atPipe lexeme := by
  intro offset rest
  rcases begins with (⟨word, _, field⟩ | ⟨text⟩) | rfl | rfl
  · simp [isFieldWord] at field
    simp [Expression.Connectives.nextIsConjunction, Expression.Connectives.nextIsAdjacent,
      Expression.Connectives.nextIsDisjunction, Expression.Connectives.nextIs, connectives, field,
      atPipe]
  · simp [Expression.Connectives.nextIsConjunction, Expression.Connectives.nextIsAdjacent,
      Expression.Connectives.nextIsDisjunction, Expression.Connectives.nextIs, connectives,
      atPipe]
  · simp [Expression.Connectives.nextIsConjunction, Expression.Connectives.nextIsAdjacent,
      Expression.Connectives.nextIsDisjunction, Expression.Connectives.nextIs, connectives,
      atPipe]
    decide
  · simp [Expression.Connectives.nextIsConjunction, Expression.Connectives.nextIsAdjacent,
      Expression.Connectives.nextIsDisjunction, Expression.Connectives.nextIs, connectives,
      atPipe]

theorem plain_of_written {test : FieldTest} (writable : Writable test) :
    isPlainField test.field = true := by
  obtain ⟨text, written⟩ := writable.written
  rw [renderTest] at written
  obtain ⟨known, fieldWritten, _⟩ := Success.of_bind written
  exact (field_text_ok fieldWritten).2

theorem begins_field {test : FieldTest} (writable : Writable test) :
    BeginsTest (.word test.field) :=
  .word _ (plain_of_field (plain_of_written writable)) writable.word

theorem begins_in : BeginsTest (.word "in") :=
  .word _ (by simp [Token.isPlain]) (by decide)

theorem begins_test {test : FieldTest} (writable : Writable test) :
    ∃ head tail, testLexemes test = head :: tail ∧ (BeginsTest head ∨ head = .symbol "(") := by
  have field := begins_field writable
  have globs : ∃ head tail, globTestLexemes test = head :: tail ∧
      (BeginsTest head ∨ head = .symbol "(") := by
    rw [globTestLexemes]
    split
    · exact ⟨_, _, rfl, .inl field⟩
    · exact ⟨_, _, rfl, .inl begins_in⟩
  have several (lexemes : Value → List Lexeme)
      (front : ∀ value, ∃ head tail, lexemes value = head :: tail ∧ BeginsTest head) :
      ∃ head tail, Expression.alternativesIn [.word "or"] lexemes test.values = head :: tail ∧
        (BeginsTest head ∨ head = .symbol "(") := by
    rw [Expression.alternativesIn.eq_def]
    split
    · rename_i value _
      obtain ⟨head, tail, same, begins⟩ := front value
      exact ⟨head, tail, same, .inl begins⟩
    · exact ⟨_, _, rfl, .inr rfl⟩
  rw [testLexemes]
  split
  · exact several _ fun value => ⟨_, _, rfl, field⟩
  · exact ⟨_, _, rfl, .inl field⟩
  · exact ⟨_, _, rfl, .inl field⟩
  · exact ⟨_, _, rfl, .inl field⟩
  · exact ⟨_, _, rfl, .inl field⟩
  · split
    · exact several _ fun value => ⟨_, _, rfl, .quoted _⟩
    · exact globs
  · exact globs
  · exact globs
  · exact globs

theorem ends_conjunction {lexeme : Lexeme} {next : List Lexeme}
    (ends : lexeme = .symbol ")" ∨ lexeme = .symbol "|" ∨ lexeme = .word "or") :
    EndsConjunction connectives atPipe (lexeme :: next) := by
  refine .of_front fun _ start offset rest => ?_
  cases start
  rcases ends with rfl | rfl | rfl
  all_goals
    simp [Expression.Connectives.nextIsConjunction, Expression.Connectives.nextIsAdjacent,
      Expression.Connectives.nextIsDisjunction, Expression.Connectives.nextIs, connectives, atPipe]
  decide

theorem ends_disjunction {lexeme : Lexeme} {next : List Lexeme}
    (ends : lexeme = .symbol ")" ∨ lexeme = .symbol "|") :
    EndsDisjunction connectives atPipe (lexeme :: next) := by
  refine (ends_conjunction (by tauto)).disjunction fun _ start offset rest => ?_
  cases start
  rcases ends with rfl | rfl <;> rfl

theorem delimiters : Delimiters connectives atPipe [.word "or"] where
  filled := by simp
  disjoins := fun next => Expression.reads_disjunction_word fun offset rest => by
    simp [Expression.Connectives.nextIsDisjunction, Expression.Connectives.nextIs, connectives]
  divides := fun next => ends_conjunction (.inr (.inr rfl))
  opening := fun offset rest => by
    simp [atPipe, Expression.Connectives.nextIsNegation, Expression.Connectives.nextIs, connectives]
  closing := fun next => ends_disjunction (.inl rfl)

theorem glob_test_written {test : FieldTest} (writable : Writable test)
    (globbed : isGlobbed test.op = true) (noFree : isFree test = false) :
    ∃ text, globTest test = .ok text := by
  obtain ⟨text, written⟩ := writable.written
  rw [renderTest] at written
  obtain ⟨field, _, written⟩ := Success.of_bind written
  refine ⟨text, ?_⟩
  cases operator : test.op with
  | equals | startsWith | endsWith => simpa only [operator] using written
  | contains =>
      have other : test.field ≠ rawField := by simpa [isFree, operator] using noFree
      simpa only [operator, if_neg other] using written
  | regex | gt | gte | lt | lte =>
      rw [operator] at globbed
      cases globbed

theorem globbed_of_writable {test : FieldTest} (writable : Writable test)
    (globbed : isGlobbed test.op = true) (noFree : isFree test = false) : Globbed test := by
  obtain ⟨text, written⟩ := glob_test_written writable globbed noFree
  rw [globTest] at written
  obtain ⟨globs, globsWritten, _⟩ := Success.of_bind written
  refine ⟨globbed, fun value member => ?_, fun value member other empty => ?_⟩
  · obtain ⟨glob, globWritten⟩ := Success.of_mem_map_m globsWritten member
    exact (glob_text_ok globWritten).1
  · rcases writable.filled value member empty with equals | regex | free
    · exact other equals
    · rw [regex] at globbed
      cases globbed
    · rw [free] at noFree
      cases noFree

theorem reads_glob_test {test : FieldTest} {levels : Nat} (writable : Writable test)
    (globbed : Globbed test) (next : List Lexeme) :
    Reads (operand connectives atPipe term (levels + 2)) (globTestLexemes test)
      (FieldTest.alternatives (readTest test) test.values) next := by
  rw [globTestLexemes]
  split
  · rename_i value single
    have alone := reads_equality (@reads_glob _ value globbed (by simp [single]) next)
    have tree : FieldTest.alternatives (readTest test) test.values =
        .term (readTest test value) := by
      rw [single, FieldTest.alternatives, List.map_singleton, Logic.disj_single (.term _)]
    rw [tree]
    exact Expression.reads_term ⟨_, rfl, begins_term (begins_field writable)⟩ alone
  · exact Expression.reads_term ⟨_, rfl, begins_term begins_in⟩
      (reads_membership globbed writable.proper.filled next)

theorem reads_free_test {test : FieldTest} {levels : Nat} (free : isFree test = true)
    {next : List Lexeme} (stands : Stands false test next) :
    Reads (operand connectives atPipe term (levels + 2))
      (Expression.alternativesIn [.word "or"] (fun value => [.quoted value.text]) test.values)
      (FieldTest.alternatives (readTest test) test.values) next := by
  obtain ⟨single, ends⟩ := stands free
  obtain ⟨value, same⟩ := List.length_eq_one_iff.mp single
  have tree : FieldTest.alternatives (readTest test) test.values =
      .term (readTest test value) := by
    rw [same, FieldTest.alternatives, List.map_singleton, Logic.disj_single (.term _)]
  rw [tree, same]
  exact Expression.reads_term ⟨_, rfl, begins_term (.quoted _)⟩ (reads_free free value ends)

theorem reads_test {test : FieldTest} {levels : Nat} (writable : Writable test)
    {next : List Lexeme} (stands : Stands false test next) :
    Reads (operand connectives atPipe term (levels + 2)) (testLexemes test) (testTree test)
      next := by
  have globs (globbed : isGlobbed test.op = true) (noFree : isFree test = false) :=
    @reads_glob_test test levels writable (globbed_of_writable writable globbed noFree) next
  have comparison (compares : test.op.isComparison = true) :=
    @Expression.reads_term _ connectives atPipe term levels.succ next _ _
      ⟨_, rfl, begins_term (begins_field writable)⟩
      (reads_comparison writable.proper compares next)
  rw [testTree, testLexemes]
  cases operator : test.op with
  | equals | startsWith | endsWith =>
      exact globs (by rw [operator]; rfl) (by simp [isFree, operator])
  | contains =>
      by_cases raw : test.field = rawField
      · simp only [if_pos raw]
        exact reads_free_test (by simp [isFree, operator, raw]) stands
      · simp only [if_neg raw]
        exact globs (by rw [operator]; rfl) (by simp [isFree, raw])
  | regex =>
      refine @Expression.reads_values _ _ _ _ _ _ _ _ _ _ (fun _ => True) delimiters
        writable.proper.filled (fun value => .term _) ?_ ?_ ?_ trivial
      · intro value member levels next _
        have valid := (writable.patterns operator value member).1
        exact Expression.reads_term ⟨_, rfl, begins_term (begins_field writable)⟩
          (reads_pattern operator valid next)
      · exact fun _ => trivial
      · exact fun _ => trivial
  | gt | gte | lt | lte =>
      rw [operator] at comparison
      exact comparison rfl

theorem test_lexemes_ne_nil (test : FieldTest) : testLexemes test ≠ [] := by
  have globs : globTestLexemes test ≠ [] := by
    rw [globTestLexemes]
    split <;> simp
  have several {lexemes : Value → List Lexeme} (filled : ∀ value, lexemes value ≠ []) :
      Expression.alternativesIn [.word "or"] lexemes test.values ≠ [] := by
    rw [Expression.alternativesIn.eq_def]
    split
    · exact filled _
    · simp
  rw [testLexemes]
  split
  · exact several (by simp [patternTestLexemes])
  · simp
  · simp
  · simp
  · simp
  · split
    · exact several (by simp)
    · exact globs
  · exact globs
  · exact globs
  · exact globs

theorem begins_operand {item : Logic FieldTest} {adjacent : Bool} {next : List Lexeme}
    (single : item.isConjunction = false)
    (fit : FitsIn wording fits .conjunction adjacent item next) :
    ∃ head tail, wordingIn wording .conjunction item = head :: tail ∧
      (BeginsTest head ∨ head = .word "not" ∨ head = .symbol "(") := by
  cases item with
  | term test =>
      rw [FitsIn] at fit
      obtain ⟨head, tail, same, begins⟩ := begins_test fit.1
      rw [wordingIn]
      exact ⟨head, tail, same, by tauto⟩
  | all items => cases single
  | any items => exact ⟨_, _, rfl, .inr (.inr rfl)⟩
  | not item => exact ⟨_, _, rfl, .inr (.inl rfl)⟩

theorem next_not (offset : Nat) (rest : List Token) :
    atPipe (⟨.word "not", offset⟩ :: rest) = false ∧
      connectives.nextIsNegation (⟨.word "not", offset⟩ :: rest) = true := by
  refine ⟨rfl, ?_⟩
  simp [Expression.Connectives.nextIsNegation, Expression.Connectives.nextIs, connectives]

theorem operands : Operands connectives atPipe wording fits testTree Parses := by
  refine Operands.of_operand 1 "not" delimiters
    (fun fit => normal_test_tree fit.1.proper.filled)
    (fun ⟨writable, stands⟩ => reads_test writable stands) ⟨rfl, fun _ => rfl⟩ next_not
    (fun single fit reads => ?_)
    (Expression.wording_in_ne_nil test_lexemes_ne_nil fun _ => List.cons_ne_nil _ _)
  obtain ⟨head, tail, same, begins⟩ := begins_operand single fit
  rw [same] at reads ⊢
  exact Expression.reads_neighbour (begins_neighbour begins) reads

/-- A filter is read as the expression it is written for. -/
theorem reads_filter {expression : Logic FieldTest} {next : List Lexeme}
    (normal : expression.Normal) (shallow : expression.depth ≤ Expression.maxDepth)
    (fit : FitsIn wording fits .none false expression next)
    (ends : EndsDisjunction connectives atPipe next) :
    Reads filter (wordingIn wording .none expression) (expression.bind testTree) next :=
  operands.reads_expression ⟨_, Nat.lt_succ_self _, rfl⟩ normal.flat shallow fit ends

end DetectionRules.CrowdStrike
