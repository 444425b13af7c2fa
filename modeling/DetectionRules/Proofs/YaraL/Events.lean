import DetectionRules.Proofs.YaraL.Test

/-!
The events section of YARA-L rules. Its lines stand side by side, so each of
them has to be told apart from what goes on with the line before it.
-/

namespace DetectionRules.YaraL

open Expression (Delimiters Operands EndsConjunction EndsDisjunction FitsIn operand wordingIn
  conjunction disjunction nextConjunct?)
open DetectionRules.Parser (Reads Along reads_bind reads_bind_last reads_pure)
open Token (Spells behind joined)

def Parses (levels : Nat) (parser : Parser (Logic Predicate)) : Prop :=
  ∃ more, levels < more ∧ parser = operand eventConnectives atSection predicate more

def predicateTree (test : FieldTest) : Logic Predicate :=
  (testTree test).map (Predicate.test eventVariable)

def fits (_ : Bool) (test : FieldTest) (next : List Lexeme) : Prop := Writable test ∧ EndsTest next

theorem test_tree_eq (test : FieldTest) : testTree test = FieldTest.valuewise
    (fun op value => if op = .equals then value else .str value.text) test := by
  have single (value : Value) : singleTest test value = .single test.field test.op
      (if test.op = .equals then value else .str value.text) := by
    rw [singleTest]
    split <;> rfl
  rw [testTree, FieldTest.valuewise, funext single]

theorem normal_test_tree {test : FieldTest} (filled : test.values ≠ []) :
    (testTree test).Normal := by
  rw [test_tree_eq]
  exact FieldTest.normal_valuewise filled

theorem eval_test_tree (test : FieldTest) (truth : Truth) :
    (testTree test).eval (·.holds truth) = test.holds truth := by
  rw [test_tree_eq]
  apply FieldTest.eval_valuewise
  intro value _
  split <;> rfl

theorem proper_test_tree {test : FieldTest} (proper : test.Proper) :
    ∀ other ∈ (testTree test).terms, other.Proper := by
  rw [test_tree_eq]
  exact FieldTest.proper_valuewise proper

theorem reads_single {test : FieldTest} (writable : Writable test)
    (other : test.op.isComparison = false) {value : Value} (member : value ∈ test.values)
    {next : List Lexeme} (ends : EndsTest next) :
    Reads predicate (singleLexemes test value)
      (.term (.test eventVariable (singleTest test value))) next := by
  have known := writable.path
  have quoted (op : Operator) (same : test.op = op)
      (operator : op = .contains ∨ op = .startsWith ∨ op = .endsWith) :
      Reads predicate (callLexemes test.field (textPattern op value.text))
        (.term (.test eventVariable (.single test.field op (.str value.text)))) next := by
    have found := quoted_text_pattern operator (writable.unquoted (same ▸ operator) value member)
    have read := reads_call known (fun none => absurd (found.symm.trans none) (by simp)) ends
    rwa [patternTest, found] at read
  obtain ⟨field, op, values⟩ := test
  cases op with
  | equals => exact reads_equality known value ends
  | regex =>
      have valid := writable.patterns rfl value member
      have read := reads_call known (fun _ => valid) ends
      rwa [patternTest, quoted_text_of_valid valid] at read
  | contains => exact quoted _ rfl (by simp)
  | startsWith => exact quoted _ rfl (by simp)
  | endsWith => exact quoted _ rfl (by simp)
  | gt | gte | lt | lte => cases other

def sections : List String := ["meta:", "events:", "match:", "outcome:", "condition:"]

/-- Lexemes that begin a line of the events section. -/
inductive BeginsLine : Lexeme → Prop
  | opening : BeginsLine (.symbol "(")
  | negation : BeginsLine (.word "not")
  | call : BeginsLine (.word "re.regex")
  | path (field : String) : BeginsLine (.word (pathWord field))

theorem at_section_of_begins {head : Lexeme} (begins : BeginsLine head) (offset : Nat)
    (rest : List Token) : atSection (⟨head, offset⟩ :: rest) = false := by
  cases begins with
  | opening => simp [atSection]
  | negation => simp [atSection]
  | call => simp [atSection]
  | path field => simp [atSection, path_word_eq_iff]

theorem ends_test_of_begins {head : Lexeme} (begins : BeginsLine head) (tail : List Lexeme) :
    EndsTest (head :: tail) := by
  cases begins with
  | opening => simp [EndsTest]
  | negation => simp [EndsTest]
  | call => simp [EndsTest]
  | path field => simp [EndsTest, path_word_eq_iff]

theorem begins_conjunct {head : Lexeme} (begins : BeginsLine head) :
    Expression.BeginsConjunct eventConnectives atSection head := by
  intro offset rest
  have noSection := at_section_of_begins begins offset rest
  cases begins with
  | opening | negation | call =>
      simp [Expression.Connectives.nextIsConjunction, Expression.Connectives.nextIsAdjacent,
        Expression.Connectives.nextIsDisjunction, Expression.Connectives.nextIs, eventConnectives,
        noSection]
  | path field =>
      simp [Expression.Connectives.nextIsConjunction, Expression.Connectives.nextIsAdjacent,
        Expression.Connectives.nextIsDisjunction, Expression.Connectives.nextIs, eventConnectives,
        noSection, path_word_eq_iff]

theorem begins_term {head : Lexeme} (begins : BeginsLine head) (other : head ≠ .symbol "(")
    (positive : head ≠ .word "not") : Expression.BeginsTerm eventConnectives atSection head := by
  refine ⟨other, fun offset rest => ⟨at_section_of_begins begins offset rest, ?_⟩⟩
  cases begins with
  | opening => exact absurd rfl other
  | negation => exact absurd rfl positive
  | call =>
      simp [Expression.Connectives.nextIsNegation, Expression.Connectives.nextIs, eventConnectives]
  | path field =>
      simp [Expression.Connectives.nextIsNegation, Expression.Connectives.nextIs, eventConnectives,
        path_word_eq_iff]

theorem delimiters : Delimiters eventConnectives atSection [.word "or"] where
  filled := by simp
  disjoins := fun next => Expression.reads_disjunction_word fun offset rest => by
    simp [Expression.Connectives.nextIsDisjunction, Expression.Connectives.nextIs, eventConnectives]
  divides := fun next => .of_front fun _ start offset rest => by
    cases start
    simp [Expression.Connectives.nextIsConjunction, Expression.Connectives.nextIsAdjacent,
      Expression.Connectives.nextIsDisjunction, Expression.Connectives.nextIs, eventConnectives]
  opening := fun offset rest => by
    simp [atSection, Expression.Connectives.nextIsNegation, Expression.Connectives.nextIs,
      eventConnectives]
  closing := fun next => by
    refine (EndsConjunction.of_front fun _ start offset rest => ?_).disjunction
      fun _ start offset rest => ?_
    all_goals
      cases start
      simp [Expression.Connectives.nextIsConjunction, Expression.Connectives.nextIsAdjacent,
        Expression.Connectives.nextIsDisjunction, Expression.Connectives.nextIs, eventConnectives]

/-- Lexemes before which the events section ends. -/
def EndsEvents (next : List Lexeme) : Prop := ∃ heading ∈ sections, next.head? = some (.word heading)

theorem ends_disjunction {next : List Lexeme} (ends : EndsEvents next) :
    EndsDisjunction eventConnectives atSection next := by
  obtain ⟨heading, known, start⟩ := ends
  have words : heading ≠ "and" ∧ heading ≠ "or" ∧
      ∀ offset rest, atSection (⟨.word heading, offset⟩ :: rest) = true := by
    simp only [sections, List.mem_cons, List.not_mem_nil, or_false] at known
    rcases known with rfl | rfl | rfl | rfl | rfl
    all_goals simp [atSection]
  obtain ⟨noAnd, noOr, section_⟩ := words
  refine (EndsConjunction.of_front fun lexeme front offset rest => ?_).disjunction
    fun lexeme front offset rest => ?_
  all_goals
    cases start.symm.trans front
    simp [Expression.Connectives.nextIsConjunction, Expression.Connectives.nextIsAdjacent,
      Expression.Connectives.nextIsDisjunction, Expression.Connectives.nextIs, eventConnectives,
      noAnd, noOr, section_]

theorem ends_test_of_ends {next : List Lexeme} (ends : EndsEvents next) : EndsTest next := by
  obtain ⟨heading, known, start⟩ := ends
  rw [EndsTest, start]
  rintro same
  cases same
  revert known
  decide

theorem begins_single (test : FieldTest) (value : Value) (tail : List Lexeme) :
    ∃ head others, singleLexemes test value ++ tail = head :: others ∧ BeginsLine head ∧
      head ≠ .symbol "(" ∧ head ≠ .word "not" := by
  have path := @path_word_eq_iff test.field "not"
  rw [singleLexemes]
  cases test.op with
  | equals => exact ⟨_, _, rfl, .path _, by simp, by simp [path]⟩
  | _ => exact ⟨_, _, rfl, .call, by simp, by simp⟩

theorem reads_test {test : FieldTest} {levels : Nat} {next : List Lexeme}
    (writable : Writable test) (ends : EndsTest next) :
    Reads (operand eventConnectives atSection predicate (levels + 2)) (testLexemes test)
      (predicateTree test) next := by
  rw [testLexemes, predicateTree, testTree]
  by_cases comparison : test.op.isComparison = true
  · have read := reads_comparison writable.proper writable.path comparison next
    rw [testLexemes, if_pos comparison] at read
    rw [if_pos comparison, if_pos comparison]
    apply Expression.reads_term _ read
    have path := @path_word_eq_iff test.field "not"
    exact ⟨_, rfl, begins_term (.path _) (by simp) (by simp [path])⟩
  · rw [if_neg comparison, if_neg comparison, FieldTest.alternatives, Logic.map_disj, List.map_map]
    refine Expression.reads_values delimiters writable.proper.filled (fun value => .term _) ?_ ?_ ?_
      ends
    · intro value member levels next ends
      obtain ⟨head, others, same, begins, other, positive⟩ := begins_single test value []
      rw [List.append_nil] at same
      apply Expression.reads_term
      · exact ⟨head, by rw [same]; rfl, begins_term begins other positive⟩
      · exact reads_single writable (by simpa using comparison) member ends
    · intro next
      simp [EndsTest]
    · intro next
      simp [EndsTest]

theorem next_and (offset : Nat) (rest : List Token) :
    eventConnectives.nextIsConjunction (⟨.word "and", offset⟩ :: rest) = true := by
  simp [Expression.Connectives.nextIsConjunction, Expression.Connectives.nextIs, eventConnectives]

theorem next_not (offset : Nat) (rest : List Token) :
    atSection (⟨.word "not", offset⟩ :: rest) = false ∧
      eventConnectives.nextIsNegation (⟨.word "not", offset⟩ :: rest) = true := by
  refine ⟨at_section_of_begins .negation offset rest, ?_⟩
  simp [Expression.Connectives.nextIsNegation, Expression.Connectives.nextIs, eventConnectives]

theorem operands : Operands eventConnectives atSection wording fits predicateTree Parses :=
  Operands.of_operand 1 "not" delimiters
    (fun fit => (normal_test_tree fit.1.proper.filled).map _)
    (fun ⟨writable, ends⟩ => reads_test writable ends) ⟨rfl, fun _ => rfl⟩ next_not
    (fun _ _ reads => Expression.reads_conjunct next_and reads) (by simp [wording])

/-- A conjunct, or a placeholder with the field that is bound to it. -/
abbrev Line := Logic FieldTest ⊕ (String × String)

namespace Line

def lexemes : Line → List Lexeme
  | .inl conjunct => wordingIn wording .negation conjunct
  | .inr (placeholder, field) =>
      [.word (pathWord field), .symbol "=", .word ("$" ++ placeholder)]

def tree : Line → Logic Predicate
  | .inl conjunct => conjunct.bind predicateTree
  | .inr (placeholder, field) => .term (.binding placeholder field)

def Sound : Line → Prop
  | .inl conjunct => conjunct.Normal ∧ conjunct.depth ≤ Expression.maxDepth ∧
      ∀ test ∈ conjunct.terms, Writable test
  | .inr (placeholder, field) => isFieldPath field = true ∧ '.' ∉ placeholder.toList

end Line

theorem begins_operand (item : Logic FieldTest) (tail : List Lexeme) :
    ∃ head others, wordingIn wording .negation item ++ tail = head :: others ∧ BeginsLine head := by
  cases item with
  | not item => exact ⟨_, _, rfl, .negation⟩
  | all items => exact ⟨_, _, rfl, .opening⟩
  | any items => exact ⟨_, _, rfl, .opening⟩
  | term test =>
      rw [wordingIn]
      change ∃ head others, testLexemes test ++ tail = head :: others ∧ BeginsLine head
      rw [testLexemes]
      by_cases comparison : test.op.isComparison = true
      · rw [if_pos comparison]
        exact ⟨_, _, rfl, .path _⟩
      · rw [if_neg comparison]
        rcases test.values with _ | ⟨value, _ | ⟨second, further⟩⟩
        · exact ⟨_, _, rfl, .opening⟩
        · obtain ⟨head, others, same, begins, _⟩ := begins_single test value tail
          exact ⟨head, others, same, begins⟩
        · exact ⟨_, _, rfl, .opening⟩

theorem begins_line (line : Line) (tail : List Lexeme) :
    ∃ head others, line.lexemes ++ tail = head :: others ∧ BeginsLine head := by
  match line with
  | .inl conjunct => exact begins_operand conjunct tail
  | .inr (placeholder, field) => exact ⟨_, _, rfl, .path field⟩

theorem reads_binding {placeholder field : String} (known : isFieldPath field = true)
    (plain : '.' ∉ placeholder.toList) (next : List Lexeme) :
    Reads predicate [.word (pathWord field), .symbol "=", .word ("$" ++ placeholder)]
      (.term (.binding placeholder field)) next := by
  have named : placeholder? ("$" ++ placeholder) = some placeholder := by
    simp [placeholder?, after?, Text.containsChar, plain]
  apply reads_path_test known
  apply Parser.reads_bind_cons (Parser.reads_take_sign "=" _)
  apply Parser.reads_cons
  intro offset
  apply Parser.reads_nil
  intro rest _
  simp [equality, named]

theorem fits_conjunct {conjunct : Logic FieldTest} {surroundings : Expression.Binding}
    {adjacent : Bool} {next : List Lexeme} (writable : ∀ test ∈ conjunct.terms, Writable test)
    (ends : EndsTest next) : FitsIn wording fits surroundings adjacent conjunct next := by
  refine @Expression.fits_of_follows _ _ _ EndsTest _ _ _ _ ?_ ?_ ?_ ?_ ends
  · simp [EndsTest]
  · simp [EndsTest, wording]
  · simp [EndsTest, wording]
  · exact fun test member _ _ ends => ⟨writable test member, ends⟩

theorem reads_line {line : Line} (sound : line.Sound) {next : List Lexeme} (ends : EndsTest next) :
    Reads (operand eventConnectives atSection predicate (Expression.maxDepth + 1)) line.lexemes
      line.tree next := by
  match line with
  | .inl conjunct =>
      obtain ⟨normal, shallow, writable⟩ := sound
      have known : Parses Expression.maxDepth
          (operand eventConnectives atSection predicate (Expression.maxDepth + 1)) :=
        ⟨_, Nat.lt_succ_self _, rfl⟩
      exact operands.reach known conjunct normal.flat shallow false next (fits_conjunct writable ends)
  | .inr (placeholder, field) =>
      obtain ⟨known, plain⟩ := sound
      have path := @path_word_eq_iff field "not"
      apply Expression.reads_term
      · exact ⟨_, rfl, begins_term (.path _) (by simp) (by simp [path])⟩
      · exact reads_binding known plain next

theorem normal_line_tree {line : Line} (sound : line.Sound) : line.tree.Normal := by
  match line with
  | .inl conjunct =>
      obtain ⟨normal, _, writable⟩ := sound
      apply Logic.Normal.bind normal.filled
      intro test member
      exact (normal_test_tree (writable test member).proper.filled).map _
  | .inr (placeholder, field) => exact .term _

theorem reads_lines {lines : List Line} (filled : lines ≠ []) (sound : ∀ line ∈ lines, line.Sound)
    {next : List Lexeme} (ends : EndsEvents next) :
    Reads (Expression.parse eventConnectives atSection predicate) (joined [] Line.lexemes lines)
      (Logic.conj (lines.map Line.tree)) next := by
  obtain ⟨first, others, rfl⟩ := List.exists_cons_of_ne_nil filled
  have follows : Along [] Line.lexemes (fun _ following => EndsTest following) (first :: others)
      next := by
    apply Parser.along_of_starts _ (ends_test_of_ends ends)
    intro line _ following
    obtain ⟨head, tail, same, begins⟩ := begins_line line following
    rw [List.nil_append, same]
    exact ends_test_of_begins begins tail
  apply Expression.reads_disjunct delimiters _ _ (ends_disjunction ends)
  · apply Logic.Normal.conj (by simp)
    intro tree member
    obtain ⟨line, inside, rfl⟩ := List.mem_map.mp member
    exact normal_line_tree (sound line inside)
  · apply Expression.reads_conjunction _ _ _ (ends_disjunction ends).toEndsConjunction
    · intro line _
      obtain ⟨head, tail, same, _⟩ := begins_line line []
      rw [List.append_nil] at same
      simp [same]
    · exact reads_line (sound first (by simp)) follows.1
    · apply Parser.along_mono follows.2
      intro line member following ends
      have read := reads_line (sound line (List.mem_cons_of_mem first member)) ends
      obtain ⟨head, tail, same, begins⟩ := begins_line line []
      rw [List.append_nil] at same
      rw [same] at read ⊢
      exact Expression.reads_neighbour (begins_conjunct begins) read

/-- The lines of the events section: a line for each conjunct, then the placeholders. -/
def eventLines (expression : Logic FieldTest) (bound : List (String × String)) : List Line :=
  expression.conjuncts.map .inl ++ bound.map .inr

def eventTests (expression : Logic FieldTest) : Logic (String × FieldTest) :=
  (expression.bind testTree).map (eventVariable, ·)

theorem test_lines_of_conjunct (part : Logic FieldTest) :
    (part.bind predicateTree).map Predicate.test? =
      ((part.bind testTree).map (eventVariable, ·)).map some := by
  rw [Logic.map_bind, Logic.map_bind, Logic.map_bind]
  simp only [predicateTree, Logic.map_map]
  rfl

theorem normal_bind_tree {expression : Logic FieldTest} (normal : expression.Normal)
    (writable : ∀ test ∈ expression.terms, Writable test) : (expression.bind testTree).Normal := by
  apply Logic.Normal.bind normal.filled
  intro test member
  exact normal_test_tree (writable test member).proper.filled

theorem terms_of_conjunct {expression part : Logic FieldTest} (member : part ∈ expression.conjuncts)
    {test : FieldTest} (place : test ∈ part.terms) : test ∈ expression.terms := by
  rw [← Logic.terms_conjuncts]
  exact List.mem_flatMap.mpr ⟨part, member, place⟩

/-- Dropping the placeholders leaves the tests of the expression. -/
theorem tests_of_lines {expression : Logic FieldTest} (bound : List (String × String))
    (normal : expression.Normal) (writable : ∀ test ∈ expression.terms, Writable test) :
    ((Logic.conj ((eventLines expression bound).map Line.tree)).map Predicate.test?).flatten =
      some (eventTests expression) := by
  have parts : ((expression.conjuncts.map Sum.inl).map Line.tree).map
      (Logic.map Predicate.test?) =
      (expression.conjuncts.map fun part => (part.bind testTree).map (eventVariable, ·)).map
        (Logic.map some) := by
    simp only [List.map_map]
    exact List.map_congr_left fun part _ => test_lines_of_conjunct part
  have absent : ((bound.map Sum.inr).map Line.tree).map (Logic.map Predicate.test?) =
      List.replicate bound.length (Logic.term none) := by
    rw [List.map_map, List.map_map, List.eq_replicate_iff]
    refine ⟨by simp, fun item member => ?_⟩
    obtain ⟨binding, _, rfl⟩ := List.mem_map.mp member
    rfl
  rw [Logic.map_conj, eventLines, List.map_append, List.map_append, parts, absent,
    Logic.flatten_conj_absent]
  · have whole := Logic.bind_conjuncts testTree (normal_bind_tree normal writable)
    rw [eventTests, ← whole, Logic.map_conj, List.map_map]
    rfl
  · simpa using normal.conjuncts_ne_nil
  · intro tree member
    obtain ⟨part, inside, rfl⟩ := List.mem_map.mp member
    apply Logic.Normal.map
    apply normal_bind_tree (normal.conjunct inside).1
    exact fun test place => writable test (terms_of_conjunct inside place)

theorem placeholders_of_lines (expression : Logic FieldTest) (bound : List (String × String)) :
    (Logic.conj ((eventLines expression bound).map Line.tree)).terms.filterMap
      Predicate.binding? = bound := by
  have none : ∀ part : Logic FieldTest,
      (part.bind predicateTree).terms.filterMap Predicate.binding? = [] := by
    intro part
    rw [List.filterMap_eq_nil_iff]
    intro predicate member
    rw [Logic.terms_bind] at member
    obtain ⟨test, _, place⟩ := List.mem_flatMap.mp member
    rw [predicateTree, Logic.terms_map] at place
    obtain ⟨_, _, rfl⟩ := List.mem_map.mp place
    rfl
  rw [Logic.terms_conj, eventLines, List.map_append, List.flatMap_append, List.filterMap_append]
  have noTests : (((expression.conjuncts.map Sum.inl).map Line.tree).flatMap Logic.terms).filterMap
      Predicate.binding? = [] := by
    rw [List.map_map, List.flatMap_map, List.filterMap_flatMap, List.flatMap_eq_nil_iff]
    exact fun part _ => none part
  rw [noTests, List.nil_append, List.map_map, List.flatMap_map]
  induction bound with
  | nil => rfl
  | cons binding rest induction =>
      rw [List.flatMap_cons, List.filterMap_append, induction]
      rfl

theorem group_of_tests {part : Logic FieldTest} (filled : part.terms ≠ [])
    (groups : List EventGroup) (next : List Lexeme) :
    Reads (group groups (part.map (eventVariable, ·))) []
      (addPredicate eventVariable part groups) next := by
  obtain ⟨first, others, found⟩ := List.exists_cons_of_ne_nil filled
  have alone : ((part.map (eventVariable, ·)).terms.map (·.1)).eraseDups = [eventVariable] := by
    rw [Logic.terms_map, found]
    simp [List.eraseDups_cons]
  have same : (part.map (eventVariable, ·)).map (·.2) = part := by
    rw [Logic.map_map]
    exact Logic.map_id part
  rw [group, alone]
  simp only [same]
  exact reads_pure _ _

theorem fold_group {parts : List (Logic FieldTest)} (filled : ∀ part ∈ parts, part.terms ≠ [])
    (before : List (Logic FieldTest)) (next : List Lexeme) :
    Reads ((parts.map (Logic.map (eventVariable, ·))).foldlM group [⟨eventVariable, before⟩]) []
      [⟨eventVariable, before ++ parts⟩] next := by
  induction parts generalizing before with
  | nil => simpa using reads_pure [(⟨eventVariable, before⟩ : EventGroup)] next
  | cons part rest induction =>
      have grouped := group_of_tests (filled part (by simp)) [⟨eventVariable, before⟩] next
      have others := induction (fun other member => filled other (by simp [member]))
        (before ++ [part])
      rw [List.map_cons, List.foldlM_cons]
      apply Parser.reads_bind_nil grouped
      simpa [addPredicate] using others

/-- The lines of an expression over one event variable make up one group of tests. -/
theorem reads_events {expression : Logic FieldTest} {bound : List (String × String)}
    (normal : expression.Normal) (shallow : expression.depth ≤ Expression.maxDepth)
    (writable : ∀ test ∈ expression.terms, Writable test)
    (named : ∀ binding ∈ bound, isFieldPath binding.2 = true ∧ '.' ∉ binding.1.toList)
    {next : List Lexeme} (ends : EndsEvents next) :
    Reads events (joined [] Line.lexemes (eventLines expression bound))
      ([⟨eventVariable, (expression.bind testTree).conjuncts⟩], bound) next := by
  have sound : ∀ line ∈ eventLines expression bound, line.Sound := by
    intro line member
    rcases List.mem_append.mp member with member | member
    · obtain ⟨part, inside, rfl⟩ := List.mem_map.mp member
      refine ⟨(normal.conjunct inside).1, (Logic.depth_of_conjunct inside).trans shallow, ?_⟩
      exact fun test place => writable test (terms_of_conjunct inside place)
    · obtain ⟨binding, inside, rfl⟩ := List.mem_map.mp member
      exact named binding inside
  have filled : eventLines expression bound ≠ [] := by
    simp [eventLines, normal.conjuncts_ne_nil]
  have tree := normal_bind_tree normal writable
  apply Parser.reads_bind_offset
  intro offset
  apply reads_bind_last (reads_lines filled sound ends)
  rw [tests_of_lines bound normal writable, placeholders_of_lines]
  obtain ⟨first, others, parts⟩ := List.exists_cons_of_ne_nil tree.conjuncts_ne_nil
  have termsOf : ∀ part ∈ (expression.bind testTree).conjuncts, part.terms ≠ [] :=
    fun part member => (tree.conjunct member).1.terms_ne_nil
  rw [parts] at termsOf ⊢
  apply Parser.reads_bind_nil
  · rw [eventTests, Logic.map_conjuncts, parts, List.map_cons, List.foldlM_cons]
    apply Parser.reads_bind_nil (group_of_tests (termsOf first (by simp)) [] _)
    exact fold_group (fun part member => termsOf part (by simp [member])) [first] _
  · exact reads_pure _ _

end DetectionRules.YaraL
