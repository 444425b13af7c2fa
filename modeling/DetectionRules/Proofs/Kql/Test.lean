import DetectionRules.Dialect.Kql
import DetectionRules.Proofs.Dialect

/-!
Tests of Kusto queries are read as they are written. A test with several values
is a list of values or several tests with one value each.
-/

namespace DetectionRules.Kql

open Expression (Wording alternativesIn wordingIn FitsIn Operands)
open DetectionRules.Parser (Reads reads_bind reads_bind_cons reads_bind_nil reads_bind_last
  reads_pure reads_cons reads_nil)
open Token (Spells Scans joined)

def columnLexemes (field : String) : List Lexeme :=
  if isTableName field then [.word field] else [.symbol "[", .quoted field, .symbol "]"]

def operatorWords : Operator → List String
  | .contains => ["contains"]
  | .startsWith => ["startswith"]
  | .endsWith => ["endswith"]
  | .regex => ["matches", "regex"]
  | _ => []

def wordTestLexemes (test : FieldTest) (value : Value) : List Lexeme :=
  columnLexemes test.field ++ (operatorWords test.op).map .word ++ [.quoted value.text]

def listLexemes (values : List Value) : List Lexeme :=
  .symbol "(" :: joined [.symbol ","] (fun value => [value.lexeme]) values ++ [.symbol ")"]

def testLexemes (test : FieldTest) : List Lexeme :=
  match test.op with
  | .equals =>
      match test.values with
      | [value] => columnLexemes test.field ++ [.symbol "==", value.lexeme]
      | values => columnLexemes test.field ++ .word "in" :: listLexemes values
  | .gt | .gte | .lt | .lte => columnLexemes test.field ++
      [.symbol (test.op.sign?.getD ">"), .word (test.values.head?.elim "" (·.text))]
  | .contains | .startsWith | .endsWith | .regex =>
      alternativesIn [.word "or"] (wordTestLexemes test) test.values

def wording : Wording FieldTest where
  term := testLexemes
  conjunction := [.word "and"]
  disjunction := [.word "or"]
  negation := fun inner => .word "not" :: .symbol "(" :: inner ++ [.symbol ")"]
  negationEncloses := true

/-- Tests that can be written: patterns are regular expressions, and a comparison is not one of
the time of an event. -/
structure Writable (test : FieldTest) : Prop where
  proper : test.Proper
  patterns : test.op = .regex → ∀ value ∈ test.values, Regex.isValid value.text = true
  timeless : test.op.isComparison = true → test.field ∉ timeFields

theorem is_word_of_table_name {name : String} (isName : isTableName name = true) :
    Token.IsWord quoting name.toList := by
  rw [isTableName] at isName
  match found : name.toList with
  | [] => simp [found] at isName
  | c :: rest =>
      simp only [found, Bool.and_eq_true, List.all_eq_true] at isName
      obtain ⟨⟨letter, _⟩, others⟩ := isName
      apply Token.is_word_of_plain (by simp)
      intro d member
      rcases List.mem_cons.mp member with rfl | member
      · simp [Token.isPlain, Char.isAlphanum, letter]
      · have part := others d member
        rw [Bool.or_eq_true, beq_iff_eq] at part
        rcases part with part | rfl
        · simp [Token.isPlain, part]
        · decide

theorem spells_column (field : String) : Spells quoting (columnText field) (columnLexemes field) := by
  rw [columnText, columnLexemes]
  by_cases isName : isTableName field = true
  · rw [if_pos isName, if_pos isName]
    exact Token.spells_word (is_word_of_table_name isName)
  · rw [if_neg isName, if_neg isName]
    intro rest others _ scans
    have closing : Scans quoting (']' :: rest) (.symbol "]" :: others) :=
      Token.scans_sign (by simp [Token.sign?, Token.signs]) ⟨by decide, rfl⟩ scans
    have name := @Token.scans_single_quoted quoting field _ _ rfl (by simp) closing
    have opening : Scans quoting ('[' :: ((Text.singleQuote field).toList ++ ']' :: rest))
        (.symbol "[" :: .quoted field :: .symbol "]" :: others) :=
      Token.scans_sign (by simp [Token.sign?, Token.signs]) ⟨by decide, rfl⟩ name
    simpa using opening

theorem spells_value (value : Value) : Spells quoting (valueText value) [value.lexeme] := by
  cases value with
  | int number => exact Token.spells_int64 number
  | str text => exact Token.spells_double_quote text

theorem connects_equal : Token.Connects quoting " == " [.symbol "=="] :=
  Token.connects_comparison (by simp) (by simp)

theorem spells_word_test {test : FieldTest} {word text : String} (filled : test.values ≠ [])
    (operator : Spells quoting word ((operatorWords test.op).map .word))
    (rendered : wordTestText word test = .ok text) :
    Spells quoting text (alternativesIn [.word "or"] (wordTestLexemes test) test.values) := by
  refine Expression.spells_alternatives Token.connects_or filled ?_ rendered
  intro value _ text single
  cases single
  have front := Token.connects_blank (spells_column test.field) operator
  have whole := Token.connects_blank front (Token.spells_double_quote value.text)
  simpa [wordTestLexemes, FieldTest.withValue, FieldTest.single] using whole

theorem spells_equality {field text : String} {values : List Value} (filled : values ≠ [])
    (rendered : renderTest ⟨field, .equals, values⟩ = .ok text) :
    Spells quoting text (testLexemes ⟨field, .equals, values⟩) := by
  match values with
  | [] => exact absurd rfl filled
  | [value] =>
      cases rendered
      have whole := connects_equal (spells_column field) (spells_value value)
      simpa [testLexemes, String.append_assoc] using whole
  | first :: second :: others =>
      cases rendered
      have list := Token.spells_intercalate_map Token.connects_comma
        (fun value _ => spells_value value) filled
      have whole := @Token.spells_membership quoting _ "in" " in (" _ _ _ (by simp) (by simp)
        (by simp [Token.isPlain]) (spells_column field) list
      simpa only [testLexemes, listLexemes, List.append_assoc, List.cons_append,
        List.nil_append] using whole

theorem spells_comparison {test : FieldTest} (proper : test.Proper)
    (comparison : test.op.isComparison = true) :
    Spells quoting (columnText test.field ++ " " ++ test.op.sign?.getD ">" ++ " " ++
        test.values.head?.elim "" (·.text))
      (columnLexemes test.field ++
        [.symbol (test.op.sign?.getD ">"), .word (test.values.head?.elim "" (·.text))]) := by
  obtain ⟨number, single⟩ := proper.compared comparison
  rw [single]
  have whole := Token.connects_operator comparison (spells_column test.field)
    (Token.spells_int64 number)
  simpa [String.append_assoc] using whole

theorem spells_test {test : FieldTest} {text : String} (proper : test.Proper)
    (rendered : renderTest test = .ok text) : Spells quoting text (testLexemes test) := by
  obtain ⟨field, op, values⟩ := test
  have single (word : String) (filled : word.toList ≠ [])
      (plain : ∀ c ∈ word.toList, Token.isPlain c = true) : Spells quoting word [.word word] :=
    Token.spells_plain filled plain
  cases op with
  | equals => exact spells_equality proper.filled rendered
  | contains =>
      apply spells_word_test proper.filled _ rendered
      exact single "contains" (by simp) (by simp [Token.isPlain])
  | startsWith =>
      apply spells_word_test proper.filled _ rendered
      exact single "startswith" (by simp) (by simp [Token.isPlain])
  | endsWith =>
      apply spells_word_test proper.filled _ rendered
      exact single "endswith" (by simp) (by simp [Token.isPlain])
  | regex =>
      have split : "matches regex" = "matches" ++ " " ++ "regex" := by simp
      apply spells_word_test proper.filled _ rendered
      rw [split]
      exact Token.connects_blank (single "matches" (by simp) (by simp [Token.isPlain]))
        (single "regex" (by simp) (by simp [Token.isPlain]))
  | gt | gte | lt | lte =>
      cases rendered
      exact spells_comparison proper rfl

theorem reads_column (field : String) (next : List Lexeme) :
    Reads column (columnLexemes field) field next := by
  rw [columnLexemes]
  by_cases isName : isTableName field = true
  · rw [if_pos isName]
    apply reads_cons
    intro offset
    apply reads_nil
    intro rest _
    simp [column, Parser.takeSign]
  · rw [if_neg isName]
    apply reads_cons
    intro opening
    apply reads_cons
    intro name
    apply reads_cons
    intro closing
    apply reads_nil
    intro rest _
    simp [column, Parser.takeSign]

theorem reads_value (given : Value) (next : List Lexeme) :
    Reads value [given.lexeme] given next := by
  apply reads_cons
  intro offset
  apply reads_nil
  intro rest _
  cases given with
  | int number => simp [value, Value.lexeme, valueOf, Value.of_literal_int]
  | str text => simp [value, Value.lexeme, valueOf]

theorem reads_value_list {values : List Value} (filled : values ≠ []) (next : List Lexeme) :
    Reads valueList (listLexemes values) (values.foldl Expression.addValue []) next := by
  have items := @Parser.reads_commas _ _ (.symbol ")" :: next) _ (fun _ => True) _ _ _ filled
    (fun given _ following _ => reads_value given following) (fun _ => trivial) trivial (by simp)
  rw [List.map_id'] at items
  apply reads_bind_cons (Parser.reads_sign "(" _)
  apply reads_bind items
  apply reads_bind_cons (Parser.reads_sign ")" _)
  exact reads_pure _ next

/-- A column is no call, whatever its name. -/
theorem reads_no_call (name field : String) {next : List Lexeme}
    (noCall : next.head? ≠ some (.symbol "(")) :
    Reads (takeCall name) [] false (columnLexemes field ++ next) := by
  apply reads_nil
  intro rest follows
  have other : nextIsCall name rest = false := by
    rw [columnLexemes] at follows
    by_cases isName : isTableName field = true
    · rw [if_pos isName] at follows
      obtain ⟨offset, others, rfl, afterName⟩ := Parser.cons_of_lexemes follows
      have noSign : Parser.nextIsSign "(" others = false :=
        Parser.next_is_sign_of_head (by rw [afterName]; exact noCall)
      simp [nextIsCall, noSign]
    · rw [if_neg isName] at follows
      obtain ⟨offset, others, rfl, _⟩ := Parser.cons_of_lexemes follows
      simp [nextIsCall]
  simp [takeCall, Parser.take_if_false other]

theorem reads_test_of {expression : Parser (Option (Logic FieldTest))} {field : String}
    {head : Lexeme} {tail next : List Lexeme} {result : Logic (Option FieldTest)}
    (operator : head ≠ .symbol "(") (reads : Reads (testOf field) (head :: tail) result next) :
    Reads (term expression) (columnLexemes field ++ head :: tail) result next := by
  apply reads_bind_nil
  · rw [List.append_assoc]
    exact reads_no_call "not" field (by simpa using operator)
  · rw [if_neg (by simp)]
    exact reads_bind (reads_column field _) reads

theorem reads_worded {expression : Parser (Option (Logic FieldTest))} {field word : String}
    {tail next : List Lexeme} {test : FieldTest}
    (reads : Reads (wordTest field false) (.word word :: tail) test next) :
    Reads (term expression) (columnLexemes field ++ .word word :: tail) (kept test) next := by
  apply reads_test_of (by simp)
  intro tokens rest same follows
  have read := reads tokens rest same follows
  obtain ⟨offset, others, rfl, _⟩ := Parser.cons_of_lexemes same
  rw [List.cons_append] at read ⊢
  simp [testOf, Dialect.takeComparison?, nextIsEquality, nextIsInequality, nextIsAnySign,
    Parser.takeSign, read]

theorem reads_equality {expression : Parser (Option (Logic FieldTest))} {field : String}
    {values : List Value} (filled : values ≠ []) (next : List Lexeme) :
    Reads (term expression) (testLexemes ⟨field, .equals, values⟩)
      (kept ⟨field, .equals, values.foldl Expression.addValue []⟩) next := by
  match values with
  | [] => exact absurd rfl filled
  | [given] =>
      apply reads_test_of (by simp)
      apply reads_cons
      intro offset tokens rest same follows
      have read := reads_value given next tokens rest same follows
      have alone : [given].foldl Expression.addValue [] = [given] := rfl
      simp [testOf, Dialect.takeComparison?, Operator.ofSign?, nextIsEquality, read, alone,
        FieldTest.single]
  | first :: second :: others =>
      apply reads_worded
      apply reads_cons
      intro offset tokens rest same follows
      have read := reads_value_list (by simp) next tokens rest same follows
      simp only [wordTest, Parser.bind_apply, Parser.word_at_apply, read, Parser.pure_apply]

theorem reads_comparison {expression : Parser (Option (Logic FieldTest))} {test : FieldTest}
    (writable : Writable test) (comparison : test.op.isComparison = true) (next : List Lexeme) :
    Reads (term expression) (columnLexemes test.field ++
        [.symbol (test.op.sign?.getD ">"), .word (test.values.head?.elim "" (·.text))])
      (kept test) next := by
  obtain ⟨number, single⟩ := writable.proper.compared comparison
  obtain ⟨field, op, values⟩ := test
  cases single
  have sign : Operator.ofSign? (op.sign?.getD ">") = some op := by
    cases op <;> simp [Operator.sign?, Operator.ofSign?, Operator.isComparison] at comparison ⊢
  have timeless : field ∉ timeFields := writable.timeless comparison
  apply reads_test_of
  · cases op <;> simp [Operator.sign?]
  · apply reads_cons
    intro signOffset
    apply reads_cons
    intro offset
    apply reads_nil
    intro rest _
    simp [testOf, Dialect.takeComparison?, sign, timeless, integer, valueOf,
      Value.of_literal_int, FieldTest.single]

theorem reads_string (text : String) (next : List Lexeme) :
    Reads stringValue [.quoted text] (.str text) next := by
  apply reads_cons
  intro offset
  apply reads_nil
  intro rest _
  simp [stringValue]

theorem reads_regular_expression {text : String} (valid : Regex.isValid text = true)
    (next : List Lexeme) :
    Reads regularExpression [.word "regex", .quoted text] (.str text) next := by
  apply reads_cons
  intro wordOffset
  apply reads_cons
  intro offset
  apply reads_nil
  intro rest _
  simp only [regularExpression, Parser.bind_apply, Parser.keyword_apply, Parser.literal_quoted,
    Dialect.ensureRegex, Dialect.ensure_regex_or valid, Parser.pure_apply]

theorem reads_word_test {expression : Parser (Option (Logic FieldTest))} {test : FieldTest}
    (writable : Writable test)
    (operator : test.op = .contains ∨ test.op = .startsWith ∨ test.op = .endsWith ∨
      test.op = .regex) {value : Value} (member : value ∈ test.values) (next : List Lexeme) :
    Reads (term expression) (wordTestLexemes test value) (kept (test.textual value)) next := by
  obtain ⟨field, op, values⟩ := test
  have text := reads_string value.text next
  rcases operator with same | same | same | same
  all_goals
    cases same
    simp only [wordTestLexemes, operatorWords, List.map_cons, List.map_nil, List.append_assoc,
      List.cons_append, List.nil_append]
    apply reads_worded
    apply reads_cons
    intro offset tokens rest same follows
  · have read := text tokens rest same follows
    simp only [wordTest, Parser.bind_apply, Parser.word_at_apply, read, Parser.pure_apply]
    rfl
  · have read := text tokens rest same follows
    simp only [wordTest, Parser.bind_apply, Parser.word_at_apply, read, Parser.pure_apply]
    rfl
  · have read := text tokens rest same follows
    simp only [wordTest, Parser.bind_apply, Parser.word_at_apply, read, Parser.pure_apply]
    rfl
  · have valid := writable.patterns rfl value member
    have read := reads_regular_expression valid next tokens rest same follows
    simp only [wordTest, Parser.bind_apply, Parser.word_at_apply, Bool.false_eq_true, if_false,
      read, Parser.pure_apply]
    rfl

end DetectionRules.Kql
