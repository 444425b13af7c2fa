import DetectionRules.Dialect.YaraL
import DetectionRules.Proofs.Dialect

/-!
Tests of YARA-L rules are read as they are written. Tests for parts of a text
are patterns that quote the text, which no valid pattern of a rule does.
-/

namespace DetectionRules.YaraL

open Expression (Wording alternativesIn)
open DetectionRules.Parser (Reads reads_bind reads_bind_cons reads_bind_nil reads_bind_last
  reads_pure reads_cons reads_nil)
open Token (Spells)

def quoting : Quoting := { slashes := true, backticks := true }

def pathWord (field : String) : String := "$" ++ eventVariable ++ "." ++ field

def callLexemes (field pattern : String) : List Lexeme :=
  [.word "re.regex", .symbol "(", .word (pathWord field), .symbol ",", .quoted pattern, .symbol ")"]

def singleLexemes (test : FieldTest) (value : Value) : List Lexeme :=
  match test.op with
  | .equals => [.word (pathWord test.field), .symbol "=", value.lexeme]
  | .regex => callLexemes test.field value.text
  | op => callLexemes test.field (textPattern op value.text)

def testLexemes (test : FieldTest) : List Lexeme :=
  if test.op.isComparison then
    [.word (pathWord test.field), .symbol (test.op.sign?.getD ">"),
      .word (test.values.head?.elim "" (·.text))]
  else alternativesIn [.word "or"] (singleLexemes test) test.values

def wording : Wording FieldTest where
  term := testLexemes
  conjunction := [.word "and"]
  disjunction := [.word "or"]
  negation := fun inner => .word "not" :: inner

/-- What is read back for a single value. -/
def singleTest (test : FieldTest) (value : Value) : FieldTest :=
  if test.op = .equals then test.withValue value else test.textual value

def testTree (test : FieldTest) : Logic FieldTest :=
  if test.op.isComparison then .term test
  else FieldTest.alternatives (singleTest test) test.values

/-- Tests that can be written and told apart from other tests. -/
structure Writable (test : FieldTest) : Prop where
  proper : test.Proper
  path : isFieldPath test.field = true
  patterns : test.op = .regex → ∀ value ∈ test.values, Regex.isValid value.text = true
  unquoted : test.op = .contains ∨ test.op = .startsWith ∨ test.op = .endsWith →
    ∀ value ∈ test.values, Text.contains value.text "\\E" = false

theorem path_text_ok {field path : String} (written : pathText field = .ok path) :
    isFieldPath field = true ∧ path = pathWord field := by
  rw [pathText] at written
  by_cases known : isFieldPath field = true
  · rw [if_pos known] at written
    cases written
    exact ⟨known, rfl⟩
  · rw [if_neg known] at written
    cases written

theorem to_list_path_word (field : String) :
    (pathWord field).toList = '$' :: 'e' :: '.' :: field.toList := by
  simp [pathWord, eventVariable]

theorem path_word_eq_iff {field word : String} :
    pathWord field = word ↔ '$' :: 'e' :: '.' :: field.toList = word.toList := by
  rw [← to_list_path_word, String.toList_inj]

theorem is_word_of_path {field : String} (known : isFieldPath field = true) :
    Token.IsWord quoting (pathWord field).toList := by
  rw [to_list_path_word]
  apply Token.is_word_of_plain (by simp)
  intro c member
  simp only [isFieldPath, Bool.and_eq_true, List.all_eq_true] at known
  rcases List.mem_cons.mp member with rfl | member
  · decide
  rcases List.mem_cons.mp member with rfl | member
  · decide
  rcases List.mem_cons.mp member with rfl | member
  · decide
  have part := known.2 c member
  simp only [Bool.or_eq_true, beq_iff_eq] at part
  rcases part with (part | rfl) | rfl
  · simp [Token.isPlain, part]
  · decide
  · decide

theorem spells_path {field : String} (known : isFieldPath field = true) :
    Spells quoting (pathWord field) [.word (pathWord field)] :=
  Token.spells_word (is_word_of_path known)

theorem path_of_word {field : String} (known : isFieldPath field = true) :
    path? (pathWord field) = some (eventVariable, field) := by
  have filled : field ≠ "" := by
    simp only [isFieldPath, Bool.and_eq_true, Bool.not_eq_true'] at known
    simpa using known.1.1.1
  have named : Named.isIdentifier eventVariable = true := by decide
  have event : String.ofList ['e'] = eventVariable := by decide
  simp [path?, after?, to_list_path_word, event, named, filled]

theorem reads_path {field : String} (known : isFieldPath field = true) (next : List Lexeme) :
    Reads path [.word (pathWord field)] (eventVariable, field) next := by
  apply reads_cons
  intro offset
  apply reads_nil
  intro rest _
  simp [path, path_of_word known]

theorem spells_pattern (pattern : String) :
    Spells quoting (patternText pattern) [.quoted pattern] := by
  rw [patternText]
  by_cases tick : Text.containsChar pattern '\x60' = true
  · rw [if_pos tick]
    exact Token.spells_double_quote pattern
  · rw [if_neg tick]
    intro rest others _ scans
    have plain : '\x60' ∉ pattern.toList := by simpa [Text.containsChar] using tick
    have whole := Token.scans_backticked rfl plain scans
    simpa using whole

/-- A text between the marks of a quotation. -/
def quotation (text : List Char) : List Char := '\\' :: 'Q' :: text ++ ['\\', 'E']

theorem last_of_quotation (text : List Char) : (quotation text).getLast? = some 'E' := by
  rw [quotation, List.getLast?_append]
  rfl

theorem text_of_quotation (text : List Char) :
    ((quotation text).drop 2).take ((quotation text).length - 4) = text := by
  simp [quotation]

/-- The operator of a quoted text with these anchors. -/
def anchoredOperator : Bool → Bool → Operator
  | false, false => .contains
  | true, false => .startsWith
  | false, true => .endsWith
  | true, true => .equals

theorem quoted_text_of_quotation {pattern : String} {text : List Char} (atStart atEnd : Bool)
    (same : pattern.toList = (if atStart then ['^'] else []) ++ quotation text ++
      if atEnd then ['$'] else [])
    (unquoted : Text.occursIn ['\\', 'E'] text = false) :
    quotedText? pattern = some (anchoredOperator atStart atEnd, String.ofList text) := by
  have last := last_of_quotation text
  have inner := text_of_quotation text
  have start : (quotation text).head? = some '\\' := rfl
  have front (others : List Char) : (quotation text ++ others).head? = some '\\' := rfl
  have marks : quotation text = '\\' :: 'Q' :: (text ++ ['\\', 'E']) := rfl
  cases atStart with
  | false =>
      cases atEnd with
      | false =>
          simpa [quotedText?, same, anchoredOperator, start, last, inner, unquoted] using marks
      | true =>
          simpa [quotedText?, same, anchoredOperator, front, inner, unquoted] using marks
  | true =>
      cases atEnd with
      | false =>
          simpa [quotedText?, same, anchoredOperator, last, inner, unquoted] using marks
      | true =>
          simpa [quotedText?, same, anchoredOperator, inner, unquoted] using marks

/-- The pattern of a test for a text says which test it was. -/
theorem quoted_text_pattern {op : Operator} {text : String}
    (operator : op = .contains ∨ op = .startsWith ∨ op = .endsWith)
    (unquoted : Text.contains text "\\E" = false) :
    quotedText? (textPattern op text) = some (op, text) := by
  have inside : Text.occursIn ['\\', 'E'] text.toList = false := by
    simpa [Text.contains] using unquoted
  have written : String.ofList text.toList = text := String.ofList_toList
  rcases operator with rfl | rfl | rfl
  · have shape : textPattern .contains text = "\\Q" ++ text ++ "\\E" := by
      simp [textPattern, unquoted]
    rw [shape, quoted_text_of_quotation false false (by simp [quotation]) inside, written]
    rfl
  · have shape : textPattern .startsWith text = "^\\Q" ++ text ++ "\\E" := by
      simp [textPattern, unquoted]
    rw [shape, quoted_text_of_quotation true false (by simp [quotation]) inside, written]
    rfl
  · have shape : textPattern .endsWith text = "\\Q" ++ text ++ "\\E$" := by
      simp [textPattern, unquoted]
    rw [shape, quoted_text_of_quotation false true (by simp [quotation]) inside, written]
    rfl

theorem quoted_text_front {pattern : String} (quoted : quotedText? pattern ≠ none) :
    ∃ rest, pattern.toList = '\\' :: 'Q' :: rest ∨ pattern.toList = '^' :: '\\' :: 'Q' :: rest := by
  have fronts (characters : List Char) (text : List Char)
      (same : (if characters.getLast? == some '$' then characters.dropLast else characters) =
        '\\' :: 'Q' :: text) : ∃ rest, characters = '\\' :: 'Q' :: rest := by
    by_cases closed : (characters.getLast? == some '$') = true
    · rw [if_pos closed] at same
      obtain ⟨others, split⟩ := List.getLast?_eq_some_iff.mp (beq_iff_eq.mp closed)
      rw [split, List.dropLast_concat] at same
      exact ⟨text ++ ['$'], by rw [split, same]; rfl⟩
    · rw [if_neg closed] at same
      exact ⟨text, same⟩
  simp only [quotedText?, ne_eq, ite_eq_right_iff, reduceCtorEq, imp_false, not_not,
    Bool.and_eq_true, beq_iff_eq, List.cons_append] at quoted
  by_cases opened : pattern.toList.head? = some '^'
  · obtain ⟨others, split⟩ := List.head?_eq_some_iff.mp opened
    obtain ⟨rest, same⟩ := fronts _ _ (by simpa [opened] using quoted.1)
    rw [split, List.tail_cons] at same
    exact ⟨rest, .inr (by rw [split, same])⟩
  · obtain ⟨rest, same⟩ := fronts _ _ (by simpa [opened] using quoted.1)
    exact ⟨rest, .inl same⟩

/-- No regular expression begins like a quotation. -/
theorem quoted_text_of_valid {pattern : String} (valid : Regex.isValid pattern = true) :
    quotedText? pattern = none := by
  by_contra quoted
  obtain ⟨rest, front | front⟩ := quoted_text_front quoted
  · rw [Regex.isValid, front] at valid
    simp [Regex.height?, Regex.Mode.skip, Regex.Reading.step?, Regex.escape?, Char.isDigit] at valid
  · rw [Regex.isValid, front] at valid
    simp [Regex.height?, Regex.Mode.skip, Regex.Reading.step?, Regex.escape?, Char.isDigit,
      Regex.Reading.atom?, Regex.Atom.isLegal, Regex.Reading.add] at valid

theorem spells_value (value : Value) : Spells quoting (valueText value) [value.lexeme] := by
  cases value with
  | int number => exact Token.spells_int64 number
  | str text => exact Token.spells_double_quote text

theorem spells_call {field : String} (known : isFieldPath field = true) (pattern : String) :
    Spells quoting ("re.regex(" ++ pathWord field ++ ", " ++ patternText pattern ++ ")")
      (callLexemes field pattern) := by
  have inner := Token.connects_comma (spells_path known) (spells_pattern pattern)
  have whole := @Token.spells_plain_call quoting "re.regex" "re.regex(" _ _ (by simp) (by simp)
    (by simp [Token.isPlain]) inner
  simpa only [callLexemes, String.append_assoc, List.cons_append, List.nil_append] using whole

theorem spells_equality {field : String} (known : isFieldPath field = true) (value : Value) :
    Spells quoting (pathWord field ++ " = " ++ valueText value)
      [.word (pathWord field), .symbol "=", value.lexeme] :=
  Token.connects_equal (spells_path known) (spells_value value)

theorem spells_comparison {test : FieldTest} (proper : test.Proper)
    (known : isFieldPath test.field = true) (comparison : test.op.isComparison = true) :
    Spells quoting (pathWord test.field ++ " " ++ test.op.sign?.getD ">" ++ " " ++
        (test.values.head?.getD (.str "")).text) (testLexemes test) := by
  obtain ⟨number, single⟩ := proper.compared comparison
  rw [testLexemes, if_pos comparison, single]
  have whole := Token.connects_operator comparison (spells_path known) (Token.spells_int64 number)
  simpa [String.append_assoc] using whole

theorem spells_test {test : FieldTest} {text : String} (proper : test.Proper)
    (rendered : renderTest test = .ok text) :
    Spells quoting text (testLexemes test) ∧ isFieldPath test.field = true := by
  obtain ⟨path, written, rendered⟩ := Success.of_bind rendered
  obtain ⟨known, rfl⟩ := path_text_ok written
  refine ⟨?_, known⟩
  obtain ⟨field, op, values⟩ := test
  have alternatives {single : Value → String}
      (spells : ∀ value, Spells quoting (single value) (singleLexemes ⟨field, op, values⟩ value))
      (rendered : Expression.renderAlternatives disjunctionText
        (fun test => .ok (single (test.values.head?.getD (.str "")))) ⟨field, op, values⟩ =
          .ok text) :
      Spells quoting text
        (alternativesIn [.word "or"] (singleLexemes ⟨field, op, values⟩) values) := by
    refine Expression.spells_alternatives Token.connects_or proper.filled ?_ rendered
    intro value _ text single
    cases single
    exact spells value
  cases op with
  | equals => exact alternatives (spells_equality known) rendered
  | contains | startsWith | endsWith | regex =>
      exact alternatives (fun value => spells_call known _) rendered
  | gt | gte | lt | lte =>
      cases rendered
      exact spells_comparison proper known rfl

def EndsTest (next : List Lexeme) : Prop := next.head? ≠ some (.word "nocase")

theorem reads_with_case (test : FieldTest) {next : List Lexeme} (ends : EndsTest next) :
    Reads (withCase test) [] test next := by
  apply reads_bind_last (Parser.reads_no_word ends)
  exact reads_pure _ _

def patternTest (field pattern : String) : FieldTest :=
  match quotedText? pattern with
  | some (op, text) => .single field op (.str text)
  | none => .single field .regex (.str pattern)

theorem reads_call {field pattern : String} {next : List Lexeme}
    (known : isFieldPath field = true)
    (valid : quotedText? pattern = none → Regex.isValid pattern = true) (ends : EndsTest next) :
    Reads predicate (callLexemes field pattern)
      (.term (.test eventVariable (patternTest field pattern))) next := by
  apply reads_bind_nil
  · apply Parser.reads_sees
    intro tokens same
    obtain ⟨name, rest, rfl, restSame⟩ := Parser.cons_of_lexemes same
    obtain ⟨opening, others, rfl, _⟩ := Parser.cons_of_lexemes restSame
    rfl
  rw [if_pos (by decide)]
  apply reads_bind_cons (Parser.reads_skip _ _)
  apply reads_bind_cons (Parser.reads_sign "(" _)
  apply reads_bind_cons (reads_path known _)
  apply reads_bind_cons (Parser.reads_sign "," _)
  apply Parser.reads_bind_quoted
  intro offset
  apply reads_bind_cons (Parser.reads_sign ")" _)
  cases found : quotedText? pattern with
  | some quoted =>
      simp only [patternTest, found]
      apply reads_bind_nil (reads_pure _ _)
      apply reads_bind_last (reads_with_case _ ends)
      exact reads_pure _ _
  | none =>
      simp only [patternTest, found]
      apply reads_bind_nil (Dialect.reads_ensure_regex_or (valid found) _ _ _)
      apply reads_bind_nil (reads_pure _ _)
      apply reads_bind_last (reads_with_case _ ends)
      exact reads_pure _ _

theorem not_placeholder_of_number (number : Int64) :
    placeholder? (Value.int number).text = none := by
  have first : after? '$' (Value.int number).text = none := by
    rw [after?]
    rcases Text.to_list_int number.toInt with ⟨amount, _, text⟩ | ⟨amount, _, text⟩
    · rw [Value.text, text]
      obtain ⟨c, rest, digits⟩ := List.exists_cons_of_ne_nil (@Nat.toDigits_ne_nil amount 10)
      have digit := Nat.isDigit_of_mem_toDigits (by omega) (by omega) (digits ▸ List.mem_cons_self)
      have other : c ≠ '$' := by
        rintro rfl
        exact absurd digit (by decide)
      simp [digits, other]
    · rw [Value.text, text]
      simp
  rw [placeholder?, first, ite_self]

theorem reads_equal_value {field : String} (value : Value) {next : List Lexeme}
    (ends : EndsTest next) :
    Reads (equality eventVariable field false) [value.lexeme]
      (.term (.test eventVariable (.single field .equals value))) next := by
  apply reads_cons
  intro offset
  apply reads_nil
  intro rest follows
  have cased := reads_with_case (.single field .equals value) ends [] rest rfl follows
  rw [List.nil_append] at cased
  cases value with
  | str text =>
      simp [equality, equality.finish, Value.lexeme, cased]
  | int number =>
      have plain := not_placeholder_of_number number
      have known : Text.int64OfText? (Value.int number).text = some number :=
        Text.int64_of_text number
      simp [equality, equality.finish, Value.lexeme, cased, plain, wordValue, known]

/-- A test that begins with a path is no call. -/
theorem reads_path_test {field : String} {head : Lexeme} {tail next : List Lexeme}
    {result : Logic Predicate} (known : isFieldPath field = true)
    (reads : Reads (do
        if ← Parser.takeSign "=" then equality eventVariable field false
        else if ← Parser.takeSign "!=" then equality eventVariable field true
        else match ← Dialect.takeComparison? with
          | some op => return .term (.test eventVariable (.single field op (← Parser.integer)))
          | none => Parser.expected "a comparison operator") (head :: tail) result next) :
    Reads predicate (.word (pathWord field) :: head :: tail) result next := by
  have other : pathWord field ≠ "re.regex" := by simp [path_word_eq_iff]
  apply reads_bind_nil
  · apply @Parser.reads_sees _ _ false
    intro tokens same
    obtain ⟨offset, rest, rfl, _⟩ := Parser.cons_of_lexemes same
    simp only [Parser.next_is_word_word, beq_eq_false_iff_ne.mpr other, Bool.false_and]
  rw [if_neg (by simp)]
  exact reads_bind_cons (reads_path known _) reads

theorem reads_equality {field : String} (known : isFieldPath field = true) (value : Value)
    {next : List Lexeme} (ends : EndsTest next) :
    Reads predicate [.word (pathWord field), .symbol "=", value.lexeme]
      (.term (.test eventVariable (.single field .equals value))) next := by
  apply reads_path_test known
  apply reads_bind_cons (Parser.reads_take_sign "=" _)
  exact reads_equal_value value ends

theorem reads_comparison {test : FieldTest} (proper : test.Proper)
    (known : isFieldPath test.field = true) (comparison : test.op.isComparison = true)
    (next : List Lexeme) :
    Reads predicate (testLexemes test) (.term (.test eventVariable test)) next := by
  obtain ⟨number, single⟩ := proper.compared comparison
  obtain ⟨field, op, values⟩ := test
  cases single
  rw [testLexemes, if_pos comparison]
  apply reads_path_test known
  apply reads_cons
  intro signOffset
  apply reads_cons
  intro offset
  apply reads_nil
  intro rest _
  have number : Text.int64OfText? (Value.int number).text = some number :=
    Text.int64_of_text number
  cases op <;> simp [Operator.isComparison] at comparison <;>
    simp [Parser.takeSign, Dialect.takeComparison?, Operator.sign?, Operator.ofSign?,
      Parser.integer, number, FieldTest.single]

end DetectionRules.YaraL
