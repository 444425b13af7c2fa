import DetectionRules.Dialect.QRadar
import DetectionRules.Proofs.Dialect
import DetectionRules.Proofs.Glob

/-!
Tests of QRadar queries are read as they are written. A column is a word, a text
in quotes or one of the calls that name where events come from, and a test for a
part of a text is a glob.
-/

namespace DetectionRules.QRadar

open Expression (Wording alternativesIn)
open DetectionRules.Parser (Reads reads_bind reads_bind_cons reads_bind_nil reads_bind_last
  reads_pure reads_cons reads_nil)
open Token (Spells Scans joined)

/-- The calls that name where events come from, with their arguments. -/
def calls : List (String × String) :=
  [("LOGSOURCETYPENAME", "devicetype"), ("CATEGORYNAME", "category"),
    ("LOGSOURCENAME", "logsourceid")]

def callText (call : String × String) : String := call.1 ++ "(" ++ call.2 ++ ")"

theorem source_calls_eq : sourceCalls = calls.map callText := by
  decide

def columnLexemes (field : String) : List Lexeme :=
  match calls.find? (callText · == field) with
  | some (name, argument) => [.word name, .symbol "(", .word argument, .symbol ")"]
  | none => if isPlainColumn field then [.word field] else [.quoted field]

def globOf (op : Operator) (value : Value) : String :=
  String.ofList ((Glob.ofOperator? '%' value.text.toList op).getD value.text.toList)

def likeLexemes (test : FieldTest) (value : Value) : List Lexeme :=
  columnLexemes test.field ++ [.word "LIKE", .quoted (globOf test.op value)]

def matchesLexemes (test : FieldTest) (value : Value) : List Lexeme :=
  columnLexemes test.field ++ [.word "MATCHES", .quoted value.text]

def listLexemes (values : List Value) : List Lexeme :=
  .symbol "(" :: joined [.symbol ","] (fun value => [value.lexeme]) values ++ [.symbol ")"]

def testLexemes (test : FieldTest) : List Lexeme :=
  match test.op with
  | .equals =>
      match test.values with
      | [value] => columnLexemes test.field ++ [.symbol "=", value.lexeme]
      | values => columnLexemes test.field ++ .word "IN" :: listLexemes values
  | .gt | .gte | .lt | .lte => columnLexemes test.field ++
      [.symbol (test.op.sign?.getD ">"), .word (test.values.head?.elim "" (·.text))]
  | .contains | .startsWith | .endsWith =>
      alternativesIn [.word "OR"] (likeLexemes test) test.values
  | .regex => alternativesIn [.word "OR"] (matchesLexemes test) test.values

def wording : Wording FieldTest where
  term := testLexemes
  conjunction := [.word "AND"]
  disjunction := [.word "OR"]
  negation := fun inner => .word "NOT" :: inner

/-- The words that are no columns at the start of a test. -/
def reserved : List String :=
  ["NOT", "GROUP", "HAVING", "ORDER", "LIMIT", "LAST", "START", "STOP"]

def isGlobbed : Operator → Bool
  | .contains | .startsWith | .endsWith => true
  | _ => false

/-- Tests that can be written: patterns are regular expressions, parts of texts are not empty and
hold no wildcard, and the column is not taken for a clause. -/
structure Writable (test : FieldTest) : Prop where
  proper : test.Proper
  patterns : test.op = .regex → ∀ value ∈ test.values, Regex.isValid value.text = true
  parts : isGlobbed test.op = true → ∀ value ∈ test.values,
    value.text ≠ "" ∧ '%' ∉ value.text.toList ∧ '_' ∉ value.text.toList
  column : ∀ word ∈ reserved, Text.sameLetters test.field word = false

theorem plain_of_calls {call : String × String} (member : call ∈ calls) :
    (call.1.toList ≠ [] ∧ ∀ c ∈ call.1.toList, Token.isPlain c = true) ∧
      (call.2.toList ≠ [] ∧ ∀ c ∈ call.2.toList, Token.isPlain c = true) := by
  simp only [calls, List.mem_cons, List.not_mem_nil, or_false] at member
  rcases member with rfl | rfl | rfl <;> simp [Token.isPlain]

theorem find_call {field : String} {call : String × String}
    (found : calls.find? (callText · == field) = some call) : call ∈ calls ∧ field = callText call := by
  have same := List.find?_some found
  exact ⟨List.mem_of_find?_eq_some found, by simpa using Eq.symm (by simpa using same)⟩

theorem plain_column_of_call {call : String × String} (member : call ∈ calls) :
    isPlainColumn (callText call) = true := by
  simp only [calls, List.mem_cons, List.not_mem_nil, or_false] at member
  rcases member with rfl | rfl | rfl <;> decide

theorem plain_of_column {field : String} (column : isPlainColumn field = true)
    (noCall : calls.find? (callText · == field) = none) :
    field.toList ≠ [] ∧ ∀ c ∈ field.toList, Token.isPlain c = true := by
  have other : sourceCalls.contains field = false := by
    have others := List.find?_eq_none.mp noCall
    rw [source_calls_eq, ← Bool.not_eq_true, List.contains_iff_mem]
    intro member
    obtain ⟨call, inside, same⟩ := List.mem_map.mp member
    exact others call inside (by simpa using same)
  rw [isPlainColumn, other, Bool.or_false, Bool.and_eq_true, List.all_eq_true] at column
  refine ⟨by simpa using column.1, fun c member => ?_⟩
  have part := column.2 c member
  simp only [Bool.or_eq_true, beq_iff_eq] at part
  rcases part with (part | rfl) | rfl
  · simp [Token.isPlain, part]
  · decide
  · decide

theorem spells_column (field : String) : Spells quoting (column field) (columnLexemes field) := by
  rw [column, columnLexemes]
  cases found : calls.find? (callText · == field) with
  | some call =>
      obtain ⟨member, rfl⟩ := find_call found
      obtain ⟨name, argument⟩ := plain_of_calls member
      rw [if_pos (plain_column_of_call member)]
      exact Token.spells_call (Token.is_word_of_plain name.1 name.2)
        (Token.spells_plain argument.1 argument.2)
  | none =>
      by_cases plain : isPlainColumn field = true
      · obtain ⟨filled, parts⟩ := plain_of_column plain found
        rw [if_pos plain, if_pos plain]
        exact Token.spells_plain filled parts
      · rw [if_neg plain, if_neg plain]
        exact Token.spells_double_quote field

theorem spells_single_quote (text : String) :
    Spells quoting (Text.singleQuote text) [.quoted text] := by
  intro rest others breaks scans
  have ends : rest.head? ≠ some '\'' := by
    intro quote
    have other := breaks '\'' (by simp [quote])
    revert other
    decide
  exact Token.scans_single_quoted rfl ends scans

theorem spells_value (value : Value) : Spells quoting (valueText value) [value.lexeme] := by
  cases value with
  | int number => exact Token.spells_int64 number
  | str text => exact spells_single_quote text

theorem spells_worded {field word text written : String} (plain : word.toList ≠ [])
    (parts : ∀ c ∈ word.toList, Token.isPlain c = true)
    (same : written = " " ++ word ++ " ") :
    Spells quoting (column field ++ written ++ Text.singleQuote text)
      (columnLexemes field ++ [.word word, .quoted text]) := by
  have whole := Token.connects_plain same plain parts (spells_column field)
    (spells_single_quote text)
  rwa [List.append_assoc, List.singleton_append] at whole

theorem spells_like {test : FieldTest} (writable : Writable test)
    (globbed : isGlobbed test.op = true) {value : Value} (member : value ∈ test.values) :
    Spells quoting (globTest (test.withValue value)) (likeLexemes test value) := by
  obtain ⟨_, noPercent, noLine⟩ := writable.parts globbed value member
  have plain : (Text.containsChar value.text '%' || Text.containsChar value.text '_') = false := by
    simp [Text.containsChar, noPercent, noLine]
  have text : ((test.withValue value).values.head?.elim "" (·.text)) = value.text := rfl
  rw [globTest]
  simp only [text, plain, Bool.false_eq_true, if_false]
  exact spells_worded (by simp) (by simp [Token.isPlain]) (by simp)

theorem spells_matches (test : FieldTest) (value : Value) :
    Spells quoting (regexTest (test.withValue value)) (matchesLexemes test value) :=
  spells_worded (by simp) (by simp [Token.isPlain]) (by simp)

theorem connects_or : Token.Connects quoting disjunctionText [.word "OR"] :=
  Token.connects_plain (by simp [disjunctionText]) (by simp) (by simp [Token.isPlain])

theorem connects_and : Token.Connects quoting " AND " [.word "AND"] :=
  Token.connects_plain (by simp) (by simp) (by simp [Token.isPlain])

theorem spells_equality {field text : String} {values : List Value} (filled : values ≠ [])
    (rendered : renderTest ⟨field, .equals, values⟩ = .ok text) :
    Spells quoting text (testLexemes ⟨field, .equals, values⟩) := by
  match values with
  | [] => exact absurd rfl filled
  | [value] =>
      cases rendered
      have whole := Token.connects_equal (spells_column field) (spells_value value)
      simpa [testLexemes, String.append_assoc] using whole
  | first :: second :: others =>
      cases rendered
      have list := Token.spells_intercalate_map Token.connects_comma
        (fun value _ => spells_value value) filled
      have whole := @Token.spells_membership quoting _ "IN" " IN (" _ _ _ (by simp) (by simp)
        (by simp [Token.isPlain]) (spells_column field) list
      simpa only [testLexemes, listLexemes, List.append_assoc, List.cons_append,
        List.nil_append] using whole

theorem spells_comparison {test : FieldTest} (proper : test.Proper)
    (comparison : test.op.isComparison = true) :
    Spells quoting (column test.field ++ " " ++ test.op.sign?.getD ">" ++ " " ++
        test.values.head?.elim "" (·.text))
      (columnLexemes test.field ++
        [.symbol (test.op.sign?.getD ">"), .word (test.values.head?.elim "" (·.text))]) := by
  obtain ⟨number, single⟩ := proper.compared comparison
  rw [single]
  have whole := Token.connects_operator comparison (spells_column test.field)
    (Token.spells_int64 number)
  simpa [String.append_assoc] using whole

theorem spells_test {test : FieldTest} {text : String} (writable : Writable test)
    (rendered : renderTest test = .ok text) : Spells quoting text (testLexemes test) := by
  have proper := writable.proper
  have likes (globbed : isGlobbed test.op = true)
      (rendered : Expression.renderAlternatives disjunctionText (fun test => .ok (globTest test))
        test = .ok text) :
      Spells quoting text (alternativesIn [.word "OR"] (likeLexemes test) test.values) := by
    refine Expression.spells_alternatives connects_or proper.filled ?_ rendered
    rintro value member _ ⟨⟩
    exact spells_like writable globbed member
  obtain ⟨field, op, values⟩ := test
  cases op with
  | equals => exact spells_equality proper.filled rendered
  | contains | startsWith | endsWith => exact likes rfl rendered
  | regex =>
      have rendered : Expression.renderAlternatives disjunctionText
          (fun test => .ok (regexTest test)) ⟨field, .regex, values⟩ = .ok text := rendered
      refine Expression.spells_alternatives connects_or proper.filled ?_ rendered
      rintro value _ _ ⟨⟩
      exact spells_matches _ value
  | gt | gte | lt | lte =>
      cases rendered
      exact spells_comparison proper rfl

/-- The case of letters in a call is the one in which it is kept. -/
theorem call_spelled {call : String × String} (member : call ∈ calls) :
    Text.upper call.1 ++ "(" ++ Text.lower call.2 ++ ")" = callText call ∧
      sourceCalls.contains (callText call) = true := by
  revert call
  decide

theorem reads_column (name : String) {next : List Lexeme}
    (noCall : next.head? ≠ some (.symbol "(")) : Reads field (columnLexemes name) name next := by
  have noSign (rest : List Token) (follows : rest.map (·.lexeme) = next) :
      Parser.takeSign "(" rest = .ok (false, rest) :=
    Parser.take_if_false (Parser.next_is_sign_of_head (by rw [follows]; exact noCall))
  rw [columnLexemes]
  cases found : calls.find? (callText · == name) with
  | some call =>
      obtain ⟨member, rfl⟩ := find_call found
      obtain ⟨letters, isSource⟩ := call_spelled member
      apply reads_cons
      intro word
      apply reads_cons
      intro opening
      apply reads_cons
      intro argument
      apply reads_cons
      intro closing
      apply reads_nil
      intro rest _
      simp only [field, Parser.bind_apply, Parser.literal_word, Parser.takeSign, Parser.take_if_cons,
        Parser.next_is_sign_symbol, beq_self_eq_true, if_true, Parser.word_apply,
        Parser.sign_apply, letters, isSource, Parser.pure_apply]
  | none =>
      by_cases plain : isPlainColumn name = true
      · rw [if_pos plain]
        apply reads_cons
        intro offset
        apply reads_nil
        intro rest follows
        simp [field, noSign rest follows]
      · rw [if_neg plain]
        apply reads_cons
        intro offset
        apply reads_nil
        intro rest follows
        simp [field, noSign rest follows]

theorem reads_value (given : Value) (next : List Lexeme) :
    Reads value [given.lexeme] given next := by
  apply reads_cons
  intro offset
  apply reads_nil
  intro rest _
  cases given with
  | int number => simp [value, Value.lexeme, valueOf, Value.of_literal_int]
  | str text => simp [value, Value.lexeme, valueOf]

theorem reads_value_list {values : List Value} (filled : values ≠ []) (next : List Lexeme) :
    Reads valueList (listLexemes values) (values.foldl Expression.addValue []) next := by
  have items := @Parser.reads_commas _ _ (.symbol ")" :: next) _ (fun _ => True) _ _ _ filled
    (fun given _ following _ => reads_value given following) (fun _ => trivial) trivial (by simp)
  rw [List.map_id'] at items
  apply reads_bind_cons (Parser.reads_sign "(" _)
  apply reads_bind items
  apply reads_bind_cons (Parser.reads_sign ")" _)
  exact reads_pure _ next

/-- Lexemes that begin what is said of a column, without a negation. -/
structure BeginsPredicate (lexeme : Lexeme) : Prop where
  call : lexeme ≠ .symbol "("
  negation : ∀ offset rest, Parser.nextIsKeyword "NOT" (⟨lexeme, offset⟩ :: rest) = false
  unequal : ∀ offset rest, nextIsUnequal (⟨lexeme, offset⟩ :: rest) = false

theorem begins_sign {sign : String} (known : sign ∈ ["=", ">", ">=", "<", "<="]) :
    BeginsPredicate (.symbol sign) := by
  simp only [List.mem_cons, List.not_mem_nil, or_false] at known
  refine ⟨?_, fun _ _ => rfl, fun offset rest => ?_⟩
  · rcases known with rfl | rfl | rfl | rfl | rfl <;> simp
  · rcases known with rfl | rfl | rfl | rfl | rfl <;> simp [nextIsUnequal]

theorem begins_word {word : String} (other : Text.sameLetters word "NOT" = false) :
    BeginsPredicate (.word word) :=
  ⟨by simp, fun _ _ => other, fun _ _ => rfl⟩

theorem reads_test_of {field : String} {head : Lexeme} {tail next : List Lexeme} {test : FieldTest}
    (begins : BeginsPredicate head) (reads : Reads (plainTest field) (head :: tail) test next) :
    Reads term (columnLexemes field ++ head :: tail) (.term test) next := by
  apply reads_bind (reads_column field (by simpa using begins.call))
  intro tokens rest same follows
  have read := reads tokens rest same follows
  obtain ⟨offset, others, rfl, _⟩ := Parser.cons_of_lexemes same
  rw [List.cons_append] at read ⊢
  simp [Parser.takeKeyword, begins.negation, begins.unequal, read]

theorem reads_worded {field word : String} {tail next : List Lexeme} {test : FieldTest}
    (other : Text.sameLetters word "NOT" = false)
    (reads : Reads (wordTest field) (.word word :: tail) test next) :
    Reads term (columnLexemes field ++ .word word :: tail) (.term test) next := by
  apply reads_test_of (begins_word other)
  intro tokens rest same follows
  have read := reads tokens rest same follows
  obtain ⟨offset, others, rfl, _⟩ := Parser.cons_of_lexemes same
  rw [List.cons_append] at read ⊢
  simp [plainTest, Parser.takeSign, Dialect.takeComparison?, read]

theorem reads_equality {field : String} {values : List Value} (filled : values ≠ [])
    (next : List Lexeme) :
    Reads term (testLexemes ⟨field, .equals, values⟩)
      (.term ⟨field, .equals, values.foldl Expression.addValue []⟩) next := by
  match values with
  | [] => exact absurd rfl filled
  | [given] =>
      apply reads_test_of (begins_sign (by simp))
      apply reads_cons
      intro offset tokens rest same follows
      have read := reads_value given next tokens rest same follows
      have alone : [given].foldl Expression.addValue [] = [given] := rfl
      simp [plainTest, Parser.takeSign, read, alone, FieldTest.single]
  | first :: second :: others =>
      apply reads_worded (by decide)
      apply reads_cons
      intro offset tokens rest same follows
      have read := reads_value_list (by simp) next tokens rest same follows
      have word : Text.sameLetters "IN" "IN" = true := by decide
      simp only [wordTest, Parser.bind_apply, Parser.takeKeyword, Parser.take_if_cons,
        Parser.next_is_keyword_word, word, if_true, read, Parser.pure_apply]

theorem reads_comparison {test : FieldTest} (writable : Writable test)
    (comparison : test.op.isComparison = true) (next : List Lexeme) :
    Reads term (columnLexemes test.field ++
        [.symbol (test.op.sign?.getD ">"), .word (test.values.head?.elim "" (·.text))])
      (.term test) next := by
  obtain ⟨number, single⟩ := writable.proper.compared comparison
  obtain ⟨field, op, values⟩ := test
  cases single
  have sign : Operator.ofSign? (op.sign?.getD ">") = some op ∧ op.sign?.getD ">" ≠ "=" ∧
      op.sign?.getD ">" ∈ ["=", ">", ">=", "<", "<="] := by
    cases op <;> simp [Operator.sign?, Operator.ofSign?, Operator.isComparison] at comparison ⊢
  obtain ⟨known, other, member⟩ := sign
  apply reads_test_of (begins_sign member)
  apply reads_cons
  intro signOffset
  apply reads_cons
  intro offset
  apply reads_nil
  intro rest _
  simp [plainTest, Parser.takeSign, other, Dialect.takeComparison?, known, integer, valueOf,
    Value.of_literal_int, FieldTest.single]

theorem reads_like {test : FieldTest} (writable : Writable test)
    (globbed : isGlobbed test.op = true) {value : Value} (member : value ∈ test.values)
    (next : List Lexeme) :
    Reads term (likeLexemes test value) (.term (test.textual value)) next := by
  obtain ⟨filled, plain, _⟩ := writable.parts globbed value member
  obtain ⟨glob, written⟩ : ∃ glob, Glob.ofOperator? '%' value.text.toList test.op = some glob := by
    cases operator : test.op <;> simp_all [isGlobbed, Glob.ofOperator?]
  have other : test.op ≠ .equals := by
    intro equals
    rw [equals] at globbed
    cases globbed
  have read : FieldTest.ofGlob test.field '%' (globOf test.op value) = test.textual value := by
    rw [globOf, written, Option.getD_some, Glob.test_of_glob plain (fun _ => filled) written,
      if_neg other, FieldTest.textual]
  apply reads_worded (by decide)
  apply reads_cons
  intro wordOffset
  apply reads_cons
  intro offset
  apply reads_nil
  intro rest _
  have noList : Text.sameLetters "LIKE" "IN" = false := by decide
  simp [wordTest, Parser.takeKeyword, noList, read]

theorem reads_matches {test : FieldTest} (writable : Writable test) (operator : test.op = .regex)
    {value : Value} (member : value ∈ test.values) (next : List Lexeme) :
    Reads term (matchesLexemes test value) (.term (test.textual value)) next := by
  have valid := writable.patterns operator value member
  apply reads_worded (by decide)
  apply reads_cons
  intro wordOffset
  apply reads_cons
  intro offset
  apply reads_nil
  intro rest _
  have noList : Text.sameLetters "MATCHES" "IN" = false := by decide
  have noGlob : Text.sameLetters "MATCHES" "LIKE" = false := by decide
  have noCase : Text.sameLetters "MATCHES" "ILIKE" = false := by decide
  simp [wordTest, Parser.takeKeyword, noList, noGlob, noCase, regularExpression,
    Dialect.ensureRegex, Dialect.ensure_regex_or valid, FieldTest.textual, operator]

end DetectionRules.QRadar
