import DetectionRules.Proofs.CrowdStrike.Pattern
import DetectionRules.Proofs.Glob

/-!
Tests of CrowdStrike queries are read as they are written. A test with several
values is a call of `in` or several tests with one value each. Text that is
looked for in the whole event stands alone, so what follows it decides whether
it is read.
-/

namespace DetectionRules.CrowdStrike

open Expression (Wording alternativesIn)
open DetectionRules.Parser (Reads reads_bind reads_bind_cons reads_bind_nil reads_bind_last
  reads_bind_offset reads_pure reads_cons reads_nil)
open Token (Spells joined)

/-- Whether a test looks for text in the whole event. -/
def isFree (test : FieldTest) : Bool := test.op = .contains && test.field = rawField

/-- A value as a glob, without quotes. -/
def globOf (op : Operator) (value : Value) : String :=
  String.ofList ((Glob.ofOperator? '*' value.text.toList op).getD value.text.toList)

/-- Whether a value needs quotes; a number that is compared for equality never has them. -/
def isQuoted : Operator → Value → Bool
  | .equals, .int _ => false
  | op, value => !isBareGlob op (globOf op value)

def globLexeme (op : Operator) (value : Value) : Lexeme :=
  if isQuoted op value then .quoted (globOf op value) else .word (globOf op value)

def listLexemes (op : Operator) (values : List Value) : List Lexeme :=
  .symbol "[" :: joined [.symbol ","] (fun value => [globLexeme op value]) values ++ [.symbol "]"]

def globTestLexemes (test : FieldTest) : List Lexeme :=
  match test.values with
  | [value] => [.word test.field, .symbol "=", globLexeme test.op value]
  | values => .word "in" :: .symbol "(" ::
      ((.word "field" :: .symbol "=" :: [.quoted test.field]) ++ [.symbol ","] ++
        (.word "values" :: .symbol "=" :: listLexemes test.op values)) ++ [.symbol ")"]

def patternTestLexemes (test : FieldTest) (value : Value) : List Lexeme :=
  [.word test.field, .symbol "=", patternLexeme value.text]

def testLexemes (test : FieldTest) : List Lexeme :=
  match test.op with
  | .regex => alternativesIn [.word "or"] (patternTestLexemes test) test.values
  | .gt | .gte | .lt | .lte => [.word test.field, .symbol (test.op.sign?.getD ">"),
      .word (test.values.head?.elim "" (·.text))]
  | .contains =>
      if test.field = rawField then
        alternativesIn [.word "or"] (fun value => [.quoted value.text]) test.values
      else globTestLexemes test
  | .equals | .startsWith | .endsWith => globTestLexemes test

def wording : Wording FieldTest where
  term := testLexemes
  conjunction := []
  disjunction := [.word "or"]
  negation := fun inner => .word "not" :: inner

/-- What is read back for one value: only equality tells numbers from text. -/
def readValue (op : Operator) (value : Value) : Value :=
  if op = .equals then value else .str value.text

def readTest (test : FieldTest) (value : Value) : FieldTest :=
  .single test.field test.op (readValue test.op value)

def testTree (test : FieldTest) : Logic FieldTest :=
  if test.op.isComparison then .term test else FieldTest.alternatives (readTest test) test.values

/-- Words that are no connectives. -/
def isFieldWord (word : String) : Bool :=
  ["and", "or", "not"].all (!Text.sameLetters word ·)

/-- Tests that are written and read back wherever they stand, but for free text. -/
structure Writable (test : FieldTest) : Prop where
  proper : test.Proper
  word : isFieldWord test.field = true
  written : ∃ text, renderTest test = .ok text
  patterns : test.op = .regex → ∀ value ∈ test.values,
    Regex.isValid value.text = true ∧ isSlashable value.text.toList = true
  filled : ∀ value ∈ test.values, value.text = "" →
    test.op = .equals ∨ test.op = .regex ∨ isFree test = true

theorem plain_of_field {field : String} (plain : isPlainField field = true) :
    ∀ c ∈ field.toList, Token.isPlain c = true := by
  rw [isPlainField, Bool.and_eq_true, List.all_eq_true] at plain
  intro c member
  have part := plain.2 c member
  rw [Bool.or_eq_true, List.contains_iff_mem] at part
  rcases part with part | part
  · simp [Token.isPlain, part]
  · have cases : c ∈ ['_', '.', '#', '@', ':', '-'] := part
    fin_cases cases <;> decide

theorem is_word_of_plain_field {field : String} (plain : isPlainField field = true) :
    Token.IsWord quoting field.toList := by
  apply Token.is_word_of_plain _ (plain_of_field plain)
  rw [isPlainField, Bool.and_eq_true] at plain
  simpa using plain.1

theorem field_text_ok {field text : String} (written : fieldText field = .ok text) :
    text = field ∧ isPlainField field = true := by
  rw [fieldText] at written
  by_cases plain : isPlainField field = true
  · rw [if_pos plain] at written
    cases written
    exact ⟨rfl, plain⟩
  · rw [if_neg plain] at written
    cases written

theorem front_of_bare {op : Operator} {glob : String} (bare : isBareGlob op glob = true) :
    (∀ c ∈ glob.toList, Token.isPlain c = true) ∧ glob.toList ≠ [] := by
  simp only [isBareGlob, Bool.and_eq_true, List.all_eq_true] at bare
  obtain ⟨⟨⟨filled, plain⟩, _⟩, _⟩ := bare
  constructor
  · intro c member
    have part := plain c member
    rw [Bool.or_eq_true, List.contains_iff_mem] at part
    rcases part with part | part
    · simp [Token.isPlain, part]
    · have cases : c ∈ ['_', '.', '-', ':', '\\', '*'] := part
      fin_cases cases <;> decide
  · simpa using filled

theorem front_of_plain {text : String} (plain : ∀ c ∈ text.toList, Token.isPlain c = true)
    (filled : text.toList ≠ []) :
    ∃ c ∈ text.toList.head?, c ≠ '=' ∧ c ≠ '~' ∧ c ≠ '>' := by
  obtain ⟨c, rest, written⟩ := List.exists_cons_of_ne_nil filled
  have first := plain c (by simp [written])
  refine ⟨c, by simp [written], ?_, ?_, ?_⟩
  all_goals
    rintro rfl
    revert first
    decide

theorem front_of_int (number : Int64) :
    (∃ c ∈ (Value.int number).text.toList.head?, c ≠ '=' ∧ c ≠ '~' ∧ c ≠ '>') ∧
      '*' ∉ (Value.int number).text.toList := by
  refine ⟨Token.front_of_int64 number, fun star => ?_⟩
  rcases Value.of_mem_int_text star with digit | minus
  · revert digit
    decide
  · cases minus

theorem glob_of_int (number : Int64) :
    globOf .equals (.int number) = (Value.int number).text := by
  simp [globOf, Glob.ofOperator?]

theorem glob_text_ok {op : Operator} {value : Value} {text : String}
    (written : globText op value = .ok text) :
    '*' ∉ value.text.toList ∧ Spells quoting text [globLexeme op value] ∧
      ∃ c ∈ text.toList.head?, c ≠ '=' ∧ c ≠ '~' ∧ c ≠ '>' := by
  unfold globText at written
  split at written
  · rename_i number
    cases written
    rw [globLexeme, isQuoted, if_neg (by simp), glob_of_int]
    exact ⟨(front_of_int number).2, Token.spells_int64 number, (front_of_int number).1⟩
  · rename_i noInt
    by_cases star : Text.containsChar value.text '*' = true
    · rw [if_pos star] at written
      cases written
    · rw [if_neg star] at written
      have quoted : isQuoted op value = !isBareGlob op (globOf op value) := by
        unfold isQuoted
        split
        · rename_i number
          exact absurd rfl (noInt number rfl)
        · rfl
      refine ⟨by simpa [Text.containsChar] using star, ?_⟩
      change Except.ok (if isBareGlob op (globOf op value) then globOf op value
        else Text.doubleQuote (globOf op value)) = _ at written
      cases written
      rw [globLexeme, quoted]
      by_cases bare : isBareGlob op (globOf op value) = true
      · obtain ⟨plain, filled⟩ := front_of_bare bare
        rw [if_pos bare, if_neg (by simp [bare])]
        exact ⟨Token.spells_plain filled plain, front_of_plain plain filled⟩
      · rw [if_neg bare, if_pos (by simp [bare])]
        exact ⟨Token.spells_double_quote _, '"', by simp [Text.doubleQuote], by decide⟩

theorem spells_assigned {word text : String} {lexemes : List Lexeme}
    (plain : ∀ c ∈ word.toList, Token.isPlain c = true) (filled : word.toList ≠ [])
    (front : ∃ c ∈ text.toList.head?, c ≠ '=' ∧ c ≠ '~' ∧ c ≠ '>')
    (spells : Spells quoting text lexemes) :
    Spells quoting (word ++ "=" ++ text) (.word word :: .symbol "=" :: lexemes) :=
  Token.spells_compared (Token.is_word_of_plain filled plain) (by simp) front spells

theorem spells_list {op : Operator} {globs : List String} {values : List Value}
    (filled : values ≠ [])
    (each : List.Forall₂ (fun text value => Spells quoting text [globLexeme op value])
      globs values) :
    Spells quoting ("[" ++ String.intercalate ", " globs ++ "]") (listLexemes op values) :=
  Token.spells_brackets (Token.spells_intercalate Token.connects_comma each filled)

theorem spells_membership {field list : String} {lexemes : List Lexeme}
    (front : list.toList.head? = some '[') (spells : Spells quoting list lexemes) :
    Spells quoting ("in(field=" ++ Text.doubleQuote field ++ ", values=" ++ list ++ ")")
      (.word "in" :: .symbol "(" :: ((.word "field" :: .symbol "=" :: [.quoted field]) ++
        [.symbol ","] ++ (.word "values" :: .symbol "=" :: lexemes)) ++ [.symbol ")"]) := by
  have field := @spells_assigned "field" _ _ (by simp [Token.isPlain]) (by simp)
    ⟨'"', by simp [Text.doubleQuote], by decide⟩ (Token.spells_double_quote field)
  have values := @spells_assigned "values" _ _ (by simp [Token.isPlain]) (by simp)
    ⟨'[', by simp [front], by decide⟩ spells
  have isWord : Token.IsWord quoting "in".toList :=
    Token.is_word_of_plain (by simp) (by simp [Token.isPlain])
  have whole := Token.spells_call isWord (Token.connects_comma field values)
  have opening : "in(field=" = "in" ++ "(" ++ "field" ++ "=" := by simp
  have comma : ", values=" = ", " ++ "values" ++ "=" := by simp
  rw [opening, comma]
  simpa only [String.append_assoc] using whole

theorem spells_glob_test {test : FieldTest} {text : String} (filled : test.values ≠ [])
    (plain : isPlainField test.field = true) (written : globTest test = .ok text) :
    Spells quoting text (globTestLexemes test) := by
  obtain ⟨field, op, values⟩ := test
  rw [globTest] at written
  obtain ⟨globs, globsWritten, written⟩ := Success.of_bind written
  have each := Success.of_map_m (fun _ _ _ => glob_text_ok) globsWritten
  match globs, values, each with
  | [], [], _ => exact absurd rfl filled
  | [glob], [value], .cons first .nil =>
      cases written
      exact Token.spells_compared (is_word_of_plain_field plain) (by simp) first.2.2 first.2.1
  | glob :: second :: others, value :: next :: values, each =>
      cases written
      have list := spells_list (by simp) (each.imp fun _ _ glob => glob.2.1)
      have whole := @spells_membership field _ _ (by simp) list
      have closing : "])" = "]" ++ ")" := by simp
      have opening : ", values=[" = ", values=" ++ "[" := by simp
      rw [closing, opening]
      simpa only [String.append_assoc, globTestLexemes] using whole

theorem spells_comparison {test : FieldTest} (proper : test.Proper)
    (comparison : test.op.isComparison = true) (plain : isPlainField test.field = true) :
    Spells quoting (test.field ++ test.op.sign?.getD ">" ++ firstText test)
      [.word test.field, .symbol (test.op.sign?.getD ">"),
        .word (test.values.head?.elim "" (·.text))] := by
  obtain ⟨number, single⟩ := proper.compared comparison
  have known : test.op.sign?.getD ">" ∈ ["==", "=", "!=", ">", ">=", "<", "<="] := by
    cases found : test.op <;> simp [found, Operator.sign?, Operator.isComparison] at comparison ⊢
  rw [firstText, single]
  exact Token.spells_compared (is_word_of_plain_field plain) known (front_of_int number).1
    (Token.spells_int64 number)

theorem spells_test {test : FieldTest} {text : String} (writable : Writable test)
    (written : renderTest test = .ok text) : Spells quoting text (testLexemes test) := by
  obtain ⟨field, op, values⟩ := test
  rw [renderTest] at written
  obtain ⟨known, fieldWritten, written⟩ := Success.of_bind written
  obtain ⟨rfl, plain⟩ := field_text_ok fieldWritten
  cases op with
  | equals | startsWith | endsWith => exact spells_glob_test writable.proper.filled plain written
  | contains =>
      by_cases free : known = rawField
      · simp only [testLexemes, if_pos free] at written ⊢
        apply Expression.spells_alternatives Token.connects_or writable.proper.filled _ written
        intro value _ text single
        cases single
        exact Token.spells_double_quote value.text
      · simp only [testLexemes, if_neg free] at written ⊢
        exact spells_glob_test writable.proper.filled plain written
  | regex =>
      apply Expression.spells_alternatives Token.connects_or writable.proper.filled _ written
      intro value member text single
      cases single
      have slashable := (writable.patterns rfl value member).2
      exact Token.spells_compared (is_word_of_plain_field plain) (by simp)
        ⟨'/', front_of_slashed value.text, by decide⟩ (spells_pattern slashable)
  | gt | gte | lt | lte =>
      have whole := spells_comparison writable.proper rfl plain
      rw [← Except.ok.inj written]
      exact whole

def isGlobbed : Operator → Bool
  | .equals | .contains | .startsWith | .endsWith => true
  | _ => false

theorem of_glob {op : Operator} {value : Value} (globbed : isGlobbed op = true)
    (plain : '*' ∉ value.text.toList) (filled : op ≠ .equals → value.text ≠ "") (field : String) :
    FieldTest.ofGlob field '*' (globOf op value) = .single field op
      (if op = .equals then Value.ofLiteral value.text else .str value.text) := by
  obtain ⟨glob, written⟩ : ∃ glob, Glob.ofOperator? '*' value.text.toList op = some glob := by
    cases op <;> first | exact ⟨_, rfl⟩ | exact absurd globbed (by decide)
  rw [globOf, written, Option.getD_some]
  exact Glob.test_of_glob plain filled written field

theorem star_in_glob {op : Operator} {value : Value} (globbed : isGlobbed op = true)
    (other : op ≠ .equals) : '*' ∈ (globOf op value).toList := by
  cases op <;> first
    | exact absurd rfl other
    | exact absurd globbed (by decide)
    | simp [globOf, Glob.ofOperator?]

theorem of_literal_bare {text : String} (bare : isBareGlob .equals text = true) :
    Value.ofLiteral text = .str text := by
  simp only [isBareGlob, Bool.and_eq_true] at bare
  have noNumber : (Value.ofLiteral text).int? = none := by simpa using bare.1.2
  unfold Value.ofLiteral at noNumber ⊢
  split
  · rename_i number found
    simp [found, Value.int?] at noNumber
  · rfl

/-- The literal of a glob stands for the test it was written for. -/
theorem literal_test_of_glob {op : Operator} {value : Value} (globbed : isGlobbed op = true)
    (plain : '*' ∉ value.text.toList) (filled : op ≠ .equals → value.text ≠ "")
    (field : String) (offset : Option Nat) :
    literalTest field ⟨globOf op value, isQuoted op value, offset⟩ =
      .single field op (readValue op value) := by
  have read := of_glob globbed plain filled field
  by_cases equals : op = .equals
  · subst equals
    have glob : globOf .equals value = value.text := by simp [globOf, Glob.ofOperator?]
    rw [if_pos rfl, glob] at read
    have noStar : Text.containsChar value.text '*' = false := by
      simpa [Text.containsChar] using plain
    rw [literalTest, glob, readValue, if_pos rfl]
    cases value with
    | int number => simpa [isQuoted, Value.of_literal_int] using read
    | str text =>
        by_cases bare : isBareGlob .equals text = true
        · have unquoted : isQuoted .equals (.str text) = false := by
            rw [isQuoted, glob]
            · simpa [Value.text] using bare
            · simp
          rw [unquoted, Bool.false_and, if_neg (by simp)]
          exact read.trans (congrArg _ (of_literal_bare bare))
        · have quoted : isQuoted .equals (.str text) = true := by
            rw [isQuoted, glob]
            · simpa [Value.text] using bare
            · simp
          rw [quoted, noStar]
          rfl
  · have star := @star_in_glob op value globbed equals
    rw [if_neg equals] at read
    simp [literalTest, readValue, equals, Text.containsChar, star, read]

theorem literal_apply (what : String) (op : Operator) (value : Value) (offset : Nat)
    (rest : List Token) :
    Parser.literal what (⟨globLexeme op value, offset⟩ :: rest) =
      .ok (⟨globOf op value, isQuoted op value, some offset⟩, rest) := by
  unfold globLexeme
  cases isQuoted op value with
  | true => exact Parser.literal_quoted what _ offset rest
  | false => exact Parser.literal_word what _ offset rest

/-- What makes a test a glob that is read back. -/
structure Globbed (test : FieldTest) : Prop where
  operator : isGlobbed test.op = true
  plain : ∀ value ∈ test.values, '*' ∉ value.text.toList
  filled : ∀ value ∈ test.values, test.op ≠ .equals → value.text ≠ ""

theorem reads_glob {test : FieldTest} {value : Value} (globbed : Globbed test)
    (member : value ∈ test.values) (next : List Lexeme) :
    Reads (equalityTest test.field) [globLexeme test.op value] (readTest test value) next := by
  have read := literal_test_of_glob globbed.operator (globbed.plain value member)
    (globbed.filled value member) test.field
  apply reads_cons
  intro offset
  apply reads_nil
  intro rest _
  have literal := literal_apply "a value" test.op value offset rest
  rw [readTest, ← read (some offset)]
  unfold globLexeme at literal ⊢
  cases quoted : isQuoted test.op value with
  | true =>
      simp only [quoted, if_true] at literal
      simp [equalityTest, literal]
  | false =>
      simp only [quoted, Bool.false_eq_true, if_false] at literal
      simp [equalityTest, literal]

theorem reads_field {field sign : String} {tail next : List Lexeme} {result : Logic FieldTest}
    (noCall : sign ≠ "(")
    (reads : ∀ offset, Reads (comparisonOf ⟨field, false, offset⟩) (.symbol sign :: tail)
      result next) :
    Reads term (.word field :: .symbol sign :: tail) result next := by
  apply reads_cons
  intro offset tokens rest same follows
  have read := reads (some offset) tokens rest same follows
  obtain ⟨signOffset, others, rfl, _⟩ := Parser.cons_of_lexemes same
  rw [List.cons_append] at read ⊢
  simp [term, Parser.nextCall?, noCall, read]

theorem reads_equality {test : FieldTest} {lexeme : Lexeme} {value : FieldTest}
    {next : List Lexeme} (reads : Reads (equalityTest test.field) [lexeme] value next) :
    Reads term [.word test.field, .symbol "=", lexeme] (.term value) next := by
  apply reads_field (by simp)
  intro offset
  apply reads_cons
  intro signOffset tokens rest same follows
  have read := reads tokens rest same follows
  simp [comparisonOf, Parser.takeSign, read]

theorem reads_pattern {test : FieldTest} {value : Value} (operator : test.op = .regex)
    (valid : Regex.isValid value.text = true) (next : List Lexeme) :
    Reads term (patternTestLexemes test value) (.term (readTest test value)) next := by
  apply reads_equality
  apply reads_cons
  intro offset
  apply reads_nil
  intro rest _
  obtain ⟨body, flags, same, read⟩ := slashed_regex_apply valid
  rw [same]
  simp [equalityTest, read, readTest, readValue, operator]

theorem reads_comparison {test : FieldTest} (proper : test.Proper)
    (comparison : test.op.isComparison = true) (next : List Lexeme) :
    Reads term [.word test.field, .symbol (test.op.sign?.getD ">"),
      .word (test.values.head?.elim "" (·.text))] (.term test) next := by
  obtain ⟨number, single⟩ := proper.compared comparison
  obtain ⟨field, op, values⟩ := test
  cases single
  have sign : Operator.ofSign? (op.sign?.getD ">") = some op := by
    cases op <;> simp [Operator.sign?, Operator.ofSign?, Operator.isComparison] at comparison ⊢
  have other : op.sign?.getD ">" ≠ "(" ∧ op.sign?.getD ">" ≠ "=" ∧ op.sign?.getD ">" ≠ "!=" := by
    cases op <;> simp [Operator.sign?]
  apply reads_field other.1
  intro offset
  apply reads_cons
  intro signOffset
  apply reads_cons
  intro numberOffset
  apply reads_nil
  intro rest _
  have read : Parser.integer (⟨.word (Value.int number).text, numberOffset⟩ :: rest) =
      .ok (.int number, rest) := by
    simp only [Parser.integer, Parser.bind_apply, Parser.word_at_apply, Value.text,
      Text.int64_of_text, Parser.pure_apply]
  simp [comparisonOf, Parser.takeSign, other.2.1, other.2.2, Dialect.takeComparison?, sign,
    read, FieldTest.single]

def isSign : Lexeme → Bool
  | .symbol _ => true
  | _ => false

/-- What free text may stand before: anything but a sign. -/
def EndsFree (next : List Lexeme) : Prop := next.head?.any isSign = false

theorem reads_free {test : FieldTest} (free : isFree test = true) (value : Value)
    {next : List Lexeme} (ends : EndsFree next) :
    Reads term [.quoted value.text] (.term (readTest test value)) next := by
  have same : test.op = .contains ∧ test.field = rawField := by simpa [isFree] using free
  apply reads_cons
  intro offset
  apply reads_nil
  intro rest follows
  rcases rest with _ | ⟨⟨lexeme, following⟩, others⟩
  · simp [term, Parser.nextCall?, comparisonOf, Parser.takeSign, Dialect.takeComparison?, readTest,
      readValue, same]
  · have noSign : isSign lexeme = false := by
      rw [EndsFree, ← follows] at ends
      exact ends
    cases lexeme with
    | symbol sign => cases noSign
    | word word =>
        simp [term, Parser.nextCall?, comparisonOf, Parser.takeSign, Dialect.takeComparison?,
          readTest, readValue, same]
    | quoted text =>
        simp [term, Parser.nextCall?, comparisonOf, Parser.takeSign, Dialect.takeComparison?,
          readTest, readValue, same]
    | pattern body flags =>
        simp [term, Parser.nextCall?, comparisonOf, Parser.takeSign, Dialect.takeComparison?,
          readTest, readValue, same]

theorem reads_parameter (name : String) (next : List Lexeme) :
    Reads parameter? [.word name, .symbol "="] (some name) next := by
  apply reads_cons
  intro offset
  apply reads_cons
  intro signOffset
  apply reads_nil
  intro rest _
  simp [parameter?, Parser.secondIsSign]

theorem reads_bind_parameter {Next : Type} {continued : Option String → Parser Next}
    (name : String) {lexemes next : List Lexeme} {result : Next}
    (reads : Reads (continued (some name)) lexemes result next) :
    Reads (parameter? >>= continued) (.word name :: .symbol "=" :: lexemes) result next :=
  reads_bind (reads_parameter name _) reads

theorem reads_field_name (field : String) (next : List Lexeme) :
    Reads fieldName [.quoted field] field next := by
  apply reads_cons
  intro offset
  apply reads_nil
  intro rest _
  simp [fieldName]

theorem reads_literal {test : FieldTest} {value : Value} (globbed : Globbed test)
    (member : value ∈ test.values) (next : List Lexeme) :
    Reads (literalTest test.field <$> Parser.literal "a value") [globLexeme test.op value]
      (readTest test value) next := by
  apply reads_cons
  intro offset
  apply reads_nil
  intro rest _
  have read := literal_test_of_glob globbed.operator (globbed.plain value member)
    (globbed.filled value member) test.field (some offset)
  rw [Parser.map_apply, literal_apply]
  exact congrArg (fun found => Except.ok (found, rest)) read

theorem reads_value_list {test : FieldTest} (globbed : Globbed test) (filled : test.values ≠ [])
    (next : List Lexeme) :
    Reads (List.map (literalTest test.field) <$> valueList) (listLexemes test.op test.values)
      (test.values.map (readTest test)) next := by
  have items : Reads (Parser.sepBy comma (literalTest test.field <$> Parser.literal "a value"))
      (joined [.symbol ","] (fun value => [globLexeme test.op value]) test.values)
      (test.values.map (readTest test)) (.symbol "]" :: next) :=
    Parser.reads_commas (fun _ => True) filled
      (fun _ member following _ => reads_literal globbed member following) (fun _ => trivial)
      trivial (by simp)
  have noEnd : Reads (Parser.takeSign "]") [] false
      (joined [.symbol ","] (fun value => [globLexeme test.op value]) test.values ++
        [.symbol "]"] ++ next) := by
    obtain ⟨first, others, found⟩ := List.exists_cons_of_ne_nil filled
    apply Parser.reads_no_sign
    rw [found, joined]
    unfold globLexeme
    cases isQuoted test.op first <;> simp
  rw [← Parser.map_sep_by] at items
  have list : List.map (literalTest test.field) <$> valueList = (do
      Parser.sign "["
      if ← Parser.takeSign "]" then return []
      let values ← List.map (literalTest test.field) <$>
        Parser.sepBy comma (Parser.literal "a value")
      Parser.sign "]"
      return values) := by
    rw [valueList, map_bind]
    apply bind_congr
    intro _
    rw [map_bind]
    apply bind_congr
    intro closed
    cases closed <;> simp
  rw [list]
  apply reads_bind_cons (Parser.reads_sign "[" _)
  apply reads_bind_nil noEnd
  rw [if_neg (by simp)]
  apply reads_bind items
  exact reads_bind_last (Parser.reads_sign "]" _) (reads_pure _ _)

theorem reads_field_argument (field : String) (next : List Lexeme) :
    Reads (membershipArgument (none, [])) [.word "field", .symbol "=", .quoted field]
      (some field, []) next := by
  apply reads_bind_offset
  intro offset
  apply reads_bind_parameter "field"
  exact reads_bind_last (reads_field_name field next) (reads_pure _ _)

/-- Both arguments of `in`: the literals carry the places where they begin, so what is known of
them is the tests they stand for. -/
theorem arguments_apply {test : FieldTest} (globbed : Globbed test) (filled : test.values ≠ [])
    {tokens rest : List Token}
    (same : tokens.map (·.lexeme) = .word "field" :: .symbol "=" :: .quoted test.field ::
      .symbol "," :: .word "values" :: .symbol "=" :: listLexemes test.op test.values)
    (closes : Parser.nextIsSign "," rest = false) :
    ∃ literals, arguments membershipArgument (none, []) (tokens ++ rest) =
        .ok ((some test.field, literals), rest) ∧
      literals.map (literalTest test.field) = test.values.map (readTest test) := by
  obtain ⟨fieldOffset, _, rfl, afterField⟩ := Parser.cons_of_lexemes same
  obtain ⟨equalOffset, _, rfl, afterEqual⟩ := Parser.cons_of_lexemes afterField
  obtain ⟨nameOffset, _, rfl, afterName⟩ := Parser.cons_of_lexemes afterEqual
  obtain ⟨commaOffset, _, rfl, afterComma⟩ := Parser.cons_of_lexemes afterName
  obtain ⟨valuesOffset, _, rfl, afterValues⟩ := Parser.cons_of_lexemes afterComma
  obtain ⟨listOffset, list, rfl, listed⟩ := Parser.cons_of_lexemes afterValues
  have lists := reads_value_list globbed filled (rest.map (·.lexeme))
  obtain ⟨literals, read, tests⟩ := Parser.of_reads_map lists listed (Eq.refl (rest.map _))
  refine ⟨literals, ?_, tests⟩
  have second : membershipArgument (some test.field, [])
      (⟨.word "values", valuesOffset⟩ :: ⟨.symbol "=", listOffset⟩ :: (list ++ rest)) =
        .ok ((some test.field, literals), rest) := by
    simp [membershipArgument, parameter?, Parser.secondIsSign, read]
  have stops : comma rest = .ok (false, rest) := Parser.take_if_false closes
  have first := reads_field_argument test.field _ [⟨.word "field", fieldOffset⟩,
    ⟨.symbol "=", equalOffset⟩, ⟨.quoted test.field, nameOffset⟩] (⟨.symbol ",", commaOffset⟩ :: ⟨.word "values", valuesOffset⟩ :: ⟨.symbol "=", listOffset⟩ ::
      (list ++ rest)) rfl rfl
  simp only [List.cons_append, List.nil_append] at first
  simp only [arguments, List.cons_append, Parser.bind_apply, first]
  have shorter : rest.length < list.length + rest.length + 1 + 1 + 1 := by omega
  rw [Parser.iterate]
  simp only [comma, Parser.takeSign, Parser.bind_apply, Parser.take_if_cons,
    Parser.next_is_sign_symbol, beq_self_eq_true, if_true, second, Parser.pure_apply,
    List.length_cons, List.length_append, shorter]
  rw [Parser.iterate]
  simp only [comma, Parser.takeSign] at stops
  simp [stops]

theorem reads_membership {test : FieldTest} (globbed : Globbed test) (filled : test.values ≠ [])
    (next : List Lexeme) :
    Reads term (.word "in" :: .symbol "(" ::
      ((.word "field" :: .symbol "=" :: [.quoted test.field]) ++ [.symbol ","] ++
        (.word "values" :: .symbol "=" :: listLexemes test.op test.values)) ++ [.symbol ")"])
      (FieldTest.alternatives (readTest test) test.values) next := by
  apply reads_cons
  intro offset
  apply reads_cons
  intro opening tokens rest same follows
  obtain ⟨inside, closing, rfl, insideSame, closingSame⟩ := List.map_eq_append_iff.mp same
  obtain ⟨closingOffset, _, rfl, emptySame⟩ := Parser.cons_of_lexemes closingSame
  obtain rfl := List.map_eq_nil_iff.mp emptySame
  obtain ⟨literals, read, tests⟩ := @arguments_apply test globbed filled inside
    (⟨.symbol ")", closingOffset⟩ :: rest) insideSame (by simp)
  have some : literals ≠ [] := by
    rintro rfl
    exact filled (by simpa using tests.symm)
  have alternatives : literals.map (fun literal => Logic.term (literalTest test.field literal)) =
      test.values.map fun value => Logic.term (readTest test value) := by
    have terms := congrArg (List.map Logic.term) tests
    simpa only [List.map_map, Function.comp_def] using terms
  have name : Text.lower "in" = "in" := by decide
  rw [List.append_assoc, List.singleton_append]
  simp [term, Parser.nextCall?, name, membership, read, some, alternatives, FieldTest.alternatives]

end DetectionRules.CrowdStrike
