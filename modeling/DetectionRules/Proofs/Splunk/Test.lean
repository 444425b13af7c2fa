import DetectionRules.Dialect.Splunk
import DetectionRules.Proofs.Dialect
import DetectionRules.Proofs.Glob

/-!
Tests of Splunk searches are read as they are written, but for one kind. Text
without quotes follows its equality sign at once, and a sign takes a tilde that
comes next. The tests that are written with such a text are `LosesTilde`.
-/

namespace DetectionRules.Splunk

open Expression (Wording alternativesIn)
open DetectionRules.Parser (Reads reads_bind reads_bind_cons reads_bind_nil reads_bind_last
  reads_bind_offset reads_pure reads_cons reads_nil)
open Token (Spells joined)

/-- Searches know no quotes but double ones. -/
abbrev quoting : Quoting := {}

/-- Words that are connectives or operators in any case. -/
def keywords : List String := ["AND", "OR", "NOT", "IN"]

/-- Whether a text is written without quotes. -/
def isBare (text : String) : Bool :=
  !text.isEmpty && text.toList.all (!Token.endsWord quoting ·)
    && keywords.all (!Text.sameLetters text ·)

def textLexeme (text : String) : Lexeme := if isBare text then .word text else .quoted text

theorem quote_eq (text : String) :
    quote text = if isBare text then text else Text.doubleQuote text := by
  have ends (c : Char) : Token.endsWord quoting c =
      (Text.isBlank c || "=!<>()[]\x7b\x7d,|\x22".toList.contains c) := by
    simp [Token.endsWord]
  obtain ⟨special, written, same⟩ : ∃ special : Bool,
      quote text = (if special then Text.doubleQuote text else text) ∧ isBare text = !special := by
    refine ⟨_, rfl, ?_⟩
    rw [isBare, Bool.not_or, Bool.not_or, List.not_any_eq_all_not, List.not_any_eq_all_not]
    simp only [ends, keywords]
  rw [written, same]
  cases special <;> rfl

theorem is_bare_iff {text : String} : isBare text = true ↔
    Token.IsWord quoting text.toList ∧ ∀ word ∈ keywords, Text.sameLetters text word = false := by
  simp only [isBare, Bool.and_eq_true, List.all_eq_true, Bool.not_eq_true']
  constructor
  · rintro ⟨⟨filled, whole⟩, other⟩
    exact ⟨⟨by simpa using filled, whole, nofun⟩, other⟩
  · rintro ⟨isWord, other⟩
    exact ⟨⟨by simpa using isWord.filled, isWord.whole⟩, other⟩

theorem no_keyword {text : String} {c : Char} (start : text.toList.head? = some c)
    (other : c.isAlpha = false) : ∀ word ∈ keywords, Text.sameLetters text word = false := by
  intro word member
  rw [Text.sameLetters, beq_eq_false_iff_ne]
  intro same
  have heads := congrArg List.head? same
  rw [List.head?_map, start, List.head?_map, Option.map_some] at heads
  have letter : c.toLower.isAlpha = true := by
    simp only [keywords, List.mem_cons, List.not_mem_nil, or_false] at member
    rcases member with rfl | rfl | rfl | rfl
    all_goals
      rw [Option.some.inj heads]
      decide
  rw [Char.isAlpha_toLower_eq_isAlpha, other] at letter
  cases letter

/-- Words that begin with a tilde. -/
def IsTildeWord (text : String) : Prop :=
  text.toList.head? = some '~' ∧ ∀ c ∈ text.toList, Token.endsWord quoting c = false

instance (text : String) : Decidable (IsTildeWord text) :=
  inferInstanceAs (Decidable (_ ∧ ∀ c ∈ text.toList, Token.endsWord quoting c = false))

theorem is_tilde_word_iff {text : String} :
    IsTildeWord text ↔ isBare text = true ∧ text.toList.head? = some '~' := by
  rw [is_bare_iff]
  constructor
  · rintro ⟨start, whole⟩
    have filled : text.toList ≠ [] := by
      intro empty
      simp [empty] at start
    exact ⟨⟨⟨filled, whole, nofun⟩, no_keyword start (by decide)⟩, start⟩
  · rintro ⟨⟨isWord, _⟩, start⟩
    exact ⟨start, isWord.whole⟩

theorem is_bare_int (number : Int64) : isBare (Value.int number).text = true := by
  obtain ⟨c, rest, written⟩ := List.exists_cons_of_ne_nil (Value.int_text_filled number)
  rw [is_bare_iff]
  refine ⟨Token.is_word_int64 number, no_keyword (c := c) (by simp [written]) ?_⟩
  rcases @Value.of_mem_int_text number c (by simp [written]) with digit | rfl
  · have bounds : 48 ≤ c.toNat ∧ c.toNat ≤ 57 := by
      simpa [Char.isDigit, UInt32.le_iff_toNat_le] using digit
    simp [Char.isAlpha, Char.isUpper, Char.isLower, UInt32.le_iff_toNat_le]
    omega
  · decide

theorem spells_text (text : String) : Spells quoting (quote text) [textLexeme text] := by
  rw [quote_eq, textLexeme]
  by_cases bare : isBare text = true
  · rw [if_pos bare, if_pos bare]
    exact Token.spells_word (is_bare_iff.mp bare).1
  · rw [if_neg bare, if_neg bare]
    exact Token.spells_double_quote text

def assignedLexemes (field text : String) : List Lexeme :=
  if IsTildeWord text then
    match text.toList.drop 1 with
    | [] => [.word field, .symbol "=~"]
    | rest => [.word field, .symbol "=~", .word (String.ofList rest)]
  else [.word field, .symbol "=", textLexeme text]

theorem spells_assigned {field : String} (isWord : Token.IsWord quoting field.toList)
    (text : String) : Spells quoting (field ++ "=" ++ quote text) (assignedLexemes field text) := by
  rw [assignedLexemes]
  by_cases tilde : IsTildeWord text
  · rw [if_pos tilde, quote_eq, if_pos (is_tilde_word_iff.mp tilde).1]
    obtain ⟨rest, written⟩ := List.head?_eq_some_iff.mp tilde.1
    intro following others breaks scans
    have signed {characters : List Char} {lexemes : List Lexeme}
        (scans : Token.Scans quoting characters lexemes) :
        Token.Scans quoting (field.toList ++ '=' :: '~' :: characters)
          (.word field :: .symbol "=~" :: lexemes) := by
      have sign : Token.Scans quoting ('=' :: '~' :: characters) (.symbol "=~" :: lexemes) :=
        Token.scans_sign (by simp [Token.sign?, Token.signs]) ⟨by decide, rfl⟩ scans
      have whole := Token.scans_word isWord (by simp [Token.endsWord]) sign
      rwa [String.ofList_toList] at whole
    cases rest with
    | nil => simpa [written] using signed scans
    | cons c rest =>
        have word : Token.IsWord quoting (String.ofList (c :: rest)).toList := by
          rw [String.toList_ofList]
          refine ⟨by simp, fun d member => tilde.2 d (by simp [written, member]), ?_⟩
          intro slashes
          cases slashes
        have tail := Token.spells_word word following others breaks scans
        simpa [written] using signed tail
  · rw [if_neg tilde]
    have front : ∃ c ∈ (quote text).toList.head?, c ≠ '=' ∧ c ≠ '~' ∧ c ≠ '>' := by
      rw [quote_eq]
      by_cases bare : isBare text = true
      · have isWord := (is_bare_iff.mp bare).1
        obtain ⟨c, rest, written⟩ := List.exists_cons_of_ne_nil isWord.filled
        have part := (Token.ends_word_false (isWord.whole c (by simp [written]))).2.1
        refine ⟨c, by simp [bare, written], ?_, ?_, ?_⟩
        · rintro rfl
          exact part (by decide)
        · rintro rfl
          exact tilde (is_tilde_word_iff.mpr ⟨bare, by simp [written]⟩)
        · rintro rfl
          exact part (by decide)
      · rw [if_neg bare]
        exact ⟨'"', by simp [Text.doubleQuote], by decide⟩
    exact Token.spells_compared isWord (by simp) front (spells_text text)

def globOf (op : Operator) (value : Value) : String :=
  String.ofList ((Glob.ofOperator? '*' value.text.toList op).getD value.text.toList)

def listLexemes (values : List Value) : List Lexeme :=
  .symbol "(" :: joined [.symbol ","] (fun value => [textLexeme value.text]) values ++ [.symbol ")"]

def globLexemes (test : FieldTest) : List Lexeme :=
  alternativesIn [.word "OR"] (fun value => assignedLexemes test.field (globOf test.op value))
    test.values

def freeLexemes (test : FieldTest) : List Lexeme :=
  alternativesIn [.word "OR"] (fun value => [.quoted value.text]) test.values

/-- The lexemes of a test in a search. Regular expressions are not written there, and their field
stands for them. -/
def testLexemes (test : FieldTest) : List Lexeme :=
  match test.op with
  | .equals =>
      match test.values with
      | [value] => assignedLexemes test.field value.text
      | values => .word test.field :: .word "IN" :: listLexemes values
  | .contains => if test.field = rawField then freeLexemes test else globLexemes test
  | .startsWith | .endsWith => globLexemes test
  | .gt | .gte | .lt | .lte => [.word test.field, .symbol (test.op.sign?.getD ">"),
      .word (test.values.head?.elim "" (·.text))]
  | .regex => [.word test.field]

def wording : Wording FieldTest where
  term := testLexemes
  conjunction := []
  disjunction := [.word "OR"]
  negation := fun inner => .word "NOT" :: inner

def readValue (op : Operator) (value : Value) : Value :=
  if op = .equals then Value.ofLiteral value.text else .str value.text

def testTree (test : FieldTest) : Logic FieldTest := test.valuewise readValue

/-- Fields that are words and no connectives. -/
structure IsField (field : String) : Prop where
  word : Token.IsWord quoting field.toList
  free : field ∉ ["AND", "OR", "NOT"]

/-- Tests that are written in a search, with parts of texts that are not empty. -/
structure Writable (test : FieldTest) : Prop where
  proper : test.Proper
  field : IsField test.field
  written : ∃ text, renderTest test = .ok text
  filled : test.op.isPart = true → ∀ value ∈ test.values, value.text ≠ ""

/-- Tests with a text that gives its tilde to the equality sign. -/
def LosesTilde (test : FieldTest) : Prop :=
  (test.op = .equals ∧ test.values.length = 1 ∨ test.op = .startsWith) ∧
    ∃ value ∈ test.values, IsTildeWord value.text

instance (test : FieldTest) : Decidable (LosesTilde test) :=
  inferInstanceAs (Decidable ((_ ∨ _) ∧ ∃ value ∈ test.values, IsTildeWord value.text))

theorem quote_value_ok {value : Value} {text : String} (written : quoteValue value = .ok text) :
    text = quote value.text ∧ '*' ∉ value.text.toList := by
  cases value with
  | int number =>
      cases written
      refine ⟨by rw [quote_eq, if_pos (is_bare_int number)], fun star => ?_⟩
      rcases Value.of_mem_int_text star with digit | minus
      · revert digit
        decide
      · cases minus
  | str text =>
      rw [quoteValue] at written
      split at written
      · cases written
      · rename_i plain
        cases written
        exact ⟨rfl, by simpa [Text.containsChar, Value.text] using plain⟩

theorem literal_text_ok {value : Value} {text : String} (written : literalText value = .ok text) :
    text = value.text ∧ '*' ∉ value.text.toList := by
  rw [literalText] at written
  split at written
  · cases written
  · rename_i plain
    cases written
    exact ⟨rfl, by simpa [Text.containsChar] using plain⟩

theorem connects_or : Token.Connects quoting disjunctionText [.word "OR"] :=
  Token.connects_plain (by simp [disjunctionText]) (by simp) (by simp [Token.isPlain])

theorem spells_list {field : String} (isWord : Token.IsWord quoting field.toList)
    {values : List Value} {texts : List String} (filled : values ≠ [])
    (each : List.Forall₂ (fun text value => text = quote value.text) texts values) :
    Spells quoting (field ++ " IN (" ++ String.intercalate ", " texts ++ ")")
      (.word field :: .word "IN" :: listLexemes values) := by
  have spelled : List.Forall₂ (fun text value => Spells quoting text [textLexeme value.text])
      texts values := by
    refine each.imp ?_
    rintro _ value rfl
    exact spells_text value.text
  have list := Token.spells_intercalate Token.connects_comma spelled filled
  exact Token.spells_membership (by simp) (by simp) (by simp [Token.isPlain])
    (Token.spells_word isWord) list

theorem spells_equality {field text : String} (isWord : Token.IsWord quoting field.toList)
    {values : List Value} (filled : values ≠ [])
    (rendered : renderTest ⟨field, .equals, values⟩ = .ok text) :
    Spells quoting text (testLexemes ⟨field, .equals, values⟩) := by
  obtain ⟨texts, written, rendered⟩ := Success.of_bind rendered
  have each := Success.of_map_m (fun _ _ _ written => (quote_value_ok written).1) written
  match values, each with
  | [], _ => exact absurd rfl filled
  | [value], .cons first .nil =>
      cases rendered
      rw [first]
      exact spells_assigned isWord value.text
  | _ :: _ :: _, .cons first (.cons second others) =>
      cases rendered
      exact spells_list isWord (by simp) (.cons first (.cons second others))

theorem spells_globs {test : FieldTest} {text : String} (writable : Writable test)
    (rendered : globTest test = .ok text) : Spells quoting text (globLexemes test) := by
  refine Expression.spells_alternatives connects_or writable.proper.filled ?_ rendered
  intro value _ text single
  obtain ⟨known, written, single⟩ := Success.of_bind single
  obtain ⟨rfl, _⟩ := literal_text_ok written
  cases single
  exact spells_assigned writable.field.word (globOf test.op value)

theorem spells_free {test : FieldTest} {text : String} (filled : test.values ≠ [])
    (rendered : freeTextTest test = .ok text) : Spells quoting text (freeLexemes test) := by
  refine Expression.spells_alternatives connects_or filled ?_ rendered
  intro value _ text single
  obtain ⟨known, written, single⟩ := Success.of_bind single
  obtain ⟨rfl, _⟩ := literal_text_ok written
  cases single
  exact Token.spells_double_quote value.text

theorem spells_comparison {test : FieldTest} (writable : Writable test)
    (comparison : test.op.isComparison = true) :
    Spells quoting (test.field ++ test.op.sign?.getD ">" ++ test.values.head?.elim "" (·.text))
      [.word test.field, .symbol (test.op.sign?.getD ">"),
        .word (test.values.head?.elim "" (·.text))] := by
  obtain ⟨number, single⟩ := writable.proper.compared comparison
  have known : test.op.sign?.getD ">" ∈ ["==", "=", "!=", ">", ">=", "<", "<="] := by
    cases operator : test.op <;> rw [operator] at comparison <;>
      simp [Operator.sign?, Operator.isComparison] at comparison ⊢
  rw [single]
  exact Token.spells_compared writable.field.word known (Token.front_of_int64 number)
    (Token.spells_int64 number)

theorem spells_test {test : FieldTest} {text : String} (writable : Writable test)
    (rendered : renderTest test = .ok text) : Spells quoting text (testLexemes test) := by
  obtain ⟨field, op, values⟩ := test
  cases op with
  | equals => exact spells_equality writable.field.word writable.proper.filled rendered
  | contains =>
      by_cases raw : field = rawField
      · simp only [renderTest, testLexemes, if_pos raw] at rendered ⊢
        exact spells_free writable.proper.filled rendered
      · simp only [renderTest, testLexemes, if_neg raw] at rendered ⊢
        exact spells_globs writable rendered
  | startsWith | endsWith => exact spells_globs writable rendered
  | gt | gte | lt | lte =>
      cases rendered
      exact spells_comparison writable rfl
  | regex => cases rendered

theorem plain_of_written {test : FieldTest} {text : String} (rendered : renderTest test = .ok text)
    (other : test.op.isComparison = false) : ∀ value ∈ test.values, '*' ∉ value.text.toList := by
  have parts {written : FieldTest → String → Except RuleError String}
      (rendered : Expression.renderAlternatives disjunctionText (fun test =>
        test.values.head?.elim (pure "") literalText >>= written test) test = .ok text) :
      ∀ value ∈ test.values, '*' ∉ value.text.toList := by
    intro value member
    obtain ⟨_, part⟩ := Expression.of_render_alternatives rendered value member
    obtain ⟨_, literal, _⟩ := Success.of_bind part
    exact (literal_text_ok literal).2
  rw [renderTest] at rendered
  cases operator : test.op with
  | equals =>
      simp only [operator] at rendered
      obtain ⟨_, written, _⟩ := Success.of_bind rendered
      intro value member
      obtain ⟨_, part⟩ := Success.of_mem_map_m written member
      exact (quote_value_ok part).2
  | contains =>
      simp only [operator] at rendered
      split at rendered
      · exact parts rendered
      · exact parts rendered
  | startsWith | endsWith =>
      simp only [operator] at rendered
      exact parts rendered
  | regex =>
      simp only [operator] at rendered
      cases rendered
  | gt | gte | lt | lte =>
      rw [operator] at other
      cases other

theorem reads_bind_text {Next : Type} {what text : String}
    {continued : Parser.Literal → Parser Next} {lexemes next : List Lexeme} {final : Next}
    (reads : ∀ quoted offset, Reads (continued ⟨text, quoted, offset⟩) lexemes final next) :
    Reads (Parser.literal what >>= continued) (textLexeme text :: lexemes) final next := by
  rw [textLexeme]
  apply reads_cons
  intro offset tokens rest same follows
  by_cases bare : isBare text = true
  · simp only [if_pos bare, Parser.bind_apply, Parser.literal_word]
    exact reads false (some offset) tokens rest same follows
  · simp only [if_neg bare, Parser.bind_apply, Parser.literal_quoted]
    exact reads true (some offset) tokens rest same follows

theorem reads_no_closing (text : String) (next : List Lexeme) :
    Reads (Parser.sees (Parser.nextIsSign ")")) [] false (textLexeme text :: next) := by
  apply Parser.reads_sees
  intro tokens same
  apply Parser.next_is_sign_of_head
  rw [same, textLexeme, List.head?_cons, Ne, Option.some.injEq]
  split <;> simp

def nextValue? (field : String) : Parser (Option (Logic FieldTest)) := do
  if !(← Parser.takeSign ",") then return none
  else if ← Parser.sees (Parser.nextIsSign ")") then return none
  else return some (.term (glob field (← Parser.literal "a list value").text))

theorem reads_next_value (field text : String) (next : List Lexeme) :
    Reads (nextValue? field) [.symbol ",", textLexeme text] (some (.term (glob field text)))
      next := by
  apply reads_bind_cons (Parser.reads_take_sign "," _)
  rw [if_neg (by simp)]
  apply reads_bind_nil (reads_no_closing text next)
  rw [if_neg (by simp)]
  apply reads_bind_text
  intro quoted offset
  exact reads_pure _ next

theorem reads_value_list (field : String) {values : List Value} (filled : values ≠ [])
    (next : List Lexeme) :
    Reads (valueList field) (listLexemes values)
      (Logic.disj (values.map fun value => .term (glob field value.text))) next := by
  obtain ⟨first, others, rfl⟩ := List.exists_cons_of_ne_nil filled
  have loop : Reads (Parser.many (nextValue? field))
      (Token.behind [.symbol ","] (fun value : Value => [textLexeme value.text]) others)
      (others.map fun value => .term (glob field value.text)) (.symbol ")" :: next) := by
    apply Parser.reads_many
    · simp
    · apply Parser.along_of_forall
      intro value _ following
      exact reads_next_value field value.text following
    · exact reads_bind_nil (Parser.reads_no_sign (by simp)) (reads_pure _ _)
  apply reads_bind_cons (Parser.reads_sign "(" _)
  apply reads_bind_nil (reads_no_closing first.text _)
  simp only [Bool.false_eq_true, if_false, pure_bind, List.isEmpty_cons, bind_assoc]
  apply reads_bind_text
  intro quoted offset
  apply reads_bind loop
  apply reads_bind_cons (Parser.reads_sign ")" _)
  exact reads_pure _ next

theorem glob_value {op : Operator} {value : Value} (globbed : op = .equals ∨ op.isPart = true)
    (plain : '*' ∉ value.text.toList) (filled : op.isPart = true → value.text ≠ "")
    (field : String) : glob field (globOf op value) = .single field op (readValue op value) := by
  obtain ⟨written, part⟩ : (∃ text, Glob.ofOperator? '*' value.text.toList op = some text) ∧
      (op ≠ .equals → op.isPart = true) := by
    rcases globbed with rfl | part
    · exact ⟨⟨_, rfl⟩, fun other => absurd rfl other⟩
    · refine ⟨?_, fun _ => part⟩
      cases op <;> first | exact ⟨_, rfl⟩ | cases part
  obtain ⟨text, written⟩ := written
  rw [glob, globOf, written, Option.getD_some]
  exact Glob.test_of_glob plain (fun other => filled (part other)) written field

theorem reads_field {field : String} {lexemes next : List Lexeme} {result : Logic FieldTest}
    (reads : Reads (comparisonOf field) lexemes result next) :
    Reads term (.word field :: lexemes) result next := by
  apply reads_bind_offset
  intro offset
  apply reads_cons
  intro place tokens rest same follows
  simp [Parser.next?, reads tokens rest same follows]

theorem reads_assigned {text : String} (whole : ¬ IsTildeWord text) (field : String)
    (next : List Lexeme) :
    Reads term (assignedLexemes field text) (.term (glob field text)) next := by
  have noList : Reads (Parser.takeIf nextIsList) [] false (.symbol "=" :: textLexeme text :: next) := by
    apply reads_nil
    intro rest follows
    obtain ⟨offset, others, rfl, _⟩ := Parser.cons_of_lexemes follows
    rfl
  rw [assignedLexemes, if_neg whole]
  apply reads_field
  apply reads_bind_nil noList
  apply reads_bind_cons (Parser.reads_take_sign "=" _)
  apply reads_bind_text
  intro quoted offset
  exact reads_pure _ next

theorem reads_membership (field : String) {values : List Value} (filled : values ≠ [])
    (next : List Lexeme) :
    Reads term (.word field :: .word "IN" :: listLexemes values)
      (Logic.disj (values.map fun value => .term (glob field value.text))) next := by
  have list : Reads (Parser.takeIf nextIsList) [.word "IN"] true (listLexemes values ++ next) := by
    apply reads_cons
    intro offset
    apply reads_nil
    intro rest follows
    obtain ⟨place, others, rfl, _⟩ := Parser.cons_of_lexemes follows
    rfl
  apply reads_field
  apply reads_bind_cons list
  exact reads_value_list field filled next

theorem reads_comparison {test : FieldTest} (proper : test.Proper)
    (comparison : test.op.isComparison = true) (next : List Lexeme) :
    Reads term [.word test.field, .symbol (test.op.sign?.getD ">"),
      .word (test.values.head?.elim "" (·.text))] (.term test) next := by
  obtain ⟨number, single⟩ := proper.compared comparison
  obtain ⟨field, op, values⟩ := test
  cases single
  have sign : Operator.ofSign? (op.sign?.getD ">") = some op ∧ op.sign?.getD ">" ≠ "=" ∧
      op.sign?.getD ">" ≠ "!=" := by
    cases op <;> simp [Operator.sign?, Operator.ofSign?, Operator.isComparison] at comparison ⊢
  obtain ⟨known, noEqual, noUnequal⟩ := sign
  apply reads_field
  apply reads_cons
  intro signOffset
  apply reads_cons
  intro offset
  apply reads_nil
  intro rest _
  simp [comparisonOf, nextIsList, Parser.takeSign, noEqual, noUnequal, Dialect.takeComparison?,
    known, Dialect.integer, Value.of_literal_int, FieldTest.single]

theorem reads_free {value : Value} (plain : '*' ∉ value.text.toList) (filled : value.text ≠ "")
    (next : List Lexeme) :
    Reads term [.quoted value.text] (.term (.single rawField .contains (.str value.text))) next := by
  have read : freeText value.text = .single rawField .contains (.str value.text) := by
    have around : "*" ++ value.text ++ "*" = globOf .contains value := by
      apply String.toList_inj.mp
      simp [globOf, Glob.ofOperator?]
    rw [freeText, around, glob_value (.inr rfl) plain (fun _ => filled)]
    rfl
  apply reads_bind_offset
  intro offset
  apply reads_cons
  intro place
  apply reads_nil
  intro rest _
  simp [Parser.next?, read]

end DetectionRules.Splunk
