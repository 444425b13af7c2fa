import DetectionRules.Dialect.Basic
import DetectionRules.Proofs.Grammar
import DetectionRules.Proofs.Number
import DetectionRules.Proofs.Selections

/-!
What the proofs about single dialects share: tests written as alternatives with
one value each, words that are numbers, and reading a whole text.
-/

namespace DetectionRules

namespace FieldTest

def alternatives (single : Value → FieldTest) (values : List Value) : Logic FieldTest :=
  Logic.disj (values.map fun value => .term (single value))

theorem any_alternatives (holds : FieldTest → Bool) (single : Value → FieldTest)
    (values : List Value) :
    (alternatives single values).eval holds = values.any fun value => holds (single value) := by
  rw [alternatives, Logic.eval_disj, List.any_map]
  rfl

theorem eval_alternatives {test : FieldTest} {single : Value → FieldTest} {truth : Truth}
    (same : ∀ value, (single value).holds truth = truth test.field test.op value.text) :
    (alternatives single test.values).eval (·.holds truth) = test.holds truth := by
  rw [any_alternatives, holds]
  simp only [same]

theorem normal_alternatives (single : Value → FieldTest) {values : List Value}
    (filled : values ≠ []) : (alternatives single values).Normal := by
  apply Logic.Normal.disj
  · simpa using filled
  · intro item member
    obtain ⟨value, _, rfl⟩ := List.mem_map.mp member
    exact .term _

theorem mem_terms_alternatives {single : Value → FieldTest} {values : List Value}
    {test : FieldTest} (member : test ∈ (alternatives single values).terms) :
    ∃ value ∈ values, single value = test := by
  rw [alternatives, Logic.terms_disj, List.flatMap_map] at member
  obtain ⟨value, inside, place⟩ := List.mem_flatMap.mp member
  refine ⟨value, inside, ?_⟩
  simpa [Logic.terms, eq_comm] using place

/-- The test for the text of a value, which means the same as the test for the value. -/
def textual (test : FieldTest) (value : Value) : FieldTest :=
  single test.field test.op (.str value.text)

theorem holds_single (truth : Truth) (field : String) (op : Operator) (value : Value) :
    (single field op value).holds truth = truth field op value.text := by
  simp [single, holds]

/-- What is read back for such a test, where `read` is what a reader makes of a value. -/
def valuewise (read : Operator → Value → Value) (test : FieldTest) : Logic FieldTest :=
  if test.op.isComparison then .term test
  else alternatives (fun value => single test.field test.op (read test.op value)) test.values

section Valuewise

variable {read : Operator → Value → Value} {test : FieldTest}

theorem normal_valuewise (filled : test.values ≠ []) : (valuewise read test).Normal := by
  rw [valuewise]
  split
  · exact .term _
  · exact normal_alternatives _ filled

theorem eval_valuewise {truth : Truth}
    (same : ∀ value ∈ test.values, (read test.op value).text = value.text) :
    (valuewise read test).eval (·.holds truth) = test.holds truth := by
  rw [valuewise]
  split
  · rw [Logic.eval]
  · have texts := List.map_congr_left same
    have whole := congrArg (List.any · (truth test.field test.op)) texts
    rw [any_alternatives, holds]
    simpa only [List.any_map, Function.comp_def, holds_single] using whole

theorem proper_valuewise (proper : test.Proper) :
    ∀ other ∈ (valuewise read test).terms, other.Proper := by
  intro other member
  rw [valuewise] at member
  split at member
  · rw [List.mem_singleton.mp member]
    exact proper
  · rename_i different
    obtain ⟨value, _, rfl⟩ := mem_terms_alternatives member
    exact ⟨proper.named, by simp [single], fun compared => absurd compared different⟩

theorem field_valuewise {other : FieldTest} (member : other ∈ (valuewise read test).terms) :
    other.field = test.field := by
  rw [valuewise] at member
  split at member
  · rw [List.mem_singleton.mp member]
  · obtain ⟨value, _, rfl⟩ := mem_terms_alternatives member
    rfl

end Valuewise

def listed (test : FieldTest) : Logic FieldTest :=
  match test.op with
  | .equals => .term ⟨test.field, .equals, test.values.foldl Expression.addValue []⟩
  | .gt | .gte | .lt | .lte => .term test
  | .contains | .startsWith | .endsWith | .regex => alternatives test.textual test.values

theorem normal_listed {test : FieldTest} (filled : test.values ≠ []) : test.listed.Normal := by
  rw [listed]
  cases test.op with
  | equals => exact .term _
  | gt | gte | lt | lte => exact .term _
  | contains | startsWith | endsWith | regex => exact normal_alternatives test.textual filled

theorem eval_listed (test : FieldTest) (truth : Truth) :
    test.listed.eval (·.holds truth) = test.holds truth := by
  rw [listed]
  cases found : test.op with
  | equals =>
      simp only [Logic.eval, holds, Expression.any_fold_add_value, List.any_nil, Bool.false_or,
        found]
  | gt | gte | lt | lte => simp only [Logic.eval]
  | contains | startsWith | endsWith | regex =>
      apply eval_alternatives
      intro value
      rw [textual, holds_single, Value.text]

theorem proper_listed {test : FieldTest} (proper : test.Proper) :
    ∀ other ∈ test.listed.terms, other.Proper := by
  have single (op : Operator) (same : test.op = op) (other : op.isComparison = false) :
      ∀ other ∈ (alternatives test.textual test.values).terms, other.Proper := by
    intro other member
    obtain ⟨value, _, rfl⟩ := mem_terms_alternatives member
    refine ⟨proper.named, by simp [textual, FieldTest.single], fun comparison => ?_⟩
    simp_all [textual, FieldTest.single]
  unfold listed
  cases found : test.op with
  | equals =>
      intro other member
      obtain rfl := List.mem_singleton.mp member
      refine ⟨proper.named, ?_, by simp [Operator.isComparison]⟩
      obtain ⟨value, others, filled⟩ := List.exists_cons_of_ne_nil proper.filled
      exact List.ne_nil_of_mem (Expression.mem_fold_add_value.mpr
        (.inr (filled ▸ List.mem_cons_self)))
  | gt | gte | lt | lte =>
      intro other member
      obtain rfl := List.mem_singleton.mp member
      exact proper
  | contains | startsWith | endsWith | regex => exact single _ found rfl

theorem field_listed {test other : FieldTest} (member : other ∈ test.listed.terms) :
    other.field = test.field := by
  rw [listed] at member
  split at member
  · rw [List.mem_singleton.mp member]
  · rw [List.mem_singleton.mp member]
  · rw [List.mem_singleton.mp member]
  · rw [List.mem_singleton.mp member]
  · rw [List.mem_singleton.mp member]
  all_goals
    obtain ⟨value, _, rfl⟩ := mem_terms_alternatives member
    rfl

end FieldTest

namespace Expression

open DetectionRules.Parser (Reads Along)
open Token (Spells Connects joined)

/-- The lexemes of a single value, or of several between parentheses. -/
def alternativesIn (between : List Lexeme) (lexemes : Value → List Lexeme) :
    List Value → List Lexeme
  | [value] => lexemes value
  | values => .symbol "(" :: joined between lexemes values ++ [.symbol ")"]

theorem spells_alternatives {quoting : Quoting} {disjunction : String} {between : List Lexeme}
    {single : FieldTest → Except RuleError String} {lexemes : Value → List Lexeme}
    {test : FieldTest} {text : String} (connects : Connects quoting disjunction between)
    (filled : test.values ≠ [])
    (spells : ∀ value ∈ test.values, ∀ text, single (test.withValue value) = .ok text →
      Spells quoting text (lexemes value))
    (rendered : renderAlternatives disjunction single test = .ok text) :
    Spells quoting text (alternativesIn between lexemes test.values) := by
  obtain ⟨field, op, values⟩ := test
  rw [renderAlternatives] at rendered
  match values with
  | [] => exact absurd rfl filled
  | [value] => exact spells value (by simp) text rendered
  | first :: second :: others =>
      rw [if_neg (by simp)] at rendered
      obtain ⟨texts, written, rendered⟩ := Success.of_bind rendered
      cases rendered
      have inner := Token.spells_intercalate connects (Success.of_map_m spells written) (by simp)
      exact @spells_enclose _ true _ _ inner

theorem of_render_alternatives {disjunction : String}
    {single : FieldTest → Except RuleError String} {test : FieldTest} {text : String}
    (rendered : renderAlternatives disjunction single test = .ok text) :
    ∀ value ∈ test.values, ∃ part, single (test.withValue value) = .ok part := by
  obtain ⟨field, op, values⟩ := test
  rw [renderAlternatives] at rendered
  match values with
  | [] => simp
  | [value] =>
      intro other member
      rw [List.mem_singleton.mp member]
      exact ⟨text, rendered⟩
  | first :: second :: others =>
      rw [if_neg (by simp)] at rendered
      obtain ⟨texts, written, _⟩ := Success.of_bind rendered
      exact fun value member => Success.of_mem_map_m written member

theorem render_alternatives_total (disjunction : String) (single : FieldTest → String)
    (test : FieldTest) :
    ∃ text, renderAlternatives disjunction (fun test => .ok (single test)) test = .ok text := by
  unfold renderAlternatives
  by_cases alone : test.values.length = 1
  · rw [if_pos alone]
    exact ⟨_, rfl⟩
  · rw [if_neg alone, Success.map_m fun _ _ => rfl]
    exact ⟨_, rfl⟩

theorem reads_values {Target : Type} {connectives : Connectives} {stop : List Token → Bool}
    {atom : Parser (Logic Target)} {between next : List Lexeme} {levels : Nat}
    {lexemes : Value → List Lexeme} {tree : Value → Logic Target} {values : List Value}
    {follows : List Lexeme → Prop}
    (delimiters : Delimiters connectives stop between) (filled : values ≠ [])
    (normal : ∀ value, (tree value).Normal)
    (reads : ∀ value ∈ values, ∀ levels next, follows next →
      Reads (operand connectives stop atom (levels + 1)) (lexemes value) (tree value) next)
    (divides : ∀ next, follows (between ++ next)) (closing : ∀ next, follows (.symbol ")" :: next))
    (admitted : follows next) :
    Reads (operand connectives stop atom (levels + 2)) (alternativesIn between lexemes values)
      (Logic.disj (values.map tree)) next := by
  match values with
  | [] => exact absurd rfl filled
  | [value] =>
      have alone := reads value (by simp) (levels + 1) next admitted
      rwa [List.map_singleton, Logic.disj_single (normal value)]
  | first :: second :: others =>
      apply reads_alternatives delimiters normal
      apply Parser.along_mono
        (Parser.along_of_follows (first :: second :: others) divides (closing next))
      intro value member following admitted
      exact reads value member levels following admitted

end Expression

/-- A number is written as a word and a text between quotes. -/
def Value.lexeme : Value → Lexeme
  | .int number => .word (Value.int number).text
  | .str text => .quoted text

namespace Token

variable {quoting : Quoting}

theorem is_word_of_alphanum {word : List Char} (filled : word ≠ [])
    (alphanum : ∀ c ∈ word, c.isAlphanum = true) : IsWord quoting word := by
  apply is_word_of_plain filled
  intro c member
  simp [isPlain, alphanum c member]

theorem spells_plain {word : String} (filled : word.toList ≠ [])
    (plain : ∀ c ∈ word.toList, isPlain c = true) : Spells quoting word [.word word] :=
  spells_word (is_word_of_plain filled plain)

theorem connects_plain {word separator : String} (spaced : separator = " " ++ word ++ " ")
    (filled : word.toList ≠ []) (plain : ∀ c ∈ word.toList, isPlain c = true) :
    Connects quoting separator [.word word] := by
  rw [spaced]
  exact connects_word (is_word_of_plain filled plain)

theorem spells_behind_word {word front text : String} {lexemes : List Lexeme}
    (spaced : front = word ++ " ") (filled : word.toList ≠ [])
    (plain : ∀ c ∈ word.toList, isPlain c = true) (spells : Spells quoting text lexemes) :
    Spells quoting (front ++ text) (.word word :: lexemes) := by
  have whole := connects_blank (spells_plain filled plain) spells
  rw [spaced]
  rwa [List.append_nil, List.singleton_append] at whole

theorem spells_not {text : String} {lexemes : List Lexeme} (spells : Spells quoting text lexemes) :
    Spells quoting ("not " ++ text) (.word "not" :: lexemes) :=
  spells_behind_word (by simp) (by simp) (by simp [isPlain]) spells

theorem spells_before_word {text word : String} {lexemes : List Lexeme}
    (spells : Spells quoting text lexemes) (filled : word.toList ≠ [])
    (plain : ∀ c ∈ word.toList, isPlain c = true) :
    Spells quoting (text ++ " " ++ word) (lexemes ++ [.word word]) := by
  have whole := connects_blank spells (spells_plain filled plain)
  rwa [List.append_nil] at whole

theorem connects_pipe : Connects quoting " | " [.symbol "|"] := by
  intro left right leftLexemes rightLexemes first second
  have whole := connects_blank first (spells_pipe second)
  have split : " | " = " " ++ "| " := by simp
  rw [split]
  simpa only [String.append_assoc, List.append_assoc, List.nil_append, List.cons_append] using whole

theorem spells_plain_call {word opening inner : String} {lexemes : List Lexeme}
    (opened : opening = word ++ "(") (filled : word.toList ≠ [])
    (plain : ∀ c ∈ word.toList, isPlain c = true) (spells : Spells quoting inner lexemes) :
    Spells quoting (opening ++ inner ++ ")")
      (.word word :: .symbol "(" :: lexemes ++ [.symbol ")"]) := by
  rw [opened]
  exact spells_call (is_word_of_plain filled plain) spells

/-- A subject that is one of the members listed behind a word. -/
theorem spells_membership {subject word opening members : String}
    {subjectLexemes memberLexemes : List Lexeme} (opened : opening = " " ++ word ++ " " ++ "(")
    (filled : word.toList ≠ []) (plain : ∀ c ∈ word.toList, isPlain c = true)
    (first : Spells quoting subject subjectLexemes)
    (second : Spells quoting members memberLexemes) :
    Spells quoting (subject ++ opening ++ members ++ ")")
      (subjectLexemes ++ .word word :: .symbol "(" :: memberLexemes ++ [.symbol ")"]) := by
  have list := @Expression.spells_enclose _ true _ _ second
  have whole := connects_plain rfl filled plain first list
  rw [opened]
  simpa only [Expression.encloseIf, Expression.enclosed, if_true, String.append_assoc,
    List.append_assoc, List.cons_append, List.nil_append] using whole

theorem connects_by : Connects quoting " by " [.word "by"] :=
  connects_plain (by simp) (by simp) (by simp [isPlain])

theorem connects_and : Connects quoting " and " [.word "and"] :=
  connects_plain (by simp) (by simp) (by simp [isPlain])

theorem connects_or : Connects quoting " or " [.word "or"] :=
  connects_plain (by simp) (by simp) (by simp [isPlain])

theorem connects_equal : Connects quoting " = " [.symbol "="] :=
  connects_comparison (by simp) (by simp)

theorem connects_operator {op : Operator} (comparison : op.isComparison = true) :
    Connects quoting (" " ++ op.sign?.getD ">" ++ " ") [.symbol (op.sign?.getD ">")] := by
  apply connects_comparison rfl
  cases op <;> simp [Operator.sign?, Operator.isComparison] at comparison ⊢

theorem connects_threshold (comparison : Comparison) :
    Connects quoting (" " ++ comparison.sign ++ " ") [.symbol comparison.sign] := by
  apply connects_comparison rfl
  cases comparison <;> simp [Comparison.sign]

theorem connects_single_threshold (comparison : Comparison) :
    Connects quoting (" " ++ comparison.singleSign ++ " ") [.symbol comparison.singleSign] := by
  apply connects_comparison rfl
  cases comparison <;> simp [Comparison.singleSign, Comparison.sign]

theorem is_word_int64 (number : Int64) : IsWord quoting (Value.int number).text.toList := by
  apply is_word_of_plain (Value.int_text_filled number)
  intro c member
  rcases Value.of_mem_int_text member with digit | rfl
  · simp [isPlain, Char.isAlphanum, digit]
  · decide

theorem spells_int64 (number : Int64) :
    Spells quoting (Value.int number).text [.word (Value.int number).text] :=
  spells_word (is_word_int64 number)

theorem front_of_int64 (number : Int64) :
    ∃ c ∈ (Value.int number).text.toList.head?, c ≠ '=' ∧ c ≠ '~' ∧ c ≠ '>' := by
  obtain ⟨c, rest, written⟩ := List.exists_cons_of_ne_nil (Value.int_text_filled number)
  refine ⟨c, by simp [written], ?_⟩
  rcases @Value.of_mem_int_text number c (by simp [written]) with digit | rfl
  · refine ⟨?_, ?_, ?_⟩
    all_goals
      rintro rfl
      revert digit
      decide
  · decide

theorem spells_uint64 (number : UInt64) :
    Spells quoting (toString number) [.word (toString number)] := by
  apply spells_word
  rw [Text.to_list_uint64]
  apply is_word_of_alphanum Nat.toDigits_ne_nil
  intro c member
  have digit := Nat.isDigit_of_mem_toDigits (by omega) (by omega) member
  simp [Char.isAlphanum, digit]

theorem is_alphanum_window {window : TimeWindow} {c : Char} (member : c ∈ window.text.toList) :
    c.isAlphanum = true := by
  rw [TimeWindow.to_list_text] at member
  rcases List.mem_append.mp member with digits | letter
  · have digit := Nat.isDigit_of_mem_toDigits (by omega) (by omega) digits
    simp [Char.isAlphanum, digit]
  · obtain rfl : c = window.amount.2.letter := by simpa using letter
    simp [Char.isAlphanum, TimeUnit.letter_is_alpha]

theorem window_text_filled (window : TimeWindow) : window.text.toList ≠ [] := by
  simp [TimeWindow.to_list_text]

theorem spells_window (window : TimeWindow) : Spells quoting window.text [.word window.text] :=
  spells_word (is_word_of_alphanum (window_text_filled window) fun _ => is_alphanum_window)

theorem front_of_window (window : TimeWindow) :
    ∃ c ∈ window.text.toList.head?, c ≠ '=' ∧ c ≠ '~' ∧ c ≠ '>' := by
  obtain ⟨c, rest, written⟩ := List.exists_cons_of_ne_nil (window_text_filled window)
  have letter := @is_alphanum_window window c (by simp [written])
  refine ⟨c, by simp [written], ?_, ?_, ?_⟩
  all_goals
    rintro rfl
    revert letter
    decide

theorem list_of_blanks {text : String} (blank : Text.isAllBlank text = true) :
    list quoting text = .ok [] := by
  have all : ∀ characters : List Char, characters.all Text.isBlank = true → ∀ offset,
      listFrom quoting offset characters = .ok [] := by
    intro characters
    induction characters with
    | nil =>
        intro _ offset
        rw [listFrom]
    | cons c rest induction =>
        intro blank offset
        rw [List.all_cons, Bool.and_eq_true] at blank
        rw [listFrom, if_pos blank.1, induction blank.2]
  exact all text.toList blank 0

end Token

theorem Parser.reads_number (what : String) (number : UInt64) (next : List Lexeme) :
    Parser.Reads (Parser.number what) [.word (toString number)] number next := by
  apply Parser.reads_cons
  intro offset
  apply Parser.reads_nil
  intro rest _
  simp [Parser.number, Text.uint64_of_text]

namespace Dialect

theorem ensure_content_of_spells {quoting : Quoting} {text : String} {lexemes : List Lexeme}
    (filled : lexemes ≠ []) (spells : Token.Spells quoting text lexemes) :
    ensureContent text = .ok () := by
  obtain ⟨tokens, listed, same⟩ := Token.list_of_spells spells
  rw [ensureContent, if_neg]
  intro blank
  rw [Token.list_of_blanks blank] at listed
  cases listed
  exact filled same.symm

/-- Reading a text whose tokens a parser takes to the end. -/
theorem read_tokens_of_reads {quoting : Quoting} {parser : Parser Rule} {text : String}
    {lexemes : List Lexeme} {rule : Rule} (filled : lexemes ≠ [])
    (spells : Token.Spells quoting text lexemes) (reads : Parser.Reads parser lexemes rule [])
    (sound : rule.WellFormed) : readTokens quoting parser text = .ok rule := by
  obtain ⟨tokens, listed, same⟩ := Token.list_of_spells spells
  have content := ensure_content_of_spells filled spells
  have parsed := reads tokens [] same rfl
  rw [List.append_nil] at parsed
  have sound : rule.check = none := sound
  simp only [readTokens, content, listed, parsed, bind, Except.bind, checked, sound]

theorem ensure_writable {format : Format} {rule : Rule} (sound : rule.WellFormed)
    (supported : format.supportsCorrelation = true) : ensureWritable format rule = .ok () := by
  have sound : rule.check = none := sound
  simp [ensureWritable, sound, supported]

theorem well_formed_of_writable {format : Format} {rule : Rule} {done : Unit}
    (ready : ensureWritable format rule = .ok done) : rule.WellFormed := by
  rw [ensureWritable] at ready
  cases sound : rule.check with
  | none => exact sound
  | some flaw =>
      rw [sound] at ready
      cases ready

theorem ensure_regex_or {pattern : String} (valid : Regex.isValid pattern = true)
    (complaint : String) (offset : Option Nat) (tokens : List Token) :
    ensureRegexOr complaint offset pattern tokens = .ok (⟨⟩, tokens) := by
  simp only [ensureRegexOr, valid, if_true]
  rfl

theorem reads_ensure_regex_or {pattern : String} (valid : Regex.isValid pattern = true)
    (complaint : String) (offset : Option Nat) (next : List Lexeme) :
    Parser.Reads (ensureRegexOr complaint offset pattern) [] ⟨⟩ next := by
  apply Parser.reads_nil
  intro rest _
  exact ensure_regex_or valid complaint offset rest

theorem expression_eq {rule : Rule} (format : Format) (proper : rule.Proper) :
    expression format rule = .ok rule.expression := by
  rw [expression, Rule.of_rule_eq_expression proper]
  rfl

end Dialect

end DetectionRules
