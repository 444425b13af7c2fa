import DetectionRules.Proofs.Runs
import DetectionRules.Proofs.Yara.Rule

/-!
Strings whose case of letters is ignored. Each becomes an expression. It begins
with a group of flags that ignores case for all of it, unless the string is an
expression with flags that do not, or one that begins with another group.
-/

namespace DetectionRules.Regex

/-- Whether an expression begins with a group of nothing but flags, by which the case of letters
is ignored in all that follows. -/
def ignoresCase (pattern : String) : Bool :=
  match pattern.toList with
  | '(' :: '?' :: rest =>
      let flags := rest.takeWhile (· != ')')
      flags.length < rest.length && isFlags flags && flag? 'i' flags == some true
  | _ => false

theorem ignores_case_group {pattern : String} {flags body : List Char}
    (written : pattern.toList = '(' :: '?' :: (flags ++ ')' :: body)) (inside : ')' ∉ flags) :
    ignoresCase pattern = (isFlags flags && flag? 'i' flags == some true) := by
  have other : ∀ c ∈ flags, (c != ')') = true := by
    intro c member
    rw [bne_iff_ne]
    rintro rfl
    exact inside member
  have taken : (flags ++ ')' :: body).takeWhile (· != ')') = flags :=
    Text.take_while_front other (by simp)
  simp [ignoresCase, written, taken]

theorem ignores_case_marked (body : String) : ignoresCase ("(?i)" ++ body) = true := by
  rw [@ignores_case_group _ ['i'] body.toList (by simp) (by decide)]
  rfl

theorem flag_of_plain {flags : List Char} (plain : '-' ∉ flags) :
    (flag? 'i' flags == some true) = flags.contains 'i' := by
  have all : ∀ c ∈ flags, (c != '-') = true := by
    intro c member
    rw [bne_iff_ne]
    rintro rfl
    exact plain member
  have whole : flags.span (· != '-') = (flags, []) := by
    rw [List.span_eq_takeWhile_dropWhile, List.takeWhile_eq_self_iff.mpr all,
      List.dropWhile_eq_nil_iff.mpr all]
  simp only [flag?, whole]
  cases flags.contains 'i' <;> rfl

theorem flags_of_valid {pattern : String} {flags body : List Char}
    (written : pattern.toList = '(' :: '?' :: (flags ++ ')' :: body))
    (known : ∀ c ∈ flags, c = 'i' ∨ c = 's') (valid : isValid pattern = true) :
    isFlags flags = true := by
  cases flags with
  | nil => rfl
  | cons first flags =>
      have taken : (first :: flags ++ ')' :: body).takeWhile (fun c => c != ':' && c != ')') =
          first :: flags := by
        refine Text.take_while_front (fun c member => ?_) (by simp)
        rcases known c member with rfl | rfl <;> decide
      by_contra refused
      have stops (reading : Reading) : reading.flags? (first :: flags ++ ')' :: body) = none := by
        rw [Reading.flags?, taken, if_pos (by simpa using refused)]
      have opens (reading : Reading) (plain : reading.mode.verbose = false) :
          reading.opened? ('?' :: (first :: flags ++ ')' :: body)) = none := by
        rw [← stops reading, Reading.opened?, Mode.skip, plain]
        rcases known first (by simp) with rfl | rfl <;> rfl
      rw [isValid, written, height?] at valid
      simp only [Mode.skip, Reading.step?, opens, Bool.false_eq_true, if_false, Option.any_none]
        at valid

end DetectionRules.Regex

namespace DetectionRules.Yara

open CrowdStrike (quoting)
open DetectionRules.Parser (starts run_of_iterate of_bind of_word_at of_sign)

/-- A string: its name, the start of its value, and the words behind that, which are the modifiers
of a text or an expression. -/
structure Written where
  name : String
  value : Lexeme
  modifiers : List String
  deriving DecidableEq

/-- The words in front of the next string or the condition. -/
def modifiersAt : List Token → List String
  | ⟨.word word, _⟩ :: rest =>
      if (afterDollar? word).isSome || word == "condition:" then [] else word :: modifiersAt rest
  | _ => []

def writtenAt? : List Token → Option Written
  | ⟨.word word, _⟩ :: ⟨.symbol "=", _⟩ :: ⟨value, _⟩ :: rest =>
      (afterDollar? word).map fun name => ⟨name, value, modifiersAt rest⟩
  | _ => none

def stringsHeading : Parser Unit := do
  let _ ← introduction
  Named.heading "strings:"

def strings (text : String) : List Written :=
  match Token.list quoting text >>= stringsHeading with
  | .error _ => []
  | .ok (_, tokens) => (starts nextString [] tokens).filterMap fun start => writtenAt? start.2

/-- Whether a text or an expression has the modifier that ignores case. -/
def Written.isCaseless (string : Written) : Bool :=
  match string.value with
  | .quoted _ | .pattern _ _ => string.modifiers.contains "nocase"
  | _ => false

/-- Whether the request to ignore case has an effect. It has none on an expression whose flags
leave it out, or that has no flags and begins with another group than one of flags that asks for
the same. -/
def honoursCaseless : Lexeme → Bool
  | .pattern body flags =>
      if flags.isEmpty then !Text.startsWith body "(?" || Regex.ignoresCase body
      else flags.toList.contains 'i'
  | _ => true

/-- A string and the selection that it becomes. -/
structure ReadAs (string : Written) (selection : Selection) : Prop where
  name : selection.name = string.name
  caseless : string.isCaseless = true → ∃ pattern,
    selection.tests = [.single contentField .regex (.str pattern)] ∧
      Regex.ignoresCase pattern = honoursCaseless string.value

theorem ignoring_case_pattern (pattern : String) :
    ignoringCase (.single contentField .regex (.str pattern)) = .single contentField .regex
      (.str (if Text.startsWith pattern "(?" then pattern else "(?i)" ++ pattern)) := by
  simp [ignoringCase, FieldTest.single, Value.text]

/-- Asking twice is asking once. -/
theorem ignoring_case_twice (test : FieldTest) :
    ignoringCase (ignoringCase test) = ignoringCase test := by
  have marked (text : String) : Text.startsWith ("(?i)" ++ text) "(?" = true := by
    simp [Text.startsWith]
  obtain ⟨pattern, same, started⟩ : ∃ pattern,
      ignoringCase test = .single contentField .regex (.str pattern) ∧
        Text.startsWith pattern "(?" = true := by
    refine ⟨_, rfl, ?_⟩
    split
    · split
      · assumption
      · exact marked _
    · exact marked _
  rw [same, ignoring_case_pattern, if_pos started]

theorem of_modifier {test : FieldTest} {next : Option FieldTest} {tokens rest : List Token}
    (content : test.field = contentField) (success : modifier test tokens = .ok (next, rest)) :
    (next = none ∧ modifiersAt tokens = []) ∨ ∃ word, modifiersAt tokens = word :: modifiersAt rest ∧
      rest.length < tokens.length ∧
      next = some (if word == "nocase" then ignoringCase test else test) := by
  rw [modifier, Parser.bind_apply, Parser.get_apply] at success
  simp only at success
  split at success
  · rename_i word offset others
    rw [modifiersAt]
    split at success
    · rename_i ends
      cases success
      exact .inl ⟨rfl, if_pos ends⟩
    · rename_i goesOn
      rw [if_neg goesOn]
      split at success
      · rename_i asks
        cases success
        exact .inr ⟨word, rfl, by simp, by rw [if_pos (Bool.and_eq_true_iff.mp asks).1]⟩
      · rename_i other
        have different : (word == "nocase") = false := by simpa [content] using other
        split at success
        · cases success
          exact .inr ⟨word, rfl, by simp, by rw [different]; rfl⟩
        · split at success <;> cases success
  · rename_i noWord
    cases success
    refine .inl ⟨rfl, ?_⟩
    rw [modifiersAt]
    rintro word offset others rfl
    exact noWord word offset others rfl

/-- Modifiers leave a test as it is, or ignore case if one of them asks to. -/
theorem of_modifiers {test result : FieldTest} {tokens rest : List Token}
    (content : test.field = contentField)
    (success : Parser.iterate modifier test tokens = .ok (result, rest)) :
    result = if (modifiersAt tokens).contains "nocase" then ignoringCase test else test := by
  -- A test that ignores case stays as it is, so it does not matter how often one asks.
  replace success := Parser.iterated_of_iterate success
  induction success with
  | ended found =>
      rcases of_modifier content found with ⟨_, none⟩ | ⟨_, _, _, more⟩
      · rw [none]
        rfl
      · cases more
  | halted found longer =>
      rcases of_modifier content found with ⟨more, _⟩ | ⟨_, _, shorter, _⟩
      · cases more
      · exact absurd shorter longer
  | @turned test _ _ _ _ _ found _ _ induction =>
      rcases of_modifier content found with ⟨more, _⟩ | ⟨word, front, _, more⟩
      · cases more
      · cases more
        have changed : (if word == "nocase" then ignoringCase test else test).field =
            contentField := by
          split
          · rfl
          · exact content
        rw [induction changed, front, List.contains_cons]
        by_cases asks : word = "nocase"
        · subst asks
          simp [ignoring_case_twice]
        · have other : ("nocase" == word) = false := by simpa using Ne.symm asks
          have same : (word == "nocase") = false := by simpa using asks
          simp [other, same]

/-- What becomes of an expression that is accepted if its case is ignored. -/
theorem ignores_case_of_pattern {body flags : String} (known : isFlags flags = true)
    {pattern : String} (whole : pattern = if flags.isEmpty then body else "(?" ++ flags ++ ")" ++ body)
    (valid : Regex.isValid pattern = true) :
    Regex.ignoresCase (if Text.startsWith pattern "(?" then pattern else "(?i)" ++ pattern) =
      honoursCaseless (.pattern body flags) := by
  rw [honoursCaseless]
  by_cases unflagged : flags.isEmpty = true
  · rw [if_pos unflagged] at whole ⊢
    subst whole
    cases begins : Text.startsWith pattern "(?" with
    | false => simp [Regex.ignores_case_marked]
    | true => simp
  · rw [if_neg unflagged] at whole ⊢
    have letters : ∀ c ∈ flags.toList, c = 'i' ∨ c = 's' :=
      Content.plain_of_flags (by rwa [String.ofList_toList])
    have absent (c : Char) (other : c ≠ 'i' ∧ c ≠ 's') : c ∉ flags.toList := fun member =>
      (letters c member).elim other.1 other.2
    have written : pattern.toList = '(' :: '?' :: (flags.toList ++ ')' :: body.toList) := by
      simp [whole]
    have begins : Text.startsWith pattern "(?" = true := by
      simp [Text.startsWith, written]
    rw [if_pos begins, Regex.ignores_case_group written (absent ')' (by decide)),
      Regex.flags_of_valid written letters valid, Regex.flag_of_plain (absent '-' (by decide)),
      Bool.true_and]

theorem of_string_test {value : Lexeme} {offset : Nat} {tokens rest : List Token}
    {test : FieldTest} (success : stringTest (⟨value, offset⟩ :: tokens) = .ok (test, rest))
    (sought : (∃ text, value = .quoted text) ∨ ∃ body flags, value = .pattern body flags) :
    rest = tokens ∧ test.field = contentField ∧ ∃ pattern,
      ignoringCase test = .single contentField .regex (.str pattern) ∧
        Regex.ignoresCase pattern = honoursCaseless value := by
  rcases sought with ⟨text, rfl⟩ | ⟨body, flags, rfl⟩
  · cases success
    refine ⟨rfl, rfl, "(?i)" ++ Regex.escape text, rfl, ?_⟩
    rw [Regex.ignores_case_marked]
    rfl
  · simp only [stringTest, Parser.bind_apply, Parser.get_apply, Parser.set_apply] at success
    split at success
    · cases success
    · rename_i accepted
      have known : isFlags flags = true := by simpa using accepted
      generalize whole : (if flags.isEmpty then body else "(?" ++ flags ++ ")" ++ body) = pattern
        at success
      obtain ⟨_, left, ensured, done⟩ := of_bind success
      obtain ⟨valid, rfl⟩ := Dialect.of_ensure_regex ensured
      cases done
      exact ⟨rfl, rfl, _, ignoring_case_pattern pattern,
        ignores_case_of_pattern known whole.symm valid⟩

theorem of_string_definition {tokens rest : List Token} {selection : Selection}
    (success : stringDefinition tokens = .ok (selection, rest)) :
    ∃ string, writtenAt? tokens = some string ∧ ReadAs string selection := by
  obtain ⟨⟨word, place⟩, later, named, valued⟩ := of_bind success
  obtain ⟨offset, rfl⟩ := of_word_at named
  cases known : (afterDollar? word).filter Named.isIdentifier with
  | none =>
    simp only [known] at valued
    cases valued
  | some name =>
    simp only [known] at valued
    obtain ⟨dollar, _⟩ := Option.filter_eq_some_iff.mp known
    obtain ⟨_, later, signed, described⟩ := of_bind valued
    obtain ⟨_, rfl⟩ := of_sign signed
    obtain ⟨test, behind, tested, described⟩ := of_bind described
    obtain ⟨result, left, modified, done⟩ := of_bind described
    cases done
    cases later with
    | nil => cases tested
    | cons token later =>
        obtain ⟨value, start⟩ := token
        refine ⟨⟨name, value, modifiersAt later⟩, by rw [writtenAt?, dollar]; rfl, rfl, ?_⟩
        intro caseless
        have sought : ((∃ text, value = .quoted text) ∨
            ∃ body flags, value = .pattern body flags) ∧
            (modifiersAt later).contains "nocase" = true := by
          cases value <;> simp_all [Written.isCaseless]
        obtain ⟨rfl, content, pattern, ignored, honoured⟩ := of_string_test tested sought.1
        have made := of_modifiers content modified
        rw [if_pos sought.2, ignored] at made
        exact ⟨pattern, by rw [made], honoured⟩

theorem of_next_string {selections next : List Selection} {tokens rest : List Token}
    (success : nextString selections tokens = .ok (some next, rest)) :
    ∃ string selection, writtenAt? tokens = some string ∧ next = selections ++ [selection] ∧
      ReadAs string selection := by
  obtain ⟨ended, left, seen, success⟩ := of_bind success
  cases seen
  split at success
  · cases success
  · obtain ⟨offset, left, placed, success⟩ := of_bind success
    cases placed
    obtain ⟨selection, left, defined, success⟩ := of_bind success
    obtain ⟨string, front, fits⟩ := of_string_definition defined
    refine ⟨string, selection, front, ?_, fits⟩
    split at success <;> cases success
    rfl

/-- The strings of a rule that is accepted are its selections. -/
theorem of_read {text : String} {rule : Rule} (accepted : read text = .ok rule) :
    ∃ tokens later left, Token.list quoting text = .ok tokens ∧
      stringsHeading tokens = .ok (⟨⟩, later) ∧
      Parser.iterate nextString [] later = .ok (rule.selections, left) := by
  obtain ⟨_, tokens, rest, listed, parsed⟩ := Dialect.of_located_tokens accepted
  rw [rule_eq] at parsed
  obtain ⟨⟨name, metadata⟩, front, introduced, parsed⟩ := of_bind parsed
  obtain ⟨_, later, headed, parsed⟩ := of_bind parsed
  obtain ⟨selections, left, defined, parsed⟩ := of_bind parsed
  refine ⟨tokens, later, left, listed, ?_, ?_⟩
  · rw [stringsHeading, Parser.bind_apply, introduced]
    exact headed
  · split at parsed
    · cases parsed
    · obtain ⟨_, _, _, parsed⟩ := of_bind parsed
      obtain ⟨condition, _, _, parsed⟩ := of_bind parsed
      obtain ⟨_, _, _, parsed⟩ := of_bind parsed
      obtain ⟨isDone, _, _, parsed⟩ := of_bind parsed
      cases isDone <;> cases parsed
      exact defined

/-- Each text or expression whose case is ignored becomes an expression. It begins with a group of
flags by which case is ignored in all of it, unless the string is an expression with flags that do
not say so, or with another group in front. -/
theorem nocase_honoured_iff {text : String} {rule : Rule} (accepted : read text = .ok rule) :
    List.Forall₂ ReadAs (strings text) rule.selections := by
  obtain ⟨tokens, later, left, listed, headed, defined⟩ := of_read accepted
  have written : strings text =
      (starts nextString [] later).filterMap fun start => writtenAt? start.2 := by
    rw [strings, listed]
    simp only [Except.bind, bind, headed]
  obtain ⟨added, same, all⟩ := (run_of_iterate defined).appended (fun start => writtenAt? start.2)
    fun _ _ _ _ => of_next_string
  rwa [written, same, List.nil_append]

def caselessStrings : String :=
  "rule n \x7b strings: $a = \"cmd.exe\" nocase $b = /x/is wide nocase condition: $a or $b \x7d"

theorem caseless_strings_honoured : ∃ rule, read caselessStrings = .ok rule ∧
    strings caselessStrings = [⟨"a", .quoted "cmd.exe", ["nocase"]⟩,
      ⟨"b", .pattern "x" "is", ["wide", "nocase"]⟩] ∧
    List.Forall₂ ReadAs (strings caselessStrings) rule.selections := by
  have read : ((read caselessStrings).map fun _ => decide (strings caselessStrings =
      [⟨"a", .quoted "cmd.exe", ["nocase"]⟩, ⟨"b", .pattern "x" "is", ["wide", "nocase"]⟩])) =
      .ok true := by
    decide +kernel
  obtain ⟨rule, accepted, known⟩ := Success.of_map read
  exact ⟨rule, accepted, of_decide_eq_true known, nocase_honoured_iff accepted⟩

def groupedString : String :=
  "rule n \x7b strings: $a = /(?:foo|bar)/ nocase condition: $a \x7d"

/-- Any group in front is taken for one by which case is ignored already. -/
theorem group_not_caseless : ∃ rule, read groupedString = .ok rule ∧
    strings groupedString = [⟨"a", .pattern "(?:foo|bar)" "", ["nocase"]⟩] ∧
    rule.selections = [⟨"a", [.single contentField .regex (.str "(?:foo|bar)")]⟩] ∧
    Regex.ignoresCase "(?:foo|bar)" = false := by
  have read : ((read groupedString).map fun rule => decide (
      strings groupedString = [⟨"a", .pattern "(?:foo|bar)" "", ["nocase"]⟩] ∧
      rule.selections = [⟨"a", [.single contentField .regex (.str "(?:foo|bar)")]⟩])) =
      .ok true := by
    decide +kernel
  obtain ⟨rule, accepted, known⟩ := Success.of_map read
  obtain ⟨written, selected⟩ := of_decide_eq_true known
  exact ⟨rule, accepted, written, selected, by decide⟩

end DetectionRules.Yara
