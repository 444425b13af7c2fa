import DetectionRules.Dialect.Yara
import DetectionRules.Proofs.CrowdStrike.Pattern

/-!
Strings of YARA rules. A string is a text, an expression between slashes or
bytes. What is written for a string is read as the string again, except that an
expression has to be valid.
-/

namespace DetectionRules.Yara

open CrowdStrike (isSlashable quoting slashable_plain spells_between)
open DetectionRules.Parser (Reads reads_cons reads_nil reads_bind_cons reads_bind_offset
  reads_bind_last reads_pure)
open Token (Spells Scans)

/-- What a string looks for. -/
inductive Content where
  | text (text : String)
  | pattern (pattern : String)
  /-- Digits of bytes, two for each of them. -/
  | bytes (pairs : List (Char × Char))

namespace Content

def digits (pairs : List (Char × Char)) : List Char := pairs.flatMap fun pair => [pair.1, pair.2]

def byteText (pair : Char × Char) : String := String.ofList [pair.1, pair.2]

def test : Content → FieldTest
  | .text sought => .single contentField .contains (.str sought)
  | .pattern sought => .single contentField .regex (.str sought)
  | .bytes pairs => .single bytesField .equals (.str (String.ofList (digits pairs)))

/-- A digit in the case in which it is kept. -/
def isUpperDigit (c : Char) : Bool := isHexDigit c && c.toUpper == c

/-- Strings that have a spelling. -/
def Sound : Content → Prop
  | .text _ => True
  | .pattern sought => isSlashable sought.toList = true
  | .bytes pairs => pairs ≠ [] ∧ ∀ c ∈ digits pairs, isUpperDigit c = true

/-- Strings whose spelling is accepted. -/
def Valid : Content → Prop
  | .pattern sought => Regex.isValid sought = true
  | _ => True

/-- The body and the flags of an expression. Flags in front of it are written behind it. -/
def patternParts (pattern : String) : List Char × List Char :=
  match pattern.toList with
  | '(' :: '?' :: rest =>
      let flags := rest.takeWhile (· != ')')
      if !flags.isEmpty && flags.length < rest.length && isFlags (String.ofList flags) then
        (rest.drop (flags.length + 1), flags)
      else ('(' :: '?' :: rest, [])
  | body => (body, [])

def lexemes : Content → List Lexeme
  | .text sought => [.quoted sought]
  | .pattern sought =>
      [.pattern (String.ofList (patternParts sought).1) (String.ofList (patternParts sought).2)]
  | .bytes pairs => .symbol "\x7b" :: (pairs.map fun pair => .word (byteText pair)) ++ [.symbol "\x7d"]

def spelling : Content → String
  | .text sought => Text.doubleQuote sought
  | .pattern sought => slashed sought
  | .bytes pairs => "\x7b " ++ String.intercalate " " (pairs.map byteText) ++ " \x7d"

theorem pattern_parts_plain {pattern : String}
    (plain : ∀ rest, pattern.toList = '(' :: '?' :: rest → False) :
    patternParts pattern = (pattern.toList, []) := by
  rw [patternParts]
  split
  · rename_i same
    exact (plain _ same).elim
  · rfl

theorem slashed_eq (pattern : String) :
    slashed pattern = "/" ++
      String.ofList (Text.replaceChar '/' ['\\', '/'] (patternParts pattern).1) ++ "/" ++
      String.ofList (patternParts pattern).2 := by
  rw [slashed]
  split
  · rename_i rest same
    simp only [patternParts, same]
    split <;> rfl
  · rename_i plain
    rw [pattern_parts_plain plain]

theorem parts_of_pattern (pattern : String) :
    (∃ flags body, flags ≠ [] ∧ isFlags (String.ofList flags) = true ∧
      pattern.toList = '(' :: '?' :: (flags ++ ')' :: body) ∧
      patternParts pattern = (body, flags)) ∨
    patternParts pattern = (pattern.toList, []) := by
  rw [patternParts]
  split
  · rename_i rest same
    extract_lets flags
    by_cases taken : (!flags.isEmpty && flags.length < rest.length
        && isFlags (String.ofList flags)) = true
    · left
      rw [if_pos taken]
      simp only [Bool.and_eq_true, Bool.not_eq_true', decide_eq_true_eq] at taken
      obtain ⟨⟨filled, shorter⟩, known⟩ := taken
      have split : flags ++ rest.dropWhile (· != ')') = rest := List.takeWhile_append_dropWhile
      have remaining : rest.dropWhile (· != ')') ≠ [] := by
        intro empty
        rw [empty, List.append_nil] at split
        rw [split] at shorter
        omega
      obtain ⟨c, body, tail⟩ := List.exists_cons_of_ne_nil remaining
      have stops := List.head_dropWhile_not (· != ')') remaining
      obtain rfl : c = ')' := by simpa [tail] using stops
      rw [tail] at split
      have behind : rest.drop (flags.length + 1) = body := by
        conv_lhs => rw [← split]
        rw [← List.drop_drop, List.drop_left, List.drop_one, List.tail_cons]
      exact ⟨flags, body, by simpa using filled, known, by rw [same, split], by rw [behind]⟩
    · right
      rw [if_neg taken, same]
  · exact .inr rfl

/-- Flags behind an expression are put in front of it again. -/
theorem pattern_of_parts (pattern : String) :
    (if (String.ofList (patternParts pattern).2).isEmpty then
        String.ofList (patternParts pattern).1
      else "(?" ++ String.ofList (patternParts pattern).2 ++ ")" ++
        String.ofList (patternParts pattern).1) = pattern := by
  rcases parts_of_pattern pattern with ⟨flags, body, filled, _, split, parts⟩ | parts
  · rw [parts, if_neg (by simpa using filled), ← String.toList_inj, split]
    simp
  · rw [parts, if_pos (by simp), String.ofList_toList]

theorem is_flags_parts (pattern : String) :
    isFlags (String.ofList (patternParts pattern).2) = true := by
  rcases parts_of_pattern pattern with ⟨flags, body, _, known, _, parts⟩ | parts
  · rwa [parts]
  · rw [parts]
    rfl

theorem plain_of_flags {flags : List Char} (known : isFlags (String.ofList flags) = true) :
    ∀ c ∈ flags, c = 'i' ∨ c = 's' := by
  simpa [isFlags] using known

theorem slashable_behind_flags {flags body : List Char} (plain : ∀ c ∈ flags, c ≠ '\\') :
    isSlashable (flags ++ body) = isSlashable body := by
  induction flags with
  | nil => rfl
  | cons c flags induction =>
      rw [List.cons_append, slashable_plain (plain c (by simp))]
      exact induction fun other member => plain other (List.mem_cons_of_mem c member)

theorem slashable_parts (pattern : String) :
    isSlashable (patternParts pattern).1 = isSlashable pattern.toList := by
  rcases parts_of_pattern pattern with ⟨flags, body, _, known, split, parts⟩ | parts
  · have plain : ∀ c ∈ flags, c ≠ '\\' := by
      intro c member
      rcases plain_of_flags known c member with rfl | rfl <;> decide
    rw [parts, split, slashable_plain (by decide), slashable_plain (by decide),
      slashable_behind_flags plain, slashable_plain (by decide)]
  · rw [parts]

theorem letters_of_parts (pattern : String) :
    ∀ c ∈ (String.ofList (patternParts pattern).2).toList, c.isAlpha = true := by
  intro c member
  rw [String.toList_ofList] at member
  rcases plain_of_flags (is_flags_parts pattern) c member with rfl | rfl <;> decide

theorem spells_slashed {pattern : String} (slashable : isSlashable pattern.toList = true) :
    Spells quoting (slashed pattern) (lexemes (.pattern pattern)) := by
  rw [slashed_eq]
  exact spells_between ((slashable_parts pattern).trans slashable) (letters_of_parts pattern)

theorem is_hex_digit_iff {c : Char} : isHexDigit c = true ↔
    ((48 ≤ c.toNat ∧ c.toNat ≤ 57) ∨ (97 ≤ c.toNat ∧ c.toNat ≤ 102) ∨
      (65 ≤ c.toNat ∧ c.toNat ≤ 70)) ∨ c = '?' := by
  simp only [isHexDigit, Text.isHexDigit, Char.isDigit, Bool.or_eq_true, Bool.and_eq_true,
    decide_eq_true_eq, beq_iff_eq, Char.le_def, UInt32.le_iff_toNat_le, ge_iff_le, or_assoc]
  exact Iff.rfl

theorem plain_of_hex_digit {c : Char} (digit : isHexDigit c = true) :
    Token.endsWord quoting c = false ∧ Text.isBlank c = false ∧ c ≠ '/' ∧ c.utf8Size = 1 := by
  rcases is_hex_digit_iff.mp digit with range | rfl
  · have part : c.isAlphanum = true := by
      rw [Text.is_alphanum_iff]
      omega
    refine ⟨Token.ends_word_of_plain (by simp [Token.isPlain, part]),
      Text.is_blank_of_is_alphanum part, ?_, ?_⟩
    · rintro rfl
      cases part
    · rw [Char.utf8Size_eq_one_iff, UInt32.le_iff_toNat_le]
      change c.toNat ≤ 127
      omega
  · decide

theorem upper_of_hex_digit {c : Char} (digit : isHexDigit c = true) :
    isUpperDigit c.toUpper = true := by
  rcases is_hex_digit_iff.mp digit with range | rfl
  · rw [← Char.ofNat_toNat c]
    rcases range with ⟨low, high⟩ | ⟨low, high⟩ | ⟨low, high⟩
    all_goals interval_cases c.toNat <;> rfl
  · rfl

theorem size_of_hex_digits {characters : List Char} (all : ∀ c ∈ characters, isHexDigit c = true) :
    (String.ofList characters).utf8ByteSize = characters.length := by
  rw [String.utf8ByteSize_ofList]
  induction characters with
  | nil => rfl
  | cons c characters induction =>
      have others := induction fun other member => all other (List.mem_cons_of_mem c member)
      rw [String.utf8Len_cons, others, (plain_of_hex_digit (all c (by simp))).2.2.2,
        List.length_cons]

theorem length_digits (pairs : List (Char × Char)) : (digits pairs).length = 2 * pairs.length := by
  induction pairs with
  | nil => rfl
  | cons pair pairs induction =>
      rw [digits, List.flatMap_cons, List.length_append, ← digits, induction]
      simp
      omega

theorem exists_pairs {characters : List Char} (even : characters.length % 2 = 0) :
    ∃ pairs, digits pairs = characters := by
  induction characters using pairs.induct with
  | case1 first second rest induction =>
      rw [List.length_cons, List.length_cons, Nat.add_assoc, Nat.add_mod_right] at even
      obtain ⟨others, same⟩ := induction even
      exact ⟨(first, second) :: others, by rw [← same]; rfl⟩
  | case2 characters short =>
      match characters with
      | [] => exact ⟨[], rfl⟩
      | [c] => cases even
      | first :: second :: rest => exact (short first second rest rfl).elim

theorem pairs_digits (pairs : List (Char × Char)) :
    Yara.pairs (digits pairs) = pairs.map byteText := by
  induction pairs with
  | nil => rfl
  | cons pair pairs induction => exact congrArg (byteText pair :: ·) induction

theorem hex_of_upper {c : Char} (digit : isUpperDigit c = true) :
    isHexDigit c = true ∧ c.toUpper = c := by
  simpa [isUpperDigit] using digit

theorem upper_append (left right : String) :
    Text.upper (left ++ right) = Text.upper left ++ Text.upper right := by
  rw [Text.upper, Text.upper, Text.upper, String.toList_append, List.map_append,
    String.ofList_append]

theorem upper_byte_texts {pairs : List (Char × Char)}
    (upper : ∀ c ∈ digits pairs, isUpperDigit c = true) :
    Text.upper (String.intercalate " " (pairs.map byteText)) =
      String.intercalate " " (pairs.map byteText) := by
  have single : ∀ pair ∈ pairs, Text.upper (byteText pair) = byteText pair := by
    intro pair member
    have first := upper pair.1 (List.mem_flatMap.mpr ⟨pair, member, by simp⟩)
    have second := upper pair.2 (List.mem_flatMap.mpr ⟨pair, member, by simp⟩)
    simp [Text.upper, byteText, (hex_of_upper first).2, (hex_of_upper second).2]
  induction pairs with
  | nil => rfl
  | cons pair pairs induction =>
      have others := induction
        (fun c member => upper c (List.mem_append_right _ member))
        (fun other member => single other (List.mem_cons_of_mem pair member))
      have first := single pair (by simp)
      cases pairs with
      | nil => simpa using first
      | cons second rest =>
          have blank : Text.upper " " = " " := by decide
          simp only [List.map_cons, String.intercalate_cons_cons] at others ⊢
          rw [upper_append, upper_append, first, others, blank]

theorem hex_text {pairs : List (Char × Char)} (sound : Sound (.bytes pairs)) :
    hexText (String.ofList (digits pairs)) = .ok (spelling (.bytes pairs)) := by
  obtain ⟨filled, upper⟩ := sound
  have hex : ∀ c ∈ digits pairs, isHexDigit c = true :=
    fun c member => (hex_of_upper (upper c member)).1
  have compact : (digits pairs).filter (fun c => !Text.isBlank c) = digits pairs := by
    rw [List.filter_eq_self]
    intro c member
    simp [(plain_of_hex_digit (hex c member)).2.1]
  have some : digits pairs ≠ [] := by
    intro empty
    have size := length_digits pairs
    rw [empty, List.length_nil] at size
    exact filled (List.length_eq_zero_iff.mp (by omega))
  have word : isHexWord (String.ofList (digits pairs)) = true := by
    rw [isHexWord, size_of_hex_digits hex, length_digits, String.toList_ofList]
    simpa using hex
  rw [hexText, String.toList_ofList, compact, if_pos (by simpa [word] using some),
    String.toList_ofList, pairs_digits, upper_byte_texts upper]
  rfl

theorem is_word_byte {pair : Char × Char} (first : isUpperDigit pair.1 = true)
    (second : isUpperDigit pair.2 = true) : Token.IsWord quoting (byteText pair).toList := by
  have plain (c : Char) (digit : isUpperDigit c = true) :=
    plain_of_hex_digit (hex_of_upper digit).1
  rw [byteText, String.toList_ofList]
  refine ⟨by simp, fun c member => ?_, fun _ start => ?_⟩
  · rcases List.mem_cons.mp member with rfl | member
    · exact (plain _ first).1
    · obtain rfl := List.mem_singleton.mp member
      exact (plain _ second).1
  · simp only [List.head?_cons, Option.some.injEq] at start
    exact absurd start (plain _ first).2.2.1

theorem spells_bytes {pairs : List (Char × Char)} (sound : Sound (.bytes pairs)) :
    Spells quoting (spelling (.bytes pairs)) (lexemes (.bytes pairs)) := by
  obtain ⟨filled, upper⟩ := sound
  have words : ∀ pair ∈ pairs, Spells quoting (byteText pair) [.word (byteText pair)] := by
    intro pair member
    have first := upper pair.1 (List.mem_flatMap.mpr ⟨pair, member, by simp⟩)
    have second := upper pair.2 (List.mem_flatMap.mpr ⟨pair, member, by simp⟩)
    exact Token.spells_word (is_word_byte first second)
  have inner := Token.spells_intercalate_map Token.connects_blank words filled
  rw [Token.joined_nil, ← List.flatMap_def, ← List.map_eq_flatMap] at inner
  intro rest others breaks scans
  have closing : Scans quoting ('\x7d' :: rest) (.symbol "\x7d" :: others) :=
    Token.scans_sign (by simp [Token.sign?, Token.signs]) ⟨by decide, rfl⟩ scans
  have behind := Token.scans_blank (c := ' ') (by decide) closing
  have middle := inner _ _ (Token.breaks_blank (by decide)) behind
  have front := Token.scans_blank (c := ' ') (by decide) middle
  have whole : Scans quoting ('\x7b' :: ' ' :: _) (.symbol "\x7b" :: _) :=
    Token.scans_sign (by simp [Token.sign?, Token.signs]) ⟨by decide, rfl⟩ front
  simpa [spelling, lexemes] using whole

theorem string_text {content : Content} (sound : content.Sound) :
    ∃ value, content.test.values = [value] ∧
      stringText content.test value = .ok content.spelling := by
  cases content with
  | text sought => exact ⟨.str sought, rfl, rfl⟩
  | pattern sought => exact ⟨.str sought, rfl, rfl⟩
  | bytes pairs =>
      refine ⟨.str (String.ofList (digits pairs)), rfl, ?_⟩
      have written := hex_text sound
      simp [stringText, test, FieldTest.single, bytesField, contentField, Value.text, written]

theorem spells {content : Content} (sound : content.Sound) :
    Spells quoting content.spelling content.lexemes := by
  cases content with
  | text sought =>
      change Spells quoting (Text.doubleQuote sought) [.quoted sought]
      exact Token.spells_double_quote sought
  | pattern sought => exact spells_slashed sound
  | bytes pairs => exact spells_bytes sound

theorem reads_hex_word {pair : Char × Char} (first : isUpperDigit pair.1 = true)
    (second : isUpperDigit pair.2 = true) (next : List Lexeme) :
    Reads hexWord [.word (byteText pair)] (some (byteText pair)) next := by
  have digits : ∀ c ∈ [pair.1, pair.2], isHexDigit c = true := by
    simp [(hex_of_upper first).1, (hex_of_upper second).1]
  have word : isHexWord (byteText pair) = true := by
    rw [isHexWord, byteText, size_of_hex_digits digits, String.toList_ofList]
    simpa using digits
  have upper : Text.upper (byteText pair) = byteText pair := by
    simp [Text.upper, byteText, (hex_of_upper first).2, (hex_of_upper second).2]
  apply reads_cons
  intro offset
  apply reads_nil
  intro rest _
  simp [hexWord, word, upper]

theorem reads_brace (next : List Lexeme) : Reads hexWord [.symbol "\x7d"] none next := by
  apply reads_cons
  intro offset
  apply reads_nil
  intro rest _
  simp [hexWord]

theorem reads_bytes {pairs : List (Char × Char)} (sound : Sound (.bytes pairs))
    (next : List Lexeme) :
    Reads hexBytes ((pairs.map fun pair => .word (byteText pair)) ++ [.symbol "\x7d"])
      (String.ofList (digits pairs)) next := by
  obtain ⟨filled, upper⟩ := sound
  have words : Reads (Parser.many hexWord)
      (Token.behind [] (fun pair => [.word (byteText pair)]) pairs ++ [.symbol "\x7d"])
      (pairs.map byteText) next := by
    apply Parser.reads_many_until (by simp) _ (reads_brace next)
    apply Parser.along_of_forall
    intro pair member following
    have first := upper pair.1 (List.mem_flatMap.mpr ⟨pair, member, by simp⟩)
    have second := upper pair.2 (List.mem_flatMap.mpr ⟨pair, member, by simp⟩)
    exact reads_hex_word first second following
  have same : Token.behind [] (fun pair => [.word (byteText pair)]) pairs =
      pairs.map fun pair => .word (byteText pair) := by
    rw [Token.behind, List.map_eq_flatMap]
    rfl
  have joined : String.join (pairs.map byteText) = String.ofList (digits pairs) := by
    rw [← String.toList_inj, String.toList_join, String.toList_ofList, List.flatMap_map, digits]
    simp only [byteText, String.toList_ofList]
  rw [same] at words
  apply reads_bind_offset
  intro offset
  apply reads_bind_last words
  rw [if_neg (by simpa using filled), joined]
  exact reads_pure _ _

theorem string_test_pattern (pattern : String) (offset : Nat) (rest : List Token) :
    stringTest (⟨.pattern (String.ofList (patternParts pattern).1)
        (String.ofList (patternParts pattern).2), offset⟩ :: rest) =
      (do Dialect.ensureShortRegex (some offset) pattern
          return FieldTest.single contentField .regex (.str pattern) : Parser FieldTest) rest := by
  simp only [stringTest, Parser.bind_apply, Parser.get_apply, Parser.set_apply,
    is_flags_parts, Bool.not_true, Bool.false_eq_true, if_false, pattern_of_parts]

/-- What is written for a string is read as the test of the string. -/
theorem reads_string_test {content : Content} (sound : content.Sound) (valid : content.Valid)
    (next : List Lexeme) : Reads stringTest content.lexemes content.test next := by
  cases content with
  | text sought =>
      apply reads_cons
      intro offset
      apply reads_nil
      intro rest _
      rfl
  | pattern sought =>
      have ensured := Dialect.ensure_regex_or valid "invalid regex"
      apply reads_cons
      intro offset
      apply reads_nil
      intro rest _
      simp only [string_test_pattern, Parser.bind_apply, Dialect.ensureShortRegex, ensured,
        Parser.pure_apply]
      rfl
  | bytes pairs =>
      have read := reads_bytes sound next
      apply reads_cons
      intro offset tokens rest same follows
      simp only [stringTest, Parser.bind_apply, Parser.get_apply,
        Parser.set_apply, read tokens rest same follows, Parser.pure_apply]
      rfl

end Content

end DetectionRules.Yara
