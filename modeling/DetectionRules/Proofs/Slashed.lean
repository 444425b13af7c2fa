import DetectionRules.Proofs.Yara.Strings

/-!
Expressions between slashes, in both dialects that have them. What is written
for an expression is cut into one token, from which the expression is put
together again, if and only if it has no slash behind a backslash of its own.
-/

namespace DetectionRules

open CrowdStrike (isSlashable quoting)
open Token (Spells Scans)

/-- The characters behind the backslashes of an expression, if none stands alone at the end. -/
def Regex.escaped? : List Char → Option (List Char)
  | [] => some []
  | ['\\'] => none
  | '\\' :: c :: rest => (escaped? rest).map (c :: ·)
  | _ :: rest => escaped? rest

namespace CrowdStrike

theorem slashable_iff (body : List Char) :
    isSlashable body = true ↔ ∃ behind, Regex.escaped? body = some behind ∧ '/' ∉ behind := by
  induction body using isSlashable.induct with
  | case1 => simp [isSlashable, Regex.escaped?]
  | case2 => simp [isSlashable, Regex.escaped?]
  | case3 rest => simp [isSlashable, Regex.escaped?]
  | case4 c rest noSlash induction =>
      have other : '/' ≠ c := fun same => noSlash same.symm
      rw [slashable_escaped noSlash, induction, Regex.escaped?]
      simp [other]
  | case5 c rest noEnd noSlash noPair induction =>
      rw [isSlashable, induction, Regex.escaped?]
      all_goals assumption

theorem slash_of_scan {characters body : List Char} {size : Nat}
    (scanned : Token.scanSlashed characters = some (body, size)) : '/' ∈ characters := by
  induction characters using Token.scanSlashed.induct generalizing body size with
  | case1 => cases scanned
  | case2 rest => simp
  | case3 c rest other induction =>
      rw [Token.scanSlashed] at scanned
      · obtain ⟨⟨inner, taken⟩, found, _⟩ := Option.map_eq_some_iff.mp scanned
        simp [induction found]
      · exact other
  | case4 rest => simp
  | case5 c rest noSlash noPair noEnd induction =>
      rw [Token.scanSlashed] at scanned
      · obtain ⟨⟨inner, taken⟩, found, _⟩ := Option.map_eq_some_iff.mp scanned
        simp [induction found]
      · exact noSlash
      · exact noPair
      · exact noEnd

/-- A backslash that takes a slash, or the end, lets an expression end early or not at all. -/
theorem slash_left_of_scan {body flags found : List Char} {size : Nat}
    (refused : isSlashable body = false) (plain : '/' ∉ flags)
    (scanned : Token.scanSlashed (Text.replaceChar '/' ['\\', '/'] body ++ '/' :: flags) =
      some (found, size)) :
    '/' ∈ (Text.replaceChar '/' ['\\', '/'] body ++ '/' :: flags).drop size := by
  simp only [Text.replaceChar] at scanned ⊢
  -- The scanner passes the pairs of the body one by one up to the backslash that is to blame,
  -- which takes the backslash written for the slash, or the slash at the end.
  induction body using isSlashable.induct generalizing found size with
  | case1 => cases refused
  | case2 =>
      have ends : Token.scanSlashed ('\\' :: '/' :: flags) = some (found, size) := scanned
      obtain ⟨_, read, _⟩ := Option.map_eq_some_iff.mp ends
      exact absurd (slash_of_scan read) plain
  | case3 rest =>
      simp [Token.scanSlashed] at scanned
      simp [← scanned.2]
  | case4 c rest noSlash induction =>
      rw [slashable_escaped noSlash] at refused
      have other : c ≠ '/' := noSlash
      simp [Token.scanSlashed, other] at scanned
      obtain ⟨inner, taken, read, _, rfl⟩ := scanned
      simpa [other] using induction refused read
  | case5 c rest noEnd noSlash noPair induction =>
      have plain : c ≠ '\\' := by
        rintro rfl
        cases rest with
        | nil => exact noEnd rfl rfl
        | cons d rest => exact noPair d rest rfl rfl
      rw [slashable_plain plain] at refused
      by_cases slash : c = '/'
      · subst slash
        simp [Token.scanSlashed] at scanned
        obtain ⟨inner, taken, read, _, rfl⟩ := scanned
        simpa using induction refused read
      · simp [Token.scanSlashed, slash, plain] at scanned
        obtain ⟨inner, taken, read, _, rfl⟩ := scanned
        simpa [slash] using induction refused read

end CrowdStrike

theorem Token.blank_of_list_nil {quoting : Quoting} {offset : Nat} {characters : List Char}
    (listed : Token.listFrom quoting offset characters = .ok []) :
    ∀ c ∈ characters, Text.isBlank c = true := by
  induction characters generalizing offset with
  | nil => simp
  | cons c rest induction =>
      rw [Token.listFrom] at listed
      split at listed
      · rename_i blank
        exact List.forall_mem_cons.mpr ⟨blank, induction listed⟩
      · split at listed
        · cases listed
        · obtain ⟨_, _, listed⟩ := Success.of_bind listed
          cases listed

namespace CrowdStrike

/-- The token that begins with a slash ends with the letters behind the next one. -/
theorem of_scan_slash {rest : List Char} {lexeme : Lexeme} {size : Nat}
    (scanned : Token.scan quoting '/' rest = .ok (lexeme, size)) :
    ∃ found taken letters, Token.scanSlashed rest = some (found, taken) ∧
      rest.drop taken = letters ++ rest.drop size ∧ ∀ c ∈ letters, c.isAlpha = true := by
  rw [Token.scan, if_neg (by decide), if_neg (by simp), if_neg (by simp),
    if_pos (by simp [quoting])] at scanned
  split at scanned
  · rename_i found taken closed
    cases scanned
    refine ⟨found, taken, (rest.drop taken).takeWhile Char.isAlpha, closed, ?_,
      fun c member => List.mem_takeWhile_imp member⟩
    rw [← List.drop_drop]
    generalize rest.drop taken = left
    have whole : left.takeWhile Char.isAlpha ++ left.dropWhile Char.isAlpha = left :=
      List.takeWhile_append_dropWhile
    have behind : left.drop (left.takeWhile Char.isAlpha).length = left.dropWhile Char.isAlpha :=
      calc left.drop (left.takeWhile Char.isAlpha).length
        _ = (left.takeWhile Char.isAlpha ++ left.dropWhile Char.isAlpha).drop
            (left.takeWhile Char.isAlpha).length := by rw [whole]
        _ = left.dropWhile Char.isAlpha := List.drop_left
    rw [behind, whole]
  · cases scanned

/-- An expression is written as one token if and only if no backslash takes a slash or the end. -/
theorem spells_one_iff {body : List Char} {flags : String}
    (letters : ∀ c ∈ flags.toList, c.isAlpha = true) :
    (∃ lexeme, Spells quoting ("/" ++ String.ofList (Text.replaceChar '/' ['\\', '/'] body) ++ "/" ++
      flags) [lexeme]) ↔ isSlashable body = true := by
  refine ⟨?_, fun slashable => ⟨_, spells_between slashable letters⟩⟩
  rintro ⟨lexeme, spells⟩
  by_contra refused
  rw [Bool.not_eq_true] at refused
  have plain : '/' ∉ flags.toList := fun member => absurd (letters '/' member) (by decide)
  obtain ⟨tokens, listed, single⟩ := Token.list_of_spells spells
  have split : ("/" ++ String.ofList (Text.replaceChar '/' ['\\', '/'] body) ++ "/" ++ flags).toList =
      '/' :: (Text.replaceChar '/' ['\\', '/'] body ++ '/' :: flags.toList) := by simp
  rw [Token.list, split, Token.listFrom, if_neg (by decide)] at listed
  split at listed
  · cases listed
  · rename_i first size scanned
    obtain ⟨others, left, done⟩ := Success.of_bind listed
    cases done
    obtain ⟨found, taken, between, closed, behind, all⟩ := of_scan_slash scanned
    -- What is left holds that slash, which is neither a flag nor a blank.
    have slash := slash_left_of_scan refused plain closed
    rw [List.map_cons, List.cons.injEq, List.map_eq_nil_iff] at single
    rw [single.2] at left
    rw [behind] at slash
    rcases List.mem_append.mp slash with letter | remaining
    · exact absurd (all '/' letter) (by decide)
    · exact absurd (Token.blank_of_list_nil left '/' remaining) (by decide)

end CrowdStrike

/-- An expression whose backslashes all have a character behind them is read back from between
slashes, in either dialect, if and only if none of these characters is a slash. -/
theorem slash_literal_read_back_iff {pattern : String} {behind : List Char}
    (paired : Regex.escaped? pattern.toList = some behind) :
    ((∃ body flags, Spells quoting (CrowdStrike.slashed pattern) [.pattern body flags] ∧
        ∀ offset, Dialect.slashedRegex offset body flags = (do
          Dialect.ensureShortRegex offset pattern
          return .str pattern)) ↔ '/' ∉ behind) ∧
    ((∃ body flags, Spells quoting (Yara.slashed pattern) [.pattern body flags] ∧
        ∀ offset rest, Yara.stringTest (⟨.pattern body flags, offset⟩ :: rest) = (do
          Dialect.ensureShortRegex (some offset) pattern
          return .single Yara.contentField .regex (.str pattern) : Parser FieldTest) rest) ↔
      '/' ∉ behind) := by
  have slashable : isSlashable pattern.toList = true ↔ '/' ∉ behind := by
    rw [CrowdStrike.slashable_iff, paired]
    simp
  rw [← slashable]
  refine ⟨⟨?_, fun sound => ?_⟩, ⟨?_, fun sound => ?_⟩⟩
  · rintro ⟨body, flags, spells, _⟩
    obtain ⟨inner, letters, same, plain, _, written⟩ := CrowdStrike.slashed_as_lexeme pattern
    rw [written] at spells
    exact same.symm.trans ((CrowdStrike.spells_one_iff plain).mp ⟨_, spells⟩)
  · obtain ⟨body, flags, lexeme, whole⟩ := CrowdStrike.slashed_regex_eq pattern
    exact ⟨body, flags, lexeme ▸ CrowdStrike.spells_pattern sound, whole⟩
  · rintro ⟨body, flags, spells, _⟩
    rw [Yara.Content.slashed_eq] at spells
    have read := (CrowdStrike.spells_one_iff (Yara.Content.letters_of_parts pattern)).mp ⟨_, spells⟩
    exact (Yara.Content.slashable_parts pattern).symm.trans read
  · exact ⟨_, _, Yara.Content.spells_slashed sound,
      fun offset rest => Yara.Content.string_test_pattern pattern offset rest⟩

theorem flagged_path_read_back : Regex.escaped? "(?i)a\\.b/c".toList = some ['.'] ∧
    ∃ body flags, Spells quoting (CrowdStrike.slashed "(?i)a\\.b/c") [.pattern body flags] ∧
      ∀ offset, Dialect.slashedRegex offset body flags = (do
        Dialect.ensureShortRegex offset "(?i)a\\.b/c"
        return .str "(?i)a\\.b/c") :=
  ⟨by decide, (@slash_literal_read_back_iff _ ['.'] (by decide)).1.mpr (by decide)⟩

/-- An expression that has a slash behind a backslash already is not read back: the backslash that
is written for the slash ends the pair, and the slash ends the expression. -/
theorem escaped_slash_not_read_back : Regex.escaped? "a\\/b".toList = some ['/'] ∧
    CrowdStrike.slashed "a\\/b" = "/a\\\\/b/" ∧
    (Token.list quoting (CrowdStrike.slashed "a\\/b")).toOption = none ∧
    (Token.list quoting (Yara.slashed "a\\/b")).toOption = none := by
  decide +kernel

end DetectionRules
