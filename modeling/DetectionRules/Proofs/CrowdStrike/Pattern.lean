import DetectionRules.Dialect.CrowdStrike
import DetectionRules.Proofs.Dialect

/-!
Regular expressions between slashes. A slash inside is written behind a
backslash, so an expression is read back if no backslash of its own stands
before a slash to take it, or stands alone before the end.
-/

namespace DetectionRules.CrowdStrike

open DetectionRules.Parser (Reads)
open Token (Spells Scans)

def quoting : Quoting := { slashes := true }

/-- Whether no backslash takes a slash or the end. -/
def isSlashable : List Char → Bool
  | [] => true
  | ['\\'] => false
  | '\\' :: '/' :: _ => false
  | '\\' :: _ :: rest => isSlashable rest
  | _ :: rest => isSlashable rest

theorem scan_slashed_escaped {body : List Char} (slashable : isSlashable body = true)
    (rest : List Char) :
    Token.scanSlashed (Text.replaceChar '/' ['\\', '/'] body ++ '/' :: rest) =
      some (body, (Text.replaceChar '/' ['\\', '/'] body).length + 1) := by
  simp only [Text.replaceChar]
  induction body using isSlashable.induct with
  | case1 => simp [Token.scanSlashed]
  | case2 => cases slashable
  | case3 => cases slashable
  | case4 c body noSlash induction =>
      have other : c ≠ '/' := fun same => noSlash same
      rw [isSlashable] at slashable
      · have inner := induction slashable
        simp [Token.scanSlashed, other, inner]
      · exact noSlash
  | case5 c body noEnd noSlash noPair induction =>
      have plain : c ≠ '\\' := by
        rintro rfl
        cases body with
        | nil => exact noEnd rfl rfl
        | cons d body => exact noPair d body rfl rfl
      rw [isSlashable] at slashable
      · have inner := induction slashable
        by_cases slash : c = '/'
        · subst slash
          simp [Token.scanSlashed, inner]
        · simp [Token.scanSlashed, slash, plain, inner]
      · exact noEnd
      · exact noSlash
      · exact noPair

theorem spells_between {body : List Char} {flags : String}
    (slashable : isSlashable body = true) (letters : ∀ c ∈ flags.toList, c.isAlpha = true) :
    Spells quoting ("/" ++ String.ofList (Text.replaceChar '/' ['\\', '/'] body) ++ "/" ++ flags)
      [.pattern (String.ofList body) flags] := by
  intro rest others breaks scans
  have taken : (flags.toList ++ rest).takeWhile Char.isAlpha = flags.toList := by
    refine Text.take_while_front letters fun c start => ?_
    obtain ⟨others, rfl⟩ := List.head?_eq_some_iff.mp start
    exact Token.not_letter_of_breaks breaks
  generalize written : Text.replaceChar '/' ['\\', '/'] body = inside
  have closed : Token.scanSlashed (inside ++ '/' :: (flags.toList ++ rest)) =
      some (body, inside.length + 1) := by
    rw [← written]
    exact scan_slashed_escaped slashable _
  have dropped : (inside ++ '/' :: (flags.toList ++ rest)).drop (inside.length + 1) =
      flags.toList ++ rest := by simp
  have first : Token.scan quoting '/' (inside ++ '/' :: (flags.toList ++ rest)) =
      .ok (.pattern (String.ofList body) flags, inside.length + 1 + flags.toList.length) := by
    rw [Token.scan, if_neg (by decide), if_neg (by simp), if_neg (by simp),
      if_pos (by simp [quoting]), closed]
    simp only [dropped, taken, String.ofList_toList]
  have behind : (inside ++ '/' :: (flags.toList ++ rest)).drop
      (inside.length + 1 + flags.toList.length) = rest := by
    rw [← List.drop_drop, dropped, List.drop_left]
  have whole := Token.scans_token (by decide) first (by rw [behind]; exact scans)
  simpa using whole

/-- The lexeme of an expression between slashes; a request to ignore case in front of it is a
flag. -/
def patternLexeme (pattern : String) : Lexeme :=
  match pattern.toList with
  | '(' :: '?' :: 'i' :: ')' :: body => .pattern (String.ofList body) "i"
  | body => .pattern (String.ofList body) ""

theorem slashed_as_lexeme (pattern : String) : ∃ body flags,
    isSlashable body = isSlashable pattern.toList ∧ (∀ c ∈ flags.toList, c.isAlpha = true) ∧
    patternLexeme pattern = .pattern (String.ofList body) flags ∧
    slashed pattern = "/" ++ String.ofList (Text.replaceChar '/' ['\\', '/'] body) ++ "/" ++ flags := by
  by_cases ignoring : ∃ body, pattern.toList = '(' :: '?' :: 'i' :: ')' :: body
  · obtain ⟨body, same⟩ := ignoring
    refine ⟨body, "i", ?_, by simp, ?_, ?_⟩
    · rw [same]
      rfl
    · rw [patternLexeme, same]
      rfl
    · rw [slashed, same]
      rfl
  · refine ⟨pattern.toList, "", rfl, by simp, ?_, ?_⟩
    · rw [patternLexeme]
      split
      · rename_i body same
        exact absurd ⟨body, same⟩ ignoring
      · rfl
    · rw [slashed]
      split
      · rename_i body same
        exact absurd ⟨body, same⟩ ignoring
      · rfl

theorem spells_pattern {pattern : String} (slashable : isSlashable pattern.toList = true) :
    Spells quoting (slashed pattern) [patternLexeme pattern] := by
  obtain ⟨body, flags, same, letters, lexeme, text⟩ := slashed_as_lexeme pattern
  rw [lexeme, text]
  exact spells_between (same.trans slashable) letters

theorem front_of_slashed (pattern : String) : (slashed pattern).toList.head? = some '/' := by
  obtain ⟨body, flags, _, _, _, text⟩ := slashed_as_lexeme pattern
  simp [text]

theorem slashed_regex_eq (pattern : String) :
    ∃ body flags, patternLexeme pattern = .pattern body flags ∧ ∀ offset,
      Dialect.slashedRegex offset body flags = (do
        Dialect.ensureShortRegex offset pattern
        return .str pattern) := by
  unfold patternLexeme
  split
  · rename_i body written
    have whole : "(?i)" ++ String.ofList body = pattern := by
      rw [← String.toList_inj, written]
      simp
    refine ⟨_, _, rfl, fun offset => ?_⟩
    simp only [Dialect.slashedRegex, pure_bind, whole]
  · refine ⟨_, _, rfl, fun offset => ?_⟩
    simp only [Dialect.slashedRegex, pure_bind, String.ofList_toList]

theorem slashed_regex_apply {pattern : String} (valid : Regex.isValid pattern = true) :
    ∃ body flags, patternLexeme pattern = .pattern body flags ∧ ∀ offset tokens,
      Dialect.slashedRegex offset body flags tokens = .ok (.str pattern, tokens) := by
  have ensured (offset : Option Nat) (tokens : List Token) :
      Dialect.ensureShortRegex offset pattern tokens = .ok (⟨⟩, tokens) :=
    Dialect.ensure_regex_or valid _ offset tokens
  obtain ⟨body, flags, lexeme, whole⟩ := slashed_regex_eq pattern
  refine ⟨body, flags, lexeme, fun offset tokens => ?_⟩
  simp only [whole, Parser.bind_apply, ensured, Parser.pure_apply]

def IsSlashable (token : Token) : Prop :=
  ∀ body flags, token.lexeme = .pattern body flags → isSlashable body.toList = true

theorem slashable_plain {c : Char} {rest : List Char} (other : c ≠ '\\') :
    isSlashable (c :: rest) = isSlashable rest := by
  rw [isSlashable]
  · rintro rfl
    exact absurd rfl other
  · rintro _ rfl
    exact absurd rfl other
  · rintro _ _ rfl
    exact absurd rfl other

theorem slashable_escaped {c : Char} {rest : List Char} (other : c ≠ '/') :
    isSlashable ('\\' :: c :: rest) = isSlashable rest := by
  rw [isSlashable]
  rintro rfl
  exact other rfl

theorem slashable_escape_chars (characters tail : List Char) :
    isSlashable (Regex.escapeChars characters ++ tail) = isSlashable tail := by
  rw [Regex.escapeChars]
  induction characters with
  | nil => rfl
  | cons c rest induction =>
      rw [List.flatMap_cons, List.append_assoc]
      by_cases special : Regex.isMeta c = true
      · have other : c ≠ '/' := by
          rintro rfl
          revert special
          decide
        rw [if_pos special]
        exact (slashable_escaped other).trans induction
      · have other : c ≠ '\\' := by
          rintro rfl
          revert special
          decide
        rw [if_neg special]
        exact (slashable_plain other).trans induction

theorem slashable_of_scan {characters body : List Char} {size : Nat}
    (scanned : Token.scanSlashed characters = some (body, size)) : isSlashable body = true := by
  induction characters using Token.scanSlashed.induct generalizing body size with
  | case1 => cases scanned
  | case2 rest induction =>
      obtain ⟨⟨inner, taken⟩, found, same⟩ := Option.map_eq_some_iff.mp scanned
      cases same
      rw [slashable_plain (by decide)]
      exact induction found
  | case3 c rest other induction =>
      rw [Token.scanSlashed] at scanned
      · obtain ⟨⟨inner, taken⟩, found, same⟩ := Option.map_eq_some_iff.mp scanned
        cases same
        rw [slashable_escaped fun same => other same]
        exact induction found
      · exact other
  | case4 rest =>
      cases scanned
      rfl
  | case5 c rest noSlash noPair noEnd induction =>
      rw [Token.scanSlashed] at scanned
      · obtain ⟨⟨inner, taken⟩, found, same⟩ := Option.map_eq_some_iff.mp scanned
        cases same
        have plain : c ≠ '\\' := by
          rintro rfl
          cases rest with
          | nil => cases found
          | cons d rest => exact noPair d rest rfl rfl
        rw [slashable_plain plain]
        exact induction found
      · exact noSlash
      · exact noPair
      · exact noEnd

theorem slashable_of_pattern {c : Char} {rest : List Char} {body flags : String} {size : Nat}
    (scanned : Token.scan quoting c rest = .ok (.pattern body flags, size)) :
    isSlashable body.toList = true := by
  rcases Token.of_scan scanned with ⟨_, ⟨⟩⟩ | ⟨inner, taken, _, same, found⟩ | ⟨_, _, ⟨⟩⟩ | ⟨_, ⟨⟩⟩
  cases same
  rw [String.toList_ofList]
  exact slashable_of_scan found

theorem slashable_of_list {text : String} {tokens : List Token}
    (listed : Token.list quoting text = .ok tokens) : ∀ token ∈ tokens, IsSlashable token := by
  have each := @Token.of_list quoting
    (fun lexeme => ∀ body flags, lexeme = .pattern body flags → isSlashable body.toList = true)
  refine each ?_ listed
  rintro c rest _ size scanned body flags rfl
  exact slashable_of_pattern scanned

/-- No glob has a slash with a backslash before it. -/
theorem slashable_to_regex (wildcard : Char) (glob : List Char) :
    isSlashable (Glob.toRegex wildcard glob) = true := by
  have body (tail : List Char) (slashable : isSlashable tail = true) :
      isSlashable (Glob.toRegex.body wildcard glob ++ tail) = true := by
    induction glob with
    | nil => exact slashable
    | cons c rest induction =>
        rw [Glob.toRegex.body]
        split
        · rw [List.cons_append, List.cons_append, slashable_plain (by decide),
            slashable_plain (by decide)]
          exact induction
        · rw [List.append_assoc, slashable_escape_chars]
          exact induction
  rw [Glob.toRegex, List.cons_append, slashable_plain (by decide)]
  exact body ['$'] rfl

end DetectionRules.CrowdStrike
