import DetectionRules.Proofs.Scanning

/-!
Quoted text in front of other text. It becomes one token with the text that was
quoted, and the tokens of the other text begin as many bytes later as it takes.
-/

namespace DetectionRules.Token

open Text (byteCount)

/-- Escaping backslashes and quotes at once comes to escaping backslashes first. -/
theorem double_quote_eq (text : String) :
    Text.doubleQuote text = "\"" ++ String.ofList (Text.replaceChar '"' ['\\', '"']
      (Text.replaceChar '\\' ['\\', '\\'] text.toList)) ++ "\"" := by
  rw [Text.doubleQuote, Text.replaceChar, Text.replaceChar, List.flatMap_assoc]
  congr 4
  funext c
  by_cases backslash : c = '\\'
  · subst backslash
    rfl
  by_cases quote : c = '"'
  · subst quote
    rfl
  · simp [Text.doubleQuote.escaped, backslash, quote]

def shift (bytes : Nat) (token : Token) : Token :=
  { token with offset := bytes + token.offset }

variable {quoting : Quoting} {characters : List Char} {tokens : List Token}

/-- Where a text begins is all that the places of its tokens depend on. -/
theorem list_from_shift {offset : Nat} (bytes : Nat)
    (listed : listFrom quoting offset characters = .ok tokens) :
    listFrom quoting (bytes + offset) characters = .ok (tokens.map (shift bytes)) := by
  induction offset, characters using listFrom.induct quoting generalizing tokens with
  | case1 offset =>
      rw [listFrom] at listed ⊢
      cases listed
      rfl
  | case2 offset c rest blank induction =>
      rw [listFrom, if_pos blank] at listed ⊢
      rw [Nat.add_assoc]
      exact induction listed
  | case3 offset c rest ink reason scanned =>
      rw [listFrom, if_neg ink, scanned] at listed
      cases listed
  | case4 offset c rest ink lexeme size scanned induction =>
      rw [listFrom, if_neg ink, scanned] at listed ⊢
      obtain ⟨others, later, listed⟩ := Success.of_bind listed
      cases listed
      simp only [Nat.add_assoc] at induction later ⊢
      rw [induction later]
      rfl

/-- A token in front of a text that is cut by itself. -/
theorem list_behind_token {c : Char} {body : List Char} {text rest : String} {lexeme : Lexeme}
    (written : text.toList = c :: body) (ink : Text.isBlank c = false)
    (scanned : scan quoting c (body ++ rest.toList) = .ok (lexeme, body.length))
    (listed : list quoting rest = .ok tokens) :
    list quoting (text ++ rest) =
      .ok (⟨lexeme, 0⟩ :: tokens.map (shift (byteCount text.toList))) := by
  have later := list_from_shift (byteCount text.toList) listed
  rw [list, String.toList_append, written, List.cons_append, listFrom, if_neg (by simp [ink]),
    scanned]
  rw [written, byteCount, Nat.add_zero] at later
  simp only [List.take_left, List.drop_left, Nat.zero_add, later]
  rfl

/-- Quoting is undone by cutting the text into tokens, whatever text follows that is cut into
tokens itself; a single quote must not follow single quotes. -/
theorem quoting_is_undone (text : String) {rest : String} (listed : list quoting rest = .ok tokens) :
    list quoting (Text.doubleQuote text ++ rest) =
        .ok (⟨.quoted text, 0⟩ :: tokens.map (shift (byteCount (Text.doubleQuote text).toList))) ∧
      (quoting.single = true → rest.toList.head? ≠ some '\'' →
        list quoting (Text.singleQuote text ++ rest) =
          .ok (⟨.quoted text, 0⟩ ::
            tokens.map (shift (byteCount (Text.singleQuote text).toList)))) := by
  constructor
  · obtain ⟨body, written, scanned⟩ := scan_double_quote quoting text
    exact list_behind_token written (by decide) (scanned _) listed
  · intro known ends
    obtain ⟨body, written, scanned⟩ := scan_single_quote known text
    exact list_behind_token written (by decide) (scanned _ ends) listed

theorem quoting_of_both_quotes_is_undone :
    list ⟨true, false, false⟩ "= c" = .ok [⟨.symbol "=", 0⟩, ⟨.word "c", 2⟩] ∧
      list ⟨true, false, false⟩ (Text.doubleQuote "it's \\\"" ++ "= c") =
        .ok [⟨.quoted "it's \\\"", 0⟩, ⟨.symbol "=", 11⟩, ⟨.word "c", 13⟩] ∧
      list ⟨true, false, false⟩ (Text.singleQuote "it's \\\"" ++ "= c") =
        .ok [⟨.quoted "it's \\\"", 0⟩, ⟨.symbol "=", 10⟩, ⟨.word "c", 12⟩] := by
  have listed : list ⟨true, false, false⟩ "= c" = .ok [⟨.symbol "=", 0⟩, ⟨.word "c", 2⟩] := by cbv
  have undone := quoting_is_undone "it's \\\"" listed
  exact ⟨listed, undone.1, undone.2 rfl (by decide)⟩

end DetectionRules.Token
