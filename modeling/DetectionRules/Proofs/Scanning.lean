import DetectionRules.Proofs.Success
import DetectionRules.Proofs.Text
import DetectionRules.Token.Basic

/-!
Cutting written text into tokens again. Where a token begins does not matter
here, so what is said of a text is which lexemes it is cut into, and what is
said of a part of it is what it puts in front of the lexemes of the rest.
-/

namespace DetectionRules.Token

/-- Characters that are cut into tokens with the given lexemes, wherever they begin. -/
def Scans (quoting : Quoting) (characters : List Char) (lexemes : List Lexeme) : Prop :=
  ∀ offset, ∃ tokens, listFrom quoting offset characters = .ok tokens ∧
    tokens.map (·.lexeme) = lexemes

/-- Characters that may follow a word, a text in quotes or an expression between slashes. -/
def Breaks (rest : List Char) : Prop :=
  ∀ c ∈ rest.head?, Text.isBlank c = true ∨ c = ')' ∨ c = ']' ∨ c = ','

/-- Text that puts lexemes in front of those of the rest, as long as the rest breaks it off. -/
def Spells (quoting : Quoting) (text : String) (lexemes : List Lexeme) : Prop :=
  ∀ rest others, Breaks rest → Scans quoting rest others →
    Scans quoting (text.toList ++ rest) (lexemes ++ others)

variable {quoting : Quoting}

theorem scans_nil : Scans quoting [] [] := by
  intro offset
  exact ⟨[], by rw [listFrom], rfl⟩

theorem scans_blank {c : Char} {rest : List Char} {lexemes : List Lexeme}
    (blank : Text.isBlank c = true) (scans : Scans quoting rest lexemes) :
    Scans quoting (c :: rest) lexemes := by
  intro offset
  obtain ⟨tokens, listed, same⟩ := scans (offset + c.utf8Size)
  refine ⟨tokens, ?_, same⟩
  rw [listFrom, if_pos blank, listed]

theorem scans_token {c : Char} {rest : List Char} {lexeme : Lexeme} {size : Nat}
    {lexemes : List Lexeme} (ink : Text.isBlank c = false)
    (first : scan quoting c rest = .ok (lexeme, size))
    (scans : Scans quoting (rest.drop size) lexemes) :
    Scans quoting (c :: rest) (lexeme :: lexemes) := by
  intro offset
  obtain ⟨tokens, listed, same⟩ := scans (offset + c.utf8Size + Text.byteCount (rest.take size))
  refine ⟨⟨lexeme, offset⟩ :: tokens, ?_, by rw [List.map_cons, same]⟩
  rw [listFrom, if_neg (by simp [ink]), first]
  simp only [listed]
  rfl

theorem breaks_nil : Breaks [] := by
  intro c member
  cases member

theorem breaks_blank {c : Char} {rest : List Char} (blank : Text.isBlank c = true) :
    Breaks (c :: rest) := by
  intro other member
  cases member
  exact .inl blank

theorem scans_blanks {blanks rest : List Char} {lexemes : List Lexeme}
    (blank : ∀ c ∈ blanks, Text.isBlank c = true) (scans : Scans quoting rest lexemes) :
    Scans quoting (blanks ++ rest) lexemes := by
  induction blanks with
  | nil => exact scans
  | cons c blanks induction =>
      apply scans_blank (blank c (by simp))
      exact induction fun other member => blank other (by simp [member])

theorem breaks_blanks {blanks rest : List Char} (filled : blanks ≠ [])
    (blank : ∀ c ∈ blanks, Text.isBlank c = true) : Breaks (blanks ++ rest) := by
  obtain ⟨c, others, rfl⟩ := List.exists_cons_of_ne_nil filled
  exact breaks_blank (blank c (by simp))

theorem breaks_closing (rest : List Char) : Breaks (')' :: rest) := by
  intro other member
  cases member
  exact .inr (.inl rfl)

theorem breaks_bracket (rest : List Char) : Breaks (']' :: rest) := by
  intro other member
  cases member
  exact .inr (.inr (.inl rfl))

theorem breaks_comma (rest : List Char) : Breaks (',' :: rest) := by
  intro other member
  cases member
  exact .inr (.inr (.inr rfl))

theorem scans_of_spells {text : String} {lexemes : List Lexeme}
    (spells : Spells quoting text lexemes) : Scans quoting text.toList lexemes := by
  have whole := spells [] [] breaks_nil scans_nil
  rwa [List.append_nil, List.append_nil] at whole

/-- Reading the tokens of a text that spells some lexemes. -/
theorem list_of_spells {text : String} {lexemes : List Lexeme}
    (spells : Spells quoting text lexemes) :
    ∃ tokens, list quoting text = .ok tokens ∧ tokens.map (·.lexeme) = lexemes :=
  scans_of_spells spells 0

theorem of_scan {c : Char} {rest : List Char} {lexeme : Lexeme} {size : Nat}
    (scanned : scan quoting c rest = .ok (lexeme, size)) :
    (∃ text, lexeme = .quoted text) ∨
      (∃ body taken flags, lexeme = .pattern (String.ofList body) flags ∧
        scanSlashed rest = some (body, taken)) ∨
      (∃ sign ∈ signs, lexeme = .symbol sign) ∨
      ∃ others, lexeme = .word (String.ofList (c :: others)) := by
  rw [scan] at scanned
  split at scanned
  · split at scanned <;> cases scanned
    exact .inl ⟨_, rfl⟩
  · split at scanned
    · split at scanned <;> cases scanned
      exact .inl ⟨_, rfl⟩
    · split at scanned
      · split at scanned <;> cases scanned
        exact .inl ⟨_, rfl⟩
      · split at scanned
        · split at scanned
          · rename_i found
            cases scanned
            exact .inr (.inl ⟨_, _, _, rfl, found⟩)
          · cases scanned
        · split at scanned
          · rename_i sign found
            cases scanned
            exact .inr (.inr (.inl ⟨sign, List.mem_of_find?_eq_some found, rfl⟩))
          · cases scanned
            exact .inr (.inr (.inr ⟨_, rfl⟩))

theorem of_list {property : Lexeme → Prop} {text : String} {tokens : List Token}
    (each : ∀ c rest lexeme size, scan quoting c rest = .ok (lexeme, size) → property lexeme)
    (listed : list quoting text = .ok tokens) : ∀ token ∈ tokens, property token.lexeme := by
  rw [list] at listed
  generalize text.toList = characters, 0 = offset at listed
  fun_induction listFrom quoting offset characters generalizing tokens with
  | case1 offset =>
      cases listed
      simp
  | case2 offset c rest blank induction => exact induction listed
  | case3 offset c rest filled reason refused => cases listed
  | case4 offset c rest filled lexeme taken scanned induction =>
      obtain ⟨others, othersListed, listed⟩ := Success.of_bind listed
      cases listed
      exact List.forall_mem_cons.mpr ⟨each c rest lexeme taken scanned, induction othersListed⟩

theorem scan_sign {c : Char} {rest : List Char} {sign : String}
    (found : sign? (c :: rest) = some sign) (letter : c ≠ '"' ∧ c ≠ '\'' ∧ c ≠ '\x60' ∧ c ≠ '/') :
    scan quoting c rest = .ok (.symbol sign, sign.length - 1) := by
  obtain ⟨double, single, tick, slash⟩ := letter
  simp [scan, double, single, tick, slash, found]

theorem scans_sign {c : Char} {rest tail : List Char} {sign : String} {lexemes : List Lexeme}
    (found : sign? (c :: rest) = some sign)
    (letter : (Text.isBlank c = false ∧ c ≠ '"' ∧ c ≠ '\'' ∧ c ≠ '\x60' ∧ c ≠ '/') ∧
      rest.drop (sign.length - 1) = tail)
    (scans : Scans quoting tail lexemes) :
    Scans quoting (c :: rest) (.symbol sign :: lexemes) := by
  refine scans_token letter.1.1 (scan_sign found letter.1.2) ?_
  rw [letter.2]
  exact scans

theorem scans_closing {rest : List Char} {lexemes : List Lexeme}
    (scans : Scans quoting rest lexemes) :
    Scans quoting (')' :: rest) (.symbol ")" :: lexemes) :=
  scans_sign (by simp [sign?, signs]) ⟨by decide, rfl⟩ scans

theorem scans_opening {rest : List Char} {lexemes : List Lexeme}
    (scans : Scans quoting rest lexemes) :
    Scans quoting ('(' :: rest) (.symbol "(" :: lexemes) :=
  scans_sign (by simp [sign?, signs]) ⟨by decide, rfl⟩ scans

theorem scans_comparison {sign : String} {rest : List Char} {lexemes : List Lexeme}
    (known : sign ∈ ["==", "=", "!=", ">", ">=", "<", "<="])
    (ends : ∀ c ∈ rest.head?, c ≠ '=' ∧ c ≠ '~' ∧ c ≠ '>')
    (scans : Scans quoting rest lexemes) :
    Scans quoting (sign.toList ++ rest) (.symbol sign :: lexemes) := by
  have other : ∀ d, d = '=' ∨ d = '~' ∨ d = '>' → [d].isPrefixOf rest = false := by
    intro d sign
    cases rest with
    | nil => rfl
    | cons c rest =>
        have different := ends c rfl
        rcases sign with rfl | rfl | rfl
        · simp [List.isPrefixOf, different.1.symm]
        · simp [List.isPrefixOf, different.2.1.symm]
        · simp [List.isPrefixOf, different.2.2.symm]
  have equal := other '=' (by simp)
  have tilde := other '~' (by simp)
  have greater := other '>' (by simp)
  simp only [List.mem_cons, List.not_mem_nil, or_false] at known
  rcases known with rfl | rfl | rfl | rfl | rfl | rfl | rfl
  · have whole : Scans quoting ('=' :: '=' :: rest) (.symbol "==" :: lexemes) :=
      scans_sign (by simp [sign?, signs, List.isPrefixOf]) ⟨by decide, rfl⟩ scans
    simpa using whole
  · have whole : Scans quoting ('=' :: rest) (.symbol "=" :: lexemes) :=
      scans_sign (by simp [sign?, signs, List.isPrefixOf, equal, tilde]) ⟨by decide, rfl⟩ scans
    simpa using whole
  · have whole : Scans quoting ('!' :: '=' :: rest) (.symbol "!=" :: lexemes) :=
      scans_sign (by simp [sign?, signs, List.isPrefixOf]) ⟨by decide, rfl⟩ scans
    simpa using whole
  · have whole : Scans quoting ('>' :: rest) (.symbol ">" :: lexemes) :=
      scans_sign (by simp [sign?, signs, List.isPrefixOf, equal]) ⟨by decide, rfl⟩ scans
    simpa using whole
  · have whole : Scans quoting ('>' :: '=' :: rest) (.symbol ">=" :: lexemes) :=
      scans_sign (by simp [sign?, signs, List.isPrefixOf]) ⟨by decide, rfl⟩ scans
    simpa using whole
  · have whole : Scans quoting ('<' :: rest) (.symbol "<" :: lexemes) :=
      scans_sign (by simp [sign?, signs, List.isPrefixOf, equal, greater]) ⟨by decide, rfl⟩ scans
    simpa using whole
  · have whole : Scans quoting ('<' :: '=' :: rest) (.symbol "<=" :: lexemes) :=
      scans_sign (by simp [sign?, signs, List.isPrefixOf]) ⟨by decide, rfl⟩ scans
    simpa using whole

/-- Characters that make up one word, with nothing in them that ends a word. -/
structure IsWord (quoting : Quoting) (word : List Char) : Prop where
  filled : word ≠ []
  whole : ∀ c ∈ word, endsWord quoting c = false
  slash : quoting.slashes = true → word.head? ≠ some '/'

theorem ends_word_false {c : Char} (part : endsWord quoting c = false) :
    Text.isBlank c = false ∧ c ∉ "=!<>()[]\x7b\x7d,|\x22".toList ∧
      (quoting.single = true → c ≠ '\'') ∧ (quoting.backticks = true → c ≠ '\x60') := by
  simp only [endsWord, Bool.or_eq_false_iff, Bool.and_eq_false_iff, beq_eq_false_iff_ne] at part
  obtain ⟨⟨⟨blank, signs⟩, single⟩, backtick⟩ := part
  refine ⟨blank, ?_, fun on => ?_, fun on => ?_⟩
  · intro member
    rw [List.contains_iff_mem.mpr member] at signs
    cases signs
  · exact single.resolve_left (by simp [on])
  · exact backtick.resolve_left (by simp [on])

theorem sign_start {sign : String} (known : sign ∈ signs) :
    ∃ c others, sign.toList = c :: others ∧ c ∈ "=!<>()[]\x7b\x7d,|\x22".toList := by
  simp only [signs, List.mem_cons, List.not_mem_nil, or_false] at known
  rcases known with rfl | rfl | rfl | rfl | rfl | rfl | rfl | rfl | rfl | rfl | rfl | rfl | rfl |
    rfl | rfl | rfl | rfl | rfl | rfl
  all_goals exact ⟨_, _, rfl, by decide⟩

theorem sign_none {c : Char} {rest : List Char}
    (other : c ∉ "=!<>()[]\x7b\x7d,|\x22".toList) : sign? (c :: rest) = none := by
  rw [sign?, List.find?_eq_none]
  intro sign member found
  obtain ⟨d, others, same, inside⟩ := sign_start member
  rw [same, List.isPrefixOf_cons_cons, Bool.and_eq_true, beq_iff_eq] at found
  exact other (found.1 ▸ inside)

theorem ends_word_of_breaks {c : Char} {rest : List Char} (breaks : Breaks (c :: rest)) :
    endsWord quoting c = true := by
  rcases breaks c rfl with blank | rfl | rfl | rfl
  · simp [endsWord, blank]
  · simp [endsWord]
  · simp [endsWord]
  · simp [endsWord]

theorem not_letter_of_breaks {c : Char} {rest : List Char} (breaks : Breaks (c :: rest)) :
    c.isAlpha = false := by
  rcases breaks c rfl with blank | rfl | rfl | rfl
  · cases letter : c.isAlpha with
    | false => rfl
    | true =>
        have ink := Text.is_blank_of_is_alphanum (c := c) (by simp [Char.isAlphanum, letter])
        cases blank.symm.trans ink
  · decide
  · decide
  · decide

theorem scan_word {c : Char} {word rest : List Char} (isWord : IsWord quoting (c :: word))
    (ends : ∀ d ∈ rest.head?, endsWord quoting d = true) :
    scan quoting c (word ++ rest) = .ok (.word (String.ofList (c :: word)), word.length) := by
  obtain ⟨blank, other, single, backtick⟩ := ends_word_false (isWord.whole c (by simp))
  have double : c ≠ '"' := by
    rintro rfl
    exact other (by decide)
  have noSingle : (decide (c = '\'') && quoting.single) = false := by
    cases on : quoting.single with
    | false => simp
    | true => simp [single on]
  have noBacktick : (decide (c = '\x60') && quoting.backticks) = false := by
    cases on : quoting.backticks with
    | false => simp
    | true => simp [backtick on]
  have noSlash : (decide (c = '/') && quoting.slashes) = false := by
    cases on : quoting.slashes with
    | false => simp
    | true =>
        have start := isWord.slash on
        simp_all
  rw [scan, if_neg double, if_neg (by simp [noSingle]), if_neg (by simp [noBacktick]),
    if_neg (by simp [noSlash]), sign_none other]
  have inside : ∀ d ∈ word, (!endsWord quoting d) = true := fun d member => by
    rw [isWord.whole d (List.mem_cons_of_mem c member)]
    rfl
  have taken := Text.take_while_front inside fun d start => by rw [ends d start]; rfl
  simp only [taken]

theorem scans_word {word rest : List Char} {lexemes : List Lexeme} (isWord : IsWord quoting word)
    (ends : ∀ c ∈ rest.head?, endsWord quoting c = true) (scans : Scans quoting rest lexemes) :
    Scans quoting (word ++ rest) (.word (String.ofList word) :: lexemes) := by
  obtain ⟨c, others, rfl⟩ := List.exists_cons_of_ne_nil isWord.filled
  refine scans_token (ends_word_false (isWord.whole c (by simp))).1 (scan_word isWord ends) ?_
  have dropped : (others.append rest).drop others.length = rest := List.drop_left
  rw [dropped]
  exact scans

theorem spells_word {word : String} (isWord : IsWord quoting word.toList) :
    Spells quoting word [.word word] := by
  intro rest others breaks scans
  have ends : ∀ c ∈ rest.head?, endsWord quoting c = true := by
    intro c member
    cases rest with
    | nil => cases member
    | cons d tail =>
        cases member
        exact ends_word_of_breaks breaks
  have whole := scans_word isWord ends scans
  rwa [String.ofList_toList] at whole

/-- Characters that never end a word or begin another token. -/
def isPlain (c : Char) : Bool := c.isAlphanum || "_.-:#@$\\*".toList.contains c

theorem ends_word_of_plain {c : Char} (plain : isPlain c = true) : endsWord quoting c = false := by
  rw [isPlain, Bool.or_eq_true] at plain
  rcases plain with part | part
  · have noBlank := Text.is_blank_of_is_alphanum part
    have noSign : ∀ d, d.isAlphanum = false → c ≠ d := by
      rintro d other rfl
      rw [part] at other
      cases other
    simp [endsWord, noBlank, noSign]
  · simp only [List.contains_iff_mem] at part
    have cases : c ∈ ['_', '.', '-', ':', '#', '@', '$', '\\', '*'] := part
    fin_cases cases <;> simp [endsWord, Text.isBlank]

theorem is_word_of_plain {word : List Char} (filled : word ≠ [])
    (plain : ∀ c ∈ word, isPlain c = true) : IsWord quoting word := by
  refine ⟨filled, fun c member => ends_word_of_plain (plain c member), fun _ start => ?_⟩
  have slash := plain '/' (List.mem_of_mem_head? (by simp [start]))
  revert slash
  decide

theorem scan_double_quoted_escaped (text rest : List Char) :
    scanDoubleQuoted (text.flatMap Text.doubleQuote.escaped ++ '"' :: rest) =
      some (text, (text.flatMap Text.doubleQuote.escaped).length + 1) := by
  induction text with
  | nil => simp [scanDoubleQuoted]
  | cons c text induction =>
      rw [List.flatMap_cons, List.append_assoc]
      by_cases backslash : c = '\\'
      · subst backslash
        simp [Text.doubleQuote.escaped, scanDoubleQuoted, induction]
      · by_cases quote : c = '"'
        · subst quote
          simp [Text.doubleQuote.escaped, scanDoubleQuoted, induction]
        · simp [Text.doubleQuote.escaped, scanDoubleQuoted, induction, backslash]

/-- A text in double quotes is a token, whatever follows it. -/
theorem scan_double_quote (quoting : Quoting) (text : String) :
    ∃ body, (Text.doubleQuote text).toList = '"' :: body ∧
      ∀ rest, scan quoting '"' (body ++ rest) = .ok (.quoted text, body.length) := by
  refine ⟨text.toList.flatMap Text.doubleQuote.escaped ++ ['"'], ?_, fun rest => ?_⟩
  · simp [Text.doubleQuote]
  · rw [scan, if_pos rfl, List.append_assoc, List.singleton_append, scan_double_quoted_escaped]
    simp

theorem scans_double_quoted {text : String} {rest : List Char} {lexemes : List Lexeme}
    (scans : Scans quoting rest lexemes) :
    Scans quoting ((Text.doubleQuote text).toList ++ rest) (.quoted text :: lexemes) := by
  obtain ⟨body, written, scanned⟩ := scan_double_quote quoting text
  rw [written]
  apply scans_token (by decide) (scanned rest)
  rwa [List.drop_left]

theorem scan_single_quoted_doubled {text rest : List Char} (ends : rest.head? ≠ some '\'') :
    scanSingleQuoted (Text.replaceChar '\'' ['\'', '\''] text ++ '\'' :: rest) =
      some (text, (Text.replaceChar '\'' ['\'', '\''] text).length + 1) := by
  induction text with
  | nil =>
      cases rest with
      | nil => simp [Text.replaceChar, scanSingleQuoted]
      | cons c rest => simp_all [Text.replaceChar, scanSingleQuoted]
  | cons c text induction =>
      simp only [Text.replaceChar] at induction
      rw [Text.replaceChar, List.flatMap_cons, List.append_assoc]
      by_cases quote : c = '\''
      · subst quote
        simp [scanSingleQuoted, induction]
      · simp [scanSingleQuoted, induction, quote]

theorem scan_single_quote (known : quoting.single = true) (text : String) :
    ∃ body, (Text.singleQuote text).toList = '\'' :: body ∧
      ∀ rest : List Char, rest.head? ≠ some '\'' →
        scan quoting '\'' (body ++ rest) = .ok (.quoted text, body.length) := by
  refine ⟨Text.replaceChar '\'' ['\'', '\''] text.toList ++ ['\''], ?_, fun rest ends => ?_⟩
  · simp [Text.singleQuote]
  · rw [scan, if_neg (by decide), if_pos (by simp [known]), List.append_assoc,
      List.singleton_append, scan_single_quoted_doubled ends]
    simp

theorem scans_single_quoted {text : String} {rest : List Char} {lexemes : List Lexeme}
    (known : quoting.single = true) (ends : rest.head? ≠ some '\'')
    (scans : Scans quoting rest lexemes) :
    Scans quoting ((Text.singleQuote text).toList ++ rest) (.quoted text :: lexemes) := by
  obtain ⟨body, written, scanned⟩ := scan_single_quote known text
  rw [written]
  apply scans_token (by decide) (scanned rest ends)
  rwa [List.drop_left]

theorem scan_backticked_plain {text rest : List Char} (plain : '\x60' ∉ text) :
    scanBackticked (text ++ '\x60' :: rest) = some (text, text.length + 1) := by
  induction text with
  | nil => rfl
  | cons c text induction =>
      have others := induction (by intro member; exact plain (by simp [member]))
      have first : c ≠ '\x60' := by
        rintro rfl
        exact plain (by simp)
      simp [scanBackticked, others]

theorem scans_backticked {text : String} {rest : List Char} {lexemes : List Lexeme}
    (known : quoting.backticks = true) (plain : '\x60' ∉ text.toList)
    (scans : Scans quoting rest lexemes) :
    Scans quoting ('\x60' :: (text.toList ++ '\x60' :: rest)) (.quoted text :: lexemes) := by
  have first : scan quoting '\x60' (text.toList ++ '\x60' :: rest) =
      .ok (.quoted text, text.toList.length + 1) := by
    rw [scan, if_neg (by decide), if_neg (by simp), if_pos (by simp [known]),
      scan_backticked_plain plain]
    simp
  apply scans_token (by decide) first
  simpa using scans

theorem spells_double_quote (text : String) :
    Spells quoting (Text.doubleQuote text) [.quoted text] := by
  intro rest others _ scans
  exact scans_double_quoted scans

theorem spells_empty : Spells quoting "" [] := by
  intro rest others _ scans
  simpa using scans

theorem spells_call {word inner : String} {lexemes : List Lexeme}
    (isWord : IsWord quoting word.toList) (spells : Spells quoting inner lexemes) :
    Spells quoting (word ++ "(" ++ inner ++ ")")
      (.word word :: .symbol "(" :: lexemes ++ [.symbol ")"]) := by
  intro rest others _ scans
  have closed := spells _ _ (breaks_closing rest) (scans_closing scans)
  have opened := scans_opening closed
  have whole := scans_word isWord (by simp [endsWord]) opened
  simpa using whole

theorem spells_brackets {inner : String} {lexemes : List Lexeme}
    (spells : Spells quoting inner lexemes) :
    Spells quoting ("[" ++ inner ++ "]") (.symbol "[" :: lexemes ++ [.symbol "]"]) := by
  intro rest others _ scans
  have closing : Scans quoting (']' :: rest) (.symbol "]" :: others) :=
    scans_sign (by simp [sign?, signs]) ⟨by decide, rfl⟩ scans
  have closed := spells _ _ (breaks_bracket rest) closing
  have whole : Scans quoting ('[' :: (inner.toList ++ ']' :: rest))
      (.symbol "[" :: (lexemes ++ .symbol "]" :: others)) :=
    scans_sign (by simp [sign?, signs]) ⟨by decide, rfl⟩ closed
  simpa using whole

theorem spells_compared {word sign text : String} {lexemes : List Lexeme}
    (isWord : IsWord quoting word.toList) (known : sign ∈ ["==", "=", "!=", ">", ">=", "<", "<="])
    (front : ∃ c ∈ text.toList.head?, c ≠ '=' ∧ c ≠ '~' ∧ c ≠ '>')
    (spells : Spells quoting text lexemes) :
    Spells quoting (word ++ sign ++ text) (.word word :: .symbol sign :: lexemes) := by
  intro rest others breaks scans
  have value := spells rest others breaks scans
  obtain ⟨c, start, other⟩ := front
  obtain ⟨tail, written⟩ := List.head?_eq_some_iff.mp start
  have compared := @scans_comparison quoting sign (text.toList ++ rest) _ known
    (by simpa [written] using other) value
  have ends : ∀ d ∈ (sign.toList ++ (text.toList ++ rest)).head?, endsWord quoting d = true := by
    simp only [List.mem_cons, List.not_mem_nil, or_false] at known
    rcases known with rfl | rfl | rfl | rfl | rfl | rfl | rfl <;> simp [endsWord]
  have whole := scans_word isWord ends compared
  simpa using whole

theorem spells_pipe {text : String} {lexemes : List Lexeme} (spells : Spells quoting text lexemes) :
    Spells quoting ("| " ++ text) (.symbol "|" :: lexemes) := by
  intro rest others breaks scans
  have tail := scans_blank (c := ' ') (by decide) (spells rest others breaks scans)
  have whole : Scans quoting ('|' :: ' ' :: (text.toList ++ rest))
      (.symbol "|" :: (lexemes ++ others)) :=
    scans_sign (by simp [sign?, signs]) ⟨by decide, rfl⟩ tail
  simpa using whole

section Elements

variable {Element : Type}

/-- The lexemes of elements behind the first. -/
def behind (between : List Lexeme) (lexemes : Element → List Lexeme) (elements : List Element) :
    List Lexeme :=
  elements.flatMap fun element => between ++ lexemes element

def joined (between : List Lexeme) (lexemes : Element → List Lexeme) :
    List Element → List Lexeme
  | [] => []
  | first :: others => lexemes first ++ behind between lexemes others

theorem joined_nil (lexemes : Element → List Lexeme) (elements : List Element) :
    joined [] lexemes elements = (elements.map lexemes).flatten := by
  cases elements with
  | nil => rfl
  | cons first others => simp [joined, behind, List.flatMap_def]

/-- Text that puts lexemes between those of its neighbours. -/
def Connects (quoting : Quoting) (separator : String) (between : List Lexeme) : Prop :=
  ∀ {left right : String} {leftLexemes rightLexemes : List Lexeme},
    Spells quoting left leftLexemes → Spells quoting right rightLexemes →
    Spells quoting (left ++ separator ++ right) (leftLexemes ++ between ++ rightLexemes)

theorem connects_blanks {separator : String} (filled : separator.toList ≠ [])
    (blank : ∀ c ∈ separator.toList, Text.isBlank c = true) : Connects quoting separator [] := by
  intro left right leftLexemes rightLexemes first second rest others breaks scans
  have tail := scans_blanks blank (second rest others breaks scans)
  have whole := first _ _ (breaks_blanks filled blank) tail
  simpa only [String.toList_append, List.append_assoc, List.nil_append] using whole

theorem connects_blank : Connects quoting " " [] := connects_blanks (by simp) (by simp [Text.isBlank])

theorem connects_word {word : String} (isWord : IsWord quoting word.toList) :
    Connects quoting (" " ++ word ++ " ") [.word word] := by
  intro left right leftLexemes rightLexemes first second
  have front := connects_blank first (spells_word isWord)
  have whole := connects_blank front second
  rw [List.append_nil, List.append_nil] at whole
  have same : left ++ (" " ++ word ++ " ") ++ right = left ++ " " ++ word ++ " " ++ right := by
    simp only [String.append_assoc]
  rw [same]
  exact whole

theorem connects_comparison {sign separator : String} (spaced : separator = " " ++ sign ++ " ")
    (known : sign ∈ ["==", "=", "!=", ">", ">=", "<", "<="]) :
    Connects quoting separator [.symbol sign] := by
  rw [spaced]
  intro left right leftLexemes rightLexemes first second rest others breaks scans
  have tail := scans_blank (c := ' ') (by decide) (second rest others breaks scans)
  have compared := scans_comparison known (by simp) tail
  have front := scans_blank (c := ' ') (by decide) compared
  simpa using first _ _ (breaks_blank (by decide)) front

theorem connects_comma : Connects quoting ", " [.symbol ","] := by
  intro left right leftLexemes rightLexemes first second rest others breaks scans
  have tail := scans_blank (c := ' ') (by decide) (second rest others breaks scans)
  have comma : Scans quoting (',' :: ' ' :: (right.toList ++ rest))
      (.symbol "," :: (rightLexemes ++ others)) :=
    scans_sign (by simp [sign?, signs]) ⟨by decide, rfl⟩ tail
  simpa using first _ _ (breaks_comma _) comma

theorem spells_intercalate {separator : String} {between : List Lexeme}
    {lexemes : Element → List Lexeme} {texts : List String} {elements : List Element}
    (connects : Connects quoting separator between)
    (spells : List.Forall₂ (fun text element => Spells quoting text (lexemes element))
      texts elements) (filled : elements ≠ []) :
    Spells quoting (String.intercalate separator texts) (joined between lexemes elements) := by
  induction spells with
  | nil => exact absurd rfl filled
  | @cons text element texts elements first others induction =>
      cases others with
      | nil => simpa [joined, behind] using first
      | @cons nextText next texts elements second rest =>
          have tail := induction (List.cons_ne_nil next elements)
          rw [String.intercalate_cons_cons]
          simpa [joined, behind] using connects first tail

theorem spells_intercalate_map {separator : String} {between : List Lexeme}
    {text : Element → String} {lexemes : Element → List Lexeme} {elements : List Element}
    (connects : Connects quoting separator between)
    (spells : ∀ element ∈ elements, Spells quoting (text element) (lexemes element))
    (filled : elements ≠ []) :
    Spells quoting (String.intercalate separator (elements.map text))
      (joined between lexemes elements) := by
  refine spells_intercalate connects ?_ filled
  rw [List.forall₂_map_left_iff, List.forall₂_same]
  exact spells

end Elements

/-- As `Spells`, for text that needs nothing to break it off. -/
def SpellsLine (quoting : Quoting) (text : String) (lexemes : List Lexeme) : Prop :=
  ∀ rest others, Scans quoting rest others → Scans quoting (text.toList ++ rest) (lexemes ++ others)

theorem spells_of_line {text : String} {lexemes : List Lexeme}
    (line : SpellsLine quoting text lexemes) : Spells quoting text lexemes :=
  fun rest others _ scans => line rest others scans

theorem line_empty : SpellsLine quoting "" [] := by
  intro rest others scans
  simpa using scans

theorem line_append {first second : String} {firstLexemes secondLexemes : List Lexeme}
    (front : SpellsLine quoting first firstLexemes)
    (back : SpellsLine quoting second secondLexemes) :
    SpellsLine quoting (first ++ second) (firstLexemes ++ secondLexemes) := by
  intro rest others scans
  have whole := front _ _ (back rest others scans)
  simpa only [String.toList_append, List.append_assoc] using whole

theorem line_of_spells {before text after : String} {lexemes : List Lexeme}
    (beforeBlank : ∀ c ∈ before.toList, Text.isBlank c = true)
    (spells : Spells quoting text lexemes) (filled : after.toList ≠ [])
    (afterBlank : ∀ c ∈ after.toList, Text.isBlank c = true) :
    SpellsLine quoting (before ++ text ++ after) lexemes := by
  intro rest others scans
  have tail := scans_blanks afterBlank scans
  have inner := spells _ _ (breaks_blanks filled afterBlank) tail
  simpa only [String.toList_append, List.append_assoc] using scans_blanks beforeBlank inner

theorem line_join {lines : List String} {parts : List (List Lexeme)}
    (each : List.Forall₂ (SpellsLine quoting) lines parts) :
    SpellsLine quoting (String.join lines) parts.flatten := by
  induction each with
  | nil => exact line_empty
  | cons first _ induction =>
      rw [String.join_cons, List.flatten_cons]
      exact line_append first induction

end DetectionRules.Token
