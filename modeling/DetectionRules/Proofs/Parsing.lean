import DetectionRules.Proofs.Scanning
import DetectionRules.Token.Parser

/-!
Running parsers on tokens that are known up to the places where they begin. The
equations here step through a parser; `Reads` says what a parser makes of
lexemes wherever they stand and whatever follows, as far as `next` admits it.
-/

namespace DetectionRules.Parser

open Token (behind joined)

variable {Result Next : Type}

@[simp]
theorem bind_apply (parser : Parser Result) (continued : Result → Parser Next)
    (tokens : List Token) :
    (parser >>= continued) tokens = match parser tokens with
      | .error fault => .error fault
      | .ok (result, rest) => continued result rest := by
  cases found : parser tokens <;> simp [bind, StateT.bind, Except.bind, found]

@[simp]
theorem map_apply (change : Result → Next) (parser : Parser Result) (tokens : List Token) :
    (change <$> parser) tokens = match parser tokens with
      | .error fault => .error fault
      | .ok (result, rest) => .ok (change result, rest) := by
  rw [← bind_pure_comp, bind_apply]
  cases parser tokens <;> rfl

@[simp]
theorem pure_apply (result : Result) (tokens : List Token) :
    (pure result : Parser Result) tokens = .ok (result, tokens) := rfl

@[simp]
theorem get_apply (tokens : List Token) :
    (get : Parser (List Token)) tokens = .ok (tokens, tokens) := rfl

@[simp]
theorem set_apply (tokens others : List Token) :
    (set others : Parser PUnit) tokens = .ok (⟨⟩, others) := rfl

@[simp]
theorem sees_apply (test : List Token → Bool) (tokens : List Token) :
    sees test tokens = .ok (test tokens, tokens) := rfl

@[simp]
theorem at_end_apply (tokens : List Token) : atEnd tokens = .ok (tokens.isEmpty, tokens) := rfl

@[simp]
theorem offset_apply (tokens : List Token) : offset tokens = .ok (offset? tokens, tokens) := rfl

@[simp]
theorem skip_apply (tokens : List Token) : skip tokens = .ok (⟨⟩, tokens.drop 1) := rfl

@[simp]
theorem take_if_nil (test : List Token → Bool) : takeIf test [] = .ok (false, []) := rfl

@[simp]
theorem take_if_cons (test : List Token → Bool) (token : Token) (rest : List Token) :
    takeIf test (token :: rest) =
      if test (token :: rest) then .ok (true, rest) else .ok (false, token :: rest) := rfl

theorem take_if_false {test : List Token → Bool} {tokens : List Token}
    (fails : test tokens = false) : takeIf test tokens = .ok (false, tokens) := by
  cases tokens <;> simp [fails]

@[simp]
theorem next_is_sign_nil (sign : String) : nextIsSign sign [] = false := rfl

@[simp]
theorem next_is_sign_symbol (sign found : String) (offset : Nat) (rest : List Token) :
    nextIsSign sign (⟨.symbol found, offset⟩ :: rest) = (found == sign) := rfl

@[simp]
theorem next_is_sign_word (sign word : String) (offset : Nat) (rest : List Token) :
    nextIsSign sign (⟨.word word, offset⟩ :: rest) = false := rfl

@[simp]
theorem next_is_sign_quoted (sign text : String) (offset : Nat) (rest : List Token) :
    nextIsSign sign (⟨.quoted text, offset⟩ :: rest) = false := rfl

@[simp]
theorem next_is_sign_pattern (sign body flags : String) (offset : Nat) (rest : List Token) :
    nextIsSign sign (⟨.pattern body flags, offset⟩ :: rest) = false := rfl

@[simp]
theorem next_is_word_nil (word : String) : nextIsWord word [] = false := rfl

@[simp]
theorem next_is_word_word (word found : String) (offset : Nat) (rest : List Token) :
    nextIsWord word (⟨.word found, offset⟩ :: rest) = (found == word) := rfl

@[simp]
theorem next_is_word_symbol (word sign : String) (offset : Nat) (rest : List Token) :
    nextIsWord word (⟨.symbol sign, offset⟩ :: rest) = false := rfl

@[simp]
theorem next_is_word_quoted (word text : String) (offset : Nat) (rest : List Token) :
    nextIsWord word (⟨.quoted text, offset⟩ :: rest) = false := rfl

@[simp]
theorem same_letters_self (word : String) : Text.sameLetters word word = true := by
  simp [Text.sameLetters]

@[simp]
theorem next_is_keyword_nil (keyword : String) : nextIsKeyword keyword [] = false := rfl

@[simp]
theorem next_is_keyword_word (keyword found : String) (offset : Nat) (rest : List Token) :
    nextIsKeyword keyword (⟨.word found, offset⟩ :: rest) = Text.sameLetters found keyword := rfl

@[simp]
theorem next_is_keyword_symbol (keyword sign : String) (offset : Nat) (rest : List Token) :
    nextIsKeyword keyword (⟨.symbol sign, offset⟩ :: rest) = false := rfl

@[simp]
theorem next_is_keyword_quoted (keyword text : String) (offset : Nat) (rest : List Token) :
    nextIsKeyword keyword (⟨.quoted text, offset⟩ :: rest) = false := rfl

@[simp]
theorem sign_apply (expected : String) (offset : Nat) (rest : List Token) :
    sign expected (⟨.symbol expected, offset⟩ :: rest) = .ok (⟨⟩, rest) := by
  simp [sign, takeSign]

@[simp]
theorem keyword_apply (expected : String) (offset : Nat) (rest : List Token) :
    keyword expected (⟨.word expected, offset⟩ :: rest) = .ok (⟨⟩, rest) := by
  simp [keyword, takeKeyword]

@[simp]
theorem word_at_apply (what text : String) (offset : Nat) (rest : List Token) :
    wordAt what (⟨.word text, offset⟩ :: rest) = .ok ((text, some offset), rest) := by
  simp [wordAt]

@[simp]
theorem word_apply (what text : String) (offset : Nat) (rest : List Token) :
    word what (⟨.word text, offset⟩ :: rest) = .ok (text, rest) := by
  simp [word]

@[simp]
theorem literal_word (what text : String) (offset : Nat) (rest : List Token) :
    literal what (⟨.word text, offset⟩ :: rest) = .ok (⟨text, false, some offset⟩, rest) := by
  simp [literal]

@[simp]
theorem literal_quoted (what text : String) (offset : Nat) (rest : List Token) :
    literal what (⟨.quoted text, offset⟩ :: rest) = .ok (⟨text, true, some offset⟩, rest) := by
  simp [literal]

theorem next_is_sign_of_head {sign : String} {tokens : List Token}
    (different : (tokens.map (·.lexeme)).head? ≠ some (.symbol sign)) :
    nextIsSign sign tokens = false := by
  match tokens with
  | [] => rfl
  | ⟨.symbol found, _⟩ :: _ =>
      have other : found ≠ sign := fun equal => different (by simp [equal])
      simpa using other
  | ⟨.word _, _⟩ :: _ => rfl
  | ⟨.quoted _, _⟩ :: _ => rfl
  | ⟨.pattern _ _, _⟩ :: _ => rfl

theorem cons_of_lexemes {tokens : List Token} {lexeme : Lexeme} {lexemes : List Lexeme}
    (same : tokens.map (·.lexeme) = lexeme :: lexemes) :
    ∃ offset rest, tokens = ⟨lexeme, offset⟩ :: rest ∧ rest.map (·.lexeme) = lexemes := by
  obtain ⟨token, rest, rfl, rfl, others⟩ := List.map_eq_cons_iff.mp same
  exact ⟨token.offset, rest, rfl, others⟩

theorem next_is_word_of_head {word : String} {tokens : List Token}
    (different : (tokens.map (·.lexeme)).head? ≠ some (.word word)) :
    nextIsWord word tokens = false := by
  match tokens with
  | [] => rfl
  | ⟨.word found, _⟩ :: _ =>
      have other : found ≠ word := fun equal => different (by simp [equal])
      simpa using other
  | ⟨.symbol _, _⟩ :: _ => rfl
  | ⟨.quoted _, _⟩ :: _ => rfl
  | ⟨.pattern _ _, _⟩ :: _ => rfl

theorem of_bind {parser : Parser Result} {continued : Result → Parser Next}
    {tokens rest : List Token} {final : Next}
    (success : (parser >>= continued) tokens = .ok (final, rest)) :
    ∃ result left, parser tokens = .ok (result, left) ∧ continued result left = .ok (final, rest) := by
  rw [bind_apply] at success
  cases found : parser tokens with
  | error fault =>
      rw [found] at success
      cases success
  | ok pair =>
      rw [found] at success
      exact ⟨pair.1, pair.2, rfl, success⟩

theorem of_map {parser : Parser Result} {change : Result → Next} {tokens rest : List Token}
    {final : Next} (success : (change <$> parser) tokens = .ok (final, rest)) :
    ∃ result, parser tokens = .ok (result, rest) ∧ final = change result := by
  rw [← bind_pure_comp] at success
  obtain ⟨result, left, found, done⟩ := of_bind success
  cases done
  exact ⟨result, found, rfl⟩

theorem of_word_at {what text : String} {place : Option Nat} {tokens rest : List Token}
    (success : wordAt what tokens = .ok ((text, place), rest)) :
    ∃ offset, tokens = ⟨.word text, offset⟩ :: rest := by
  rcases tokens with _ | ⟨⟨lexeme, offset⟩, others⟩
  · cases success
  · cases lexeme with
    | word found =>
        rw [word_at_apply] at success
        cases success
        exact ⟨offset, rfl⟩
    | _ => cases success

theorem of_literal {what : String} {found : Literal} {tokens rest : List Token}
    (success : literal what tokens = .ok (found, rest)) :
    ∃ offset, tokens = ⟨.word found.text, offset⟩ :: rest ∨
      tokens = ⟨.quoted found.text, offset⟩ :: rest := by
  rcases tokens with _ | ⟨⟨lexeme, offset⟩, others⟩
  · cases success
  · cases lexeme with
    | word text =>
        cases success
        exact ⟨offset, .inl rfl⟩
    | quoted text =>
        cases success
        exact ⟨offset, .inr rfl⟩
    | _ => cases success

theorem of_take_if {test : List Token → Bool} {taken : Bool} {tokens rest : List Token}
    (success : takeIf test tokens = .ok (taken, rest)) :
    taken = true ∧ test tokens = true ∧ (∃ token, tokens = token :: rest) ∨
      taken = false ∧ (tokens ≠ [] → test tokens = false) ∧ rest = tokens := by
  cases tokens with
  | nil =>
      cases success
      exact .inr ⟨rfl, fun filled => absurd rfl filled, rfl⟩
  | cons token others =>
      rw [take_if_cons] at success
      split at success
      · rename_i passes
        cases success
        exact .inl ⟨rfl, passes, token, rfl⟩
      · rename_i fails
        cases success
        exact .inr ⟨rfl, fun _ => Bool.eq_false_iff.mpr fails, rfl⟩

theorem of_next_is_sign {sign : String} {tokens : List Token}
    (next : nextIsSign sign tokens = true) :
    ∃ offset rest, tokens = ⟨.symbol sign, offset⟩ :: rest := by
  rcases tokens with _ | ⟨⟨lexeme, offset⟩, rest⟩
  · cases next
  · cases lexeme with
    | symbol found => exact ⟨offset, rest, by rw [beq_iff_eq.mp next]⟩
    | _ => cases next

theorem of_sign {expected : String} {result : Unit} {tokens rest : List Token}
    (success : sign expected tokens = .ok (result, rest)) :
    ∃ offset, tokens = ⟨.symbol expected, offset⟩ :: rest := by
  obtain ⟨isTaken, left, taken, done⟩ := of_bind success
  rcases of_take_if taken with ⟨rfl, passes, token, rfl⟩ | ⟨rfl, _⟩
  · cases done
    obtain ⟨offset, _, same⟩ := of_next_is_sign passes
    exact ⟨offset, by rw [(List.cons.inj same).1]⟩
  · cases done

/-- What a parser makes of lexemes that stand before the lexemes `next`. -/
def Reads (parser : Parser Result) (lexemes : List Lexeme) (result : Result)
    (next : List Lexeme) : Prop :=
  ∀ tokens rest : List Token, tokens.map (·.lexeme) = lexemes → rest.map (·.lexeme) = next →
    parser (tokens ++ rest) = .ok (result, rest)

theorem reads_nil {parser : Parser Result} {result : Result} {next : List Lexeme}
    (reads : ∀ rest : List Token, rest.map (·.lexeme) = next → parser rest = .ok (result, rest)) :
    Reads parser [] result next := by
  intro tokens rest same follows
  obtain rfl : tokens = [] := by simpa using same
  exact reads rest follows

theorem reads_cons {parser : Parser Result} {lexeme : Lexeme} {lexemes next : List Lexeme}
    {result : Result}
    (reads : ∀ offset, Reads (fun tokens => parser (⟨lexeme, offset⟩ :: tokens)) lexemes result next) :
    Reads parser (lexeme :: lexemes) result next := by
  intro tokens rest same follows
  obtain ⟨offset, others, rfl, otherSame⟩ := cons_of_lexemes same
  exact reads offset others rest otherSame follows

theorem reads_take_word (word : String) (next : List Lexeme) :
    Reads (takeIf (nextIsWord word)) [.word word] true next := by
  apply reads_cons
  intro offset
  apply reads_nil
  intro rest _
  simp

theorem reads_no_word {word : String} {next : List Lexeme}
    (different : next.head? ≠ some (.word word)) :
    Reads (takeIf (nextIsWord word)) [] false next := by
  apply reads_nil
  intro rest follows
  rw [← follows] at different
  exact take_if_false (next_is_word_of_head different)

theorem reads_pure (result : Result) (next : List Lexeme) :
    Reads (pure result) [] result next :=
  reads_nil fun _ _ => rfl

theorem reads_bind {parser : Parser Result} {continued : Result → Parser Next}
    {first second next : List Lexeme} {result : Result} {final : Next}
    (reads : Reads parser first result (second ++ next))
    (others : Reads (continued result) second final next) :
    Reads (parser >>= continued) (first ++ second) final next := by
  intro tokens rest same follows
  obtain ⟨firstTokens, secondTokens, rfl, firstSame, secondSame⟩ := List.map_eq_append_iff.mp same
  have read := reads firstTokens (secondTokens ++ rest) firstSame
    (by rw [List.map_append, secondSame, follows])
  rw [List.append_assoc, bind_apply, read]
  exact others secondTokens rest secondSame follows

theorem reads_bind_cons {parser : Parser Result} {continued : Result → Parser Next}
    {lexeme : Lexeme} {lexemes next : List Lexeme} {result : Result} {final : Next}
    (reads : Reads parser [lexeme] result (lexemes ++ next))
    (others : Reads (continued result) lexemes final next) :
    Reads (parser >>= continued) (lexeme :: lexemes) final next :=
  reads_bind reads others

theorem reads_bind_nil {parser : Parser Result} {continued : Result → Parser Next}
    {lexemes next : List Lexeme} {result : Result} {final : Next}
    (reads : Reads parser [] result (lexemes ++ next))
    (others : Reads (continued result) lexemes final next) :
    Reads (parser >>= continued) lexemes final next :=
  reads_bind reads others

theorem reads_bind_last {parser : Parser Result} {continued : Result → Parser Next}
    {lexemes next : List Lexeme} {result : Result} {final : Next}
    (reads : Reads parser lexemes result next) (others : Reads (continued result) [] final next) :
    Reads (parser >>= continued) lexemes final next := by
  rw [← List.append_nil lexemes]
  exact reads_bind reads others

theorem of_reads_map {parser : Parser Result} {change : Result → Next} {lexemes next : List Lexeme}
    {final : Next} (reads : Reads (change <$> parser) lexemes final next)
    {tokens rest : List Token} (same : tokens.map (·.lexeme) = lexemes)
    (follows : rest.map (·.lexeme) = next) :
    ∃ result, parser (tokens ++ rest) = .ok (result, rest) ∧ change result = final := by
  have read := reads tokens rest same follows
  rw [map_apply] at read
  cases found : parser (tokens ++ rest) with
  | error fault =>
      rw [found] at read
      cases read
  | ok pair =>
      obtain ⟨result, left⟩ := pair
      rw [found] at read
      obtain ⟨rfl, rfl⟩ := Prod.mk.inj (Except.ok.inj read)
      exact ⟨result, rfl, rfl⟩

theorem reads_sign (expected : String) (next : List Lexeme) :
    Reads (sign expected) [.symbol expected] ⟨⟩ next := by
  apply reads_cons
  intro offset
  apply reads_nil
  intro rest _
  exact sign_apply expected offset rest

theorem reads_keyword (expected : String) (next : List Lexeme) :
    Reads (keyword expected) [.word expected] ⟨⟩ next := by
  apply reads_cons
  intro offset
  apply reads_nil
  intro rest _
  exact keyword_apply expected offset rest

theorem reads_word (what text : String) (next : List Lexeme) :
    Reads (word what) [.word text] text next := by
  apply reads_cons
  intro offset
  apply reads_nil
  intro rest _
  exact word_apply what text offset rest

theorem reads_take_keyword (keyword : String) (next : List Lexeme) :
    Reads (takeKeyword keyword) [.word keyword] true next := by
  apply reads_cons
  intro offset
  apply reads_nil
  intro rest _
  simp [takeKeyword]

theorem reads_no_keyword {keyword word : String} {next : List Lexeme}
    (other : Text.sameLetters word keyword = false) :
    Reads (takeKeyword keyword) [] false (.word word :: next) := by
  apply reads_nil
  intro rest follows
  obtain ⟨offset, others, rfl, _⟩ := cons_of_lexemes follows
  exact take_if_false (by simpa using other)

theorem reads_skip_until {test : List Token → Bool} {lexemes next : List Lexeme} {head : Lexeme}
    (passes : ∀ lexeme ∈ lexemes, ∀ offset rest, test (⟨lexeme, offset⟩ :: rest) = false)
    (stops : ∀ offset rest, test (⟨head, offset⟩ :: rest) = true) :
    Reads (skipUntil test) lexemes ⟨⟩ (head :: next) := by
  intro tokens rest same follows
  have drops : ∀ tokens : List Token, (∀ token ∈ tokens, token.lexeme ∈ lexemes) →
      skipUntil.dropUntil test (tokens ++ rest) = rest := by
    intro tokens
    induction tokens with
    | nil =>
        intro _
        obtain ⟨offset, others, rfl, _⟩ := cons_of_lexemes follows
        rw [List.nil_append, skipUntil.dropUntil, if_pos (stops offset others)]
    | cons token others induction =>
        intro members
        obtain ⟨inside, others⟩ := List.forall_mem_cons.mp members
        rw [List.cons_append, skipUntil.dropUntil,
          if_neg (by simp [passes token.lexeme inside token.offset]), induction others]
  have whole := drops tokens fun token member => same ▸ List.mem_map_of_mem member
  exact congrArg (fun left => Except.ok (PUnit.unit, left)) whole

theorem reads_skip (lexeme : Lexeme) (next : List Lexeme) : Reads skip [lexeme] ⟨⟩ next := by
  apply reads_cons
  intro offset
  apply reads_nil
  intro rest _
  rfl

theorem reads_sees {test : List Token → Bool} {lexemes : List Lexeme} {answer : Bool}
    (tests : ∀ tokens : List Token, tokens.map (·.lexeme) = lexemes → test tokens = answer) :
    Reads (sees test) [] answer lexemes := by
  apply reads_nil
  intro rest follows
  rw [sees_apply, tests rest follows]

theorem reads_sees_head {test : List Token → Bool} {head : Lexeme} {next : List Lexeme}
    {answer : Bool} (start : head ∈ next.head?)
    (tests : ∀ offset rest, test (⟨head, offset⟩ :: rest) = answer) :
    Reads (sees test) [] answer next := by
  obtain ⟨tail, rfl⟩ := List.head?_eq_some_iff.mp start
  apply reads_sees
  intro tokens same
  obtain ⟨offset, rest, rfl, _⟩ := cons_of_lexemes same
  exact tests offset rest

theorem reads_no_take {test : List Token → Bool} {head : Lexeme} {next : List Lexeme}
    (start : head ∈ next.head?) (fails : ∀ offset rest, test (⟨head, offset⟩ :: rest) = false) :
    Reads (takeIf test) [] false next := by
  obtain ⟨tail, rfl⟩ := List.head?_eq_some_iff.mp start
  apply reads_nil
  intro tokens same
  obtain ⟨offset, rest, rfl, _⟩ := cons_of_lexemes same
  exact take_if_false (fails offset rest)

theorem reads_bind_offset {continued : Option Nat → Parser Next} {lexemes next : List Lexeme}
    {final : Next} (reads : ∀ offset, Reads (continued offset) lexemes final next) :
    Reads (offset >>= continued) lexemes final next := by
  intro tokens rest same follows
  rw [bind_apply, offset_apply]
  exact reads _ tokens rest same follows

theorem reads_bind_get {continued : List Token → Parser Next} {lexemes next : List Lexeme}
    {final : Next} (reads : ∀ left : List Token, left.map (·.lexeme) = lexemes ++ next →
      Reads (continued left) lexemes final next) :
    Reads (get >>= continued) lexemes final next := by
  intro tokens rest same follows
  rw [bind_apply, get_apply]
  exact reads _ (by rw [List.map_append, same, follows]) tokens rest same follows

theorem reads_bind_word_at {what text : String}
    {continued : String × Option Nat → Parser Next} {lexemes next : List Lexeme} {final : Next}
    (reads : ∀ offset, Reads (continued (text, some offset)) lexemes final next) :
    Reads (wordAt what >>= continued) (.word text :: lexemes) final next := by
  apply reads_cons
  intro offset tokens rest same follows
  simp only [bind_apply, word_at_apply]
  exact reads offset tokens rest same follows

theorem reads_bind_quoted {what text : String} {continued : Literal → Parser Next}
    {lexemes next : List Lexeme} {final : Next}
    (reads : ∀ offset, Reads (continued ⟨text, true, some offset⟩) lexemes final next) :
    Reads (literal what >>= continued) (.quoted text :: lexemes) final next := by
  apply reads_cons
  intro offset tokens rest same follows
  simp only [bind_apply, literal_quoted]
  exact reads offset tokens rest same follows

theorem reads_take_sign (sign : String) (next : List Lexeme) :
    Reads (takeSign sign) [.symbol sign] true next := by
  apply reads_cons
  intro offset
  apply reads_nil
  intro rest _
  simp [takeSign]

theorem reads_no_sign {sign : String} {next : List Lexeme}
    (different : next.head? ≠ some (.symbol sign)) : Reads (takeSign sign) [] false next := by
  apply reads_nil
  intro rest follows
  rw [← follows] at different
  exact take_if_false (next_is_sign_of_head different)

/-- The turns of a repetition that succeeds, with the tokens that are left after the last of
them. -/
inductive Repeated (step : Parser (Option Result)) : List Token → List Result → List Token → Prop
  | ended {tokens rest : List Token} : step tokens = .ok (none, rest) →
      Repeated step tokens [] rest
  | halted {result : Result} {tokens rest : List Token} :
      step tokens = .ok (some result, rest) → ¬ rest.length < tokens.length →
      Repeated step tokens [result] rest
  | turned {result : Result} {results : List Result} {tokens middle rest : List Token} :
      step tokens = .ok (some result, middle) → middle.length < tokens.length →
      Repeated step middle results rest → Repeated step tokens (result :: results) rest

theorem many_eq_ok_iff {step : Parser (Option Result)} {results : List Result}
    {tokens rest : List Token} :
    many step tokens = .ok (results, rest) ↔ Repeated step tokens results rest := by
  constructor
  · intro success
    fun_induction many step tokens generalizing results with
    | case1 tokens fault failed => cases success
    | case2 tokens left found =>
        cases success
        exact .ended found
    | case3 tokens result left found shorter fault failed _ => cases success
    | case4 tokens result left found shorter others remaining later induction =>
        cases success
        exact .turned found shorter (induction later)
    | case5 tokens result left found longer =>
        cases success
        exact .halted found longer
  · intro repeated
    induction repeated with
    | ended found => rw [many, found]
    | halted found longer =>
        rw [many, found]
        exact if_neg longer
    | turned found shorter _ induction =>
        rw [many, found]
        simp only [if_pos shorter, induction]

/-- As `Repeated`, for steps that build on what the steps before them gave. -/
inductive Iterated (step : Result → Parser (Option Result)) :
    Result → List Token → Result → List Token → Prop
  | ended {result : Result} {tokens rest : List Token} : step result tokens = .ok (none, rest) →
      Iterated step result tokens result rest
  | halted {result next : Result} {tokens rest : List Token} :
      step result tokens = .ok (some next, rest) → ¬ rest.length < tokens.length →
      Iterated step result tokens next rest
  | turned {result next final : Result} {tokens middle rest : List Token} :
      step result tokens = .ok (some next, middle) → middle.length < tokens.length →
      Iterated step next middle final rest → Iterated step result tokens final rest

theorem iterated_of_iterate {step : Result → Parser (Option Result)} {start final : Result}
    {tokens rest : List Token} (success : iterate step start tokens = .ok (final, rest)) :
    Iterated step start tokens final rest := by
  fun_induction iterate step start tokens with
  | case1 start tokens fault failed => cases success
  | case2 start tokens left found =>
      cases success
      exact .ended found
  | case3 start tokens next left found shorter induction =>
      exact .turned found shorter (induction success)
  | case4 start tokens next left found longer =>
      cases success
      exact .halted found longer

theorem reads_iterate_stop {step : Result → Parser (Option Result)} {result : Result}
    {next : List Lexeme} (stops : Reads (step result) [] none next) :
    Reads (iterate step result) [] result next := by
  intro tokens rest same follows
  rw [iterate, stops tokens rest same follows]

theorem reads_iterate_next {step : Result → Parser (Option Result)}
    {start middle final : Result} {lexemes others next : List Lexeme} (filled : lexemes ≠ [])
    (first : Reads (step start) lexemes (some middle) (others ++ next))
    (rest : Reads (iterate step middle) others final next) :
    Reads (iterate step start) (lexemes ++ others) final next := by
  intro tokens remaining same follows
  obtain ⟨own, later, rfl, ownSame, laterSame⟩ := List.map_eq_append_iff.mp same
  have read := first own (later ++ remaining) ownSame (by rw [List.map_append, laterSame, follows])
  have notEmpty : own ≠ [] := by
    rintro rfl
    exact filled ownSame.symm
  have positive := List.length_pos_iff.mpr notEmpty
  have shorter : (later ++ remaining).length < (own ++ (later ++ remaining)).length := by
    simp only [List.length_append]
    omega
  have loop := rest later remaining laterSame follows
  rw [List.append_assoc, iterate, read]
  simp only [shorter, if_true, loop]

theorem reads_iterate_last {step : Result → Parser (Option Result)} {start final : Result}
    {lexemes next : List Lexeme} (filled : lexemes ≠ [])
    (last : Reads (step start) lexemes (some final) next)
    (stops : Reads (step final) [] none next) : Reads (iterate step start) lexemes final next := by
  rw [← List.append_nil lexemes]
  exact reads_iterate_next filled last (reads_iterate_stop stops)

theorem map_many (change : Result → Next) (step : Parser (Option Result)) :
    (List.map change <$> (many step : Parser (List Result)) : Parser (List Next)) =
      many (Option.map change <$> step) := by
  funext tokens
  rw [map_apply]
  fun_induction many step tokens with
  | case1 tokens fault failed => rw [many, map_apply, failed]
  | case2 tokens rest found =>
      rw [many, map_apply, found]
      rfl
  | case3 tokens result left found shorter fault failed induction =>
      rw [failed] at induction
      rw [many, map_apply, found]
      simp only [Option.map_some, if_pos shorter, ← induction]
  | case4 tokens result left found shorter results rest later induction =>
      rw [later] at induction
      rw [many, map_apply, found]
      simp only [Option.map_some, if_pos shorter, ← induction]
      rfl
  | case5 tokens result rest found longer =>
      rw [many, map_apply, found]
      simp only [Option.map_some, if_neg longer]
      rfl

theorem map_sep_by (change : Result → Next) (separator : Parser Bool) (element : Parser Result) :
    List.map change <$> sepBy separator element = sepBy separator (change <$> element) := by
  have step : (do if ← separator then return some (← change <$> element) else return none) =
      Option.map change <$> (do
        if ← separator then return some (← element) else return none) := by
    rw [map_bind]
    apply bind_congr
    intro taken
    cases taken <;> simp
  rw [sepBy, sepBy, step, ← map_many]
  simp

section Elements

variable {Element : Type}

/-- What holds of each element and the lexemes that follow it. -/
def Along (between : List Lexeme) (lexemes : Element → List Lexeme)
    (holds : Element → List Lexeme → Prop) : List Element → List Lexeme → Prop
  | [], _ => True
  | element :: others, next =>
      holds element (behind between lexemes others ++ next) ∧
        Along between lexemes holds others next

variable {between next : List Lexeme} {lexemes : Element → List Lexeme}

theorem along_mono {first second : Element → List Lexeme → Prop} {elements : List Element}
    (along : Along between lexemes first elements next)
    (implies : ∀ element ∈ elements, ∀ following, first element following →
      second element following) :
    Along between lexemes second elements next := by
  induction elements with
  | nil => trivial
  | cons element others induction =>
      refine ⟨implies element (by simp) _ along.1, induction along.2 ?_⟩
      intro other member
      exact implies other (List.mem_cons_of_mem element member)

theorem along_of_forall {holds : Element → List Lexeme → Prop} {elements : List Element}
    (all : ∀ element ∈ elements, ∀ following, holds element following) :
    Along between lexemes holds elements next := by
  induction elements with
  | nil => trivial
  | cons element others induction =>
      refine ⟨all element (by simp) _, induction ?_⟩
      intro other member
      exact all other (List.mem_cons_of_mem element member)

theorem along_and {first second : Element → List Lexeme → Prop} {elements : List Element}
    (left : Along between lexemes first elements next)
    (right : Along between lexemes second elements next) :
    Along between lexemes (fun element following =>
      first element following ∧ second element following) elements next := by
  induction elements with
  | nil => trivial
  | cons element others induction => exact ⟨⟨left.1, right.1⟩, induction left.2 right.2⟩

/-- What follows an element is the next element with what comes before it, or what follows the
last of them. -/
theorem along_of_starts {follows : List Lexeme → Prop} {elements : List Element}
    (starts : ∀ element ∈ elements, ∀ following, follows (between ++ lexemes element ++ following))
    (admitted : follows next) :
    Along between lexemes (fun _ following => follows following) elements next := by
  induction elements with
  | nil => trivial
  | cons element others induction =>
      refine ⟨?_, induction fun other member => starts other (List.mem_cons_of_mem element member)⟩
      cases others with
      | nil => exact admitted
      | cons other others =>
          have start := starts other (by simp) (behind between lexemes others ++ next)
          simpa only [behind, List.flatMap_cons, List.append_assoc] using start

theorem along_of_follows {follows : List Lexeme → Prop} (elements : List Element)
    (divides : ∀ following, follows (between ++ following)) (admitted : follows next) :
    Along between lexemes (fun _ following => follows following) elements next := by
  apply along_of_starts _ admitted
  intro element _ following
  rw [List.append_assoc]
  exact divides _

/-- A repeated step that reads each element with the lexemes in front of it, up to lexemes that end
the repetition. -/
theorem reads_many_until {step : Parser (Option Result)} {result : Element → Result}
    {elements : List Element} {closing : List Lexeme}
    (filled : ∀ element ∈ elements, between ++ lexemes element ≠ [])
    (reads : Along between lexemes (fun element following =>
      Reads step (between ++ lexemes element) (some (result element)) following) elements
      (closing ++ next))
    (stops : Reads step closing none next) :
    Reads (many step) (behind between lexemes elements ++ closing) (elements.map result) next := by
  induction elements with
  | nil =>
      intro tokens rest same follows
      rw [many, stops tokens rest same follows]
      rfl
  | cons element others induction =>
      intro tokens rest same follows
      obtain ⟨front, ending, rfl, frontSame, endingSame⟩ := List.map_eq_append_iff.mp same
      obtain ⟨own, later, rfl, ownSame, laterSame⟩ := List.map_eq_append_iff.mp frontSame
      have laterWhole : (later ++ ending).map (·.lexeme) =
          behind between lexemes others ++ closing := by
        rw [List.map_append, endingSame]
        exact congrArg (· ++ closing) laterSame
      have read := reads.1 own (later ++ ending ++ rest) ownSame (by
        rw [List.map_append, laterWhole, follows, List.append_assoc])
      have shorter : (later ++ ending ++ rest).length <
          (own ++ (later ++ ending ++ rest)).length := by
        have notEmpty : own ≠ [] := by
          rintro rfl
          exact filled element (by simp) ownSame.symm
        have positive := List.length_pos_iff.mpr notEmpty
        simp only [List.length_append]
        omega
      have loop := induction (fun other member => filled other (by simp [member])) reads.2
        (later ++ ending) rest laterWhole follows
      rw [List.append_assoc own, List.append_assoc own, many, read]
      simp only [shorter, if_true, loop, List.map_cons]

theorem reads_many {step : Parser (Option Result)} {result : Element → Result}
    {elements : List Element}
    (filled : ∀ element ∈ elements, between ++ lexemes element ≠ [])
    (reads : Along between lexemes (fun element following =>
      Reads step (between ++ lexemes element) (some (result element)) following) elements next)
    (stops : Reads step [] none next) :
    Reads (many step) (behind between lexemes elements) (elements.map result) next := by
  have whole := reads_many_until filled reads stops
  rwa [List.append_nil] at whole

theorem reads_sep_by {separator : Parser Bool} {element : Parser Result}
    {result : Element → Result} {first : Element} {others : List Element}
    (filled : between ≠ [])
    (takes : ∀ following, Reads separator between true following)
    (stops : Reads separator [] false next)
    (reads : Along between lexemes (fun item following =>
      Reads element (lexemes item) (result item) following) (first :: others) next) :
    Reads (sepBy separator element) (joined between lexemes (first :: others))
      ((first :: others).map result) next := by
  have loop : Reads (many (do if ← separator then return some (← element) else return none))
      (behind between lexemes others) (others.map result) next := by
    apply reads_many
    · intro item _ empty
      exact filled (List.append_eq_nil_iff.mp empty).1
    · apply along_mono reads.2
      intro item _ following reads
      apply reads_bind (takes _)
      rw [if_pos rfl]
      exact reads_bind_last reads (reads_pure _ _)
    · exact reads_bind_last stops (reads_pure _ _)
  apply reads_bind reads.1
  exact reads_bind_last loop (reads_pure _ _)

/-- Elements between commas, each of them read in front of what a comma or the end admits. -/
theorem reads_commas (follows : List Lexeme → Prop) {element : Parser Result}
    {result : Element → Result} {elements : List Element} (filled : elements ≠ [])
    (reads : ∀ item ∈ elements, ∀ following, follows following →
      Reads element (lexemes item) (result item) following)
    (comma : ∀ following, follows (.symbol "," :: following)) (admitted : follows next)
    (ends : next.head? ≠ some (.symbol ",")) :
    Reads (sepBy (takeSign ",") element) (joined [.symbol ","] lexemes elements)
      (elements.map result) next := by
  obtain ⟨first, others, rfl⟩ := List.exists_cons_of_ne_nil filled
  apply reads_sep_by (by simp) (reads_take_sign ",") (reads_no_sign ends)
  exact along_mono (along_of_follows (first :: others) comma admitted) reads

end Elements

end DetectionRules.Parser
