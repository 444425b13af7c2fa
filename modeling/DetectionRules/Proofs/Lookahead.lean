import DetectionRules.Proofs.Access.Text
import DetectionRules.Proofs.Scanning

/-!
What a token depends on. The scanner looks at the characters of a token and at
the one behind them, and there a character that breaks tokens off is as good as
the end of the text. So a text that is cut into tokens by itself puts them in
front of the tokens of whatever is broken off from it.
-/

namespace DetectionRules.Token

section Closing

variable {Body : Type} {scan : List Char → Option (Body × Nat)} {admits : List Char → Prop}
  {rest : List Char}

/-- What a scanner takes of a text it takes again in front of other text that it admits. -/
def TakesAgain (scan : List Char → Option (Body × Nat)) (admits : List Char → Prop)
    (rest : List Char) : Prop :=
  ∀ {body size}, scan rest = some (body, size) →
    ∃ front behind, rest = front ++ behind ∧ front ≠ [] ∧ front.length = size ∧
      admits behind ∧ ∀ later, admits later → scan (front ++ later) = some (body, size)

theorem takes_again_behind (taken : List Char) (change : Body → Body)
    (step : ∀ more, more.head? = rest.head? →
      scan (taken ++ more) = (scan more).map fun (body, size) => (change body, size + taken.length))
    (again : TakesAgain scan admits rest) : TakesAgain scan admits (taken ++ rest) := by
  intro body size found
  rw [step rest rfl] at found
  obtain ⟨⟨body, size⟩, inner, same⟩ := Option.map_eq_some_iff.mp found
  cases same
  obtain ⟨front, behind, rfl, filled, rfl, admitted, again⟩ := again inner
  obtain ⟨d, front, rfl⟩ := List.exists_cons_of_ne_nil filled
  refine ⟨taken ++ d :: front, behind, by simp, by simp, by simp [Nat.add_comm], admitted, ?_⟩
  intro later admitted
  rw [List.append_assoc, step (d :: front ++ later) rfl, again later admitted]
  rfl

theorem double_quoted_again (rest : List Char) :
    TakesAgain scanDoubleQuoted (fun _ => True) rest := by
  induction rest using scanDoubleQuoted.induct with
  | case1 => simp [TakesAgain, scanDoubleQuoted]
  | case2 rest again =>
      exact takes_again_behind ['\\', '"'] ('"' :: ·) (fun more _ => rfl) again
  | case3 rest again =>
      exact takes_again_behind ['\\', '\\'] ('\\' :: ·) (fun more _ => rfl) again
  | case4 rest =>
      rintro _ _ ⟨⟩
      exact ⟨['"'], rest, rfl, List.cons_ne_nil _ _, rfl, trivial, fun _ _ => rfl⟩
  | case5 c rest noQuote noBackslash noEnd again =>
      refine takes_again_behind [c] (c :: ·) (fun more same => ?_) again
      refine scanDoubleQuoted.eq_5 c more ?_ ?_ noEnd
      · rintro others escaped rfl
        obtain ⟨tail, rfl⟩ := List.head?_eq_some_iff.mp same.symm
        exact noQuote tail escaped rfl
      · rintro others escaped rfl
        obtain ⟨tail, rfl⟩ := List.head?_eq_some_iff.mp same.symm
        exact noBackslash tail escaped rfl

theorem single_quoted_again (rest : List Char) :
    TakesAgain scanSingleQuoted (fun behind => behind.head? ≠ some '\'') rest := by
  induction rest using scanSingleQuoted.induct with
  | case1 => simp [TakesAgain, scanSingleQuoted]
  | case2 rest again =>
      exact takes_again_behind ['\'', '\''] ('\'' :: ·) (fun more _ => rfl) again
  | case3 rest single =>
      have ends : ∀ later : List Char, later.head? ≠ some '\'' →
          scanSingleQuoted ('\'' :: later) = some ([], 1) := by
        intro later other
        cases later with
        | nil => rfl
        | cons d later => simp_all [scanSingleQuoted]
      have other : rest.head? ≠ some '\'' := by
        intro start
        obtain ⟨tail, rfl⟩ := List.head?_eq_some_iff.mp start
        exact single tail rfl
      intro body size found
      rw [ends rest other] at found
      cases found
      exact ⟨['\''], rest, rfl, List.cons_ne_nil _ _, rfl, other, ends⟩
  | case4 c rest noPair noEnd again =>
      refine takes_again_behind [c] (c :: ·) (fun more _ => ?_) again
      refine scanSingleQuoted.eq_4 c more ?_ noEnd
      rintro others rfl
      exact absurd rfl noEnd

theorem backticked_again (rest : List Char) : TakesAgain scanBackticked (fun _ => True) rest := by
  induction rest using scanBackticked.induct with
  | case1 => simp [TakesAgain, scanBackticked]
  | case2 rest =>
      rintro _ _ ⟨⟩
      exact ⟨['\x60'], rest, rfl, List.cons_ne_nil _ _, rfl, trivial, fun _ _ => rfl⟩
  | case3 c rest noEnd again =>
      exact takes_again_behind [c] (c :: ·) (fun more _ => scanBackticked.eq_3 c more noEnd) again

theorem slashed_again (rest : List Char) : TakesAgain scanSlashed (fun _ => True) rest := by
  induction rest using scanSlashed.induct with
  | case1 => simp [TakesAgain, scanSlashed]
  | case2 rest again =>
      exact takes_again_behind ['\\', '/'] ('/' :: ·) (fun more _ => rfl) again
  | case3 c rest noSlash again =>
      exact takes_again_behind ['\\', c] ('\\' :: c :: ·) (fun more _ => scanSlashed.eq_3 c more noSlash)
        again
  | case4 rest =>
      rintro _ _ ⟨⟩
      exact ⟨['/'], rest, rfl, List.cons_ne_nil _ _, rfl, trivial, fun _ _ => rfl⟩
  | case5 c rest noSlash noEscape noEnd again =>
      refine takes_again_behind [c] (c :: ·) (fun more same => ?_) again
      refine scanSlashed.eq_5 c more ?_ ?_ noEnd
      · rintro others escape rfl
        obtain ⟨tail, rfl⟩ := List.head?_eq_some_iff.mp same.symm
        exact noSlash tail escape rfl
      · rintro d others escape rfl
        obtain ⟨tail, rfl⟩ := List.head?_eq_some_iff.mp same.symm
        exact noEscape d tail escape rfl

end Closing

/-- Text that may stand behind a token instead of the text that stood there. -/
def Replaces (behind later : List Char) : Prop :=
  later.head? = behind.head? ∨ Breaks later

theorem replaces_append {behind rest : List Char} (breaks : Breaks rest) :
    Replaces behind (behind ++ rest) := by
  cases behind with
  | nil => exact .inr breaks
  | cons c behind => exact .inl rfl

theorem run_again {property : Char → Bool} (rest : List Char)
    (breaking : ∀ c, Breaks [c] → property c = false) :
    ∃ front behind, rest = front ++ behind ∧ rest.takeWhile property = front ∧
      ∀ later, Replaces behind later → (front ++ later).takeWhile property = front := by
  refine ⟨rest.takeWhile property, rest.dropWhile property, by simp, rfl, fun later replaces => ?_⟩
  refine Text.take_while_front (fun _ member => List.mem_takeWhile_imp member) fun c start => ?_
  rcases replaces with same | breaks
  · have fails := List.head?_dropWhile_not property rest
    rw [← same, start] at fails
    simpa using fails
  · exact breaking c fun _ only => breaks _ (by cases only; exact start)

/-- Signs are one character, or two of which the second does not break off a token. -/
theorem sign_shape {sign : String} (known : sign ∈ signs) :
    ∃ c, sign.toList = [c] ∨ ∃ d, (d = '=' ∨ d = '~' ∨ d = '>') ∧ sign.toList = [c, d] := by
  simp only [signs, List.mem_cons, List.not_mem_nil, or_false] at known
  rcases known with rfl | rfl | rfl | rfl | rfl | rfl | rfl | rfl | rfl | rfl | rfl | rfl | rfl |
    rfl | rfl | rfl | rfl | rfl | rfl
  all_goals simp

theorem breaks_other {d : Char} (second : d = '=' ∨ d = '~' ∨ d = '>')
    (breaking : Text.isBlank d = true ∨ d = ')' ∨ d = ']' ∨ d = ',') : False := by
  rcases second with rfl | rfl | rfl <;> simp [Text.isBlank] at breaking

theorem is_prefix_again {sign : String} {c : Char} {behind later : List Char}
    (known : sign ∈ signs) (replaces : Replaces behind later)
    (starts : sign.toList.isPrefixOf (c :: later) = true) :
    sign.toList.isPrefixOf (c :: behind) = true := by
  obtain ⟨e, single | ⟨d, second, double⟩⟩ := sign_shape known
  · simpa [single] using starts
  · cases later with
    | nil => simp [double] at starts
    | cons f later =>
        simp only [double, List.isPrefixOf_cons_cons, Bool.and_eq_true, beq_iff_eq] at starts
        obtain ⟨rfl, rfl, -⟩ := starts
        rcases replaces with same | breaks
        · obtain ⟨tail, rfl⟩ := List.head?_eq_some_iff.mp same.symm
          simp [double]
        · exact absurd (breaks d rfl) (breaks_other second)

theorem sign_again {c : Char} {rest : List Char} {sign : String}
    (found : sign? (c :: rest) = some sign) :
    ∃ front behind, rest = front ++ behind ∧ sign.toList = c :: front ∧
      ∀ later, Replaces behind later → sign? (c :: (front ++ later)) = some sign := by
  obtain ⟨-, before, after, cut, fails⟩ := List.find?_eq_some_iff_append.mp found
  have known : ∀ other ∈ before, other ∈ signs := fun other member => by rw [cut]; simp [member]
  obtain ⟨front, behind, same, rfl⟩ := behind_sign found
  refine ⟨front, behind, rfl, same, fun later replaces => ?_⟩
  have again : Replaces (front ++ behind) (front ++ later) := by
    cases front with
    | nil => exact replaces
    | cons d front => exact .inl rfl
  refine List.find?_eq_some_iff_append.mpr ⟨by simp [same], before, after, cut, ?_⟩
  intro other member
  cases starts : other.toList.isPrefixOf (c :: (front ++ later)) with
  | false => rfl
  | true => simpa [is_prefix_again (known other member) again starts] using fails other member

theorem of_sign_none {c : Char} {rest : List Char} (none : sign? (c :: rest) = none)
    (other : c ≠ '"') : c ∉ "=!<>()[]\x7b\x7d,|\x22".toList := by
  intro member
  have fails := List.find?_eq_none.mp none (String.ofList [c])
  have cases : c ∈ ['=', '!', '<', '>', '(', ')', '[', ']', '\x7b', '\x7d', ',', '|', '"'] := member
  fin_cases cases <;> simp [signs] at fails other

/-- A token is scanned again in front of anything that may stand behind it. -/
theorem scan_again {quoting : Quoting} {c : Char} {rest : List Char} {lexeme : Lexeme} {size : Nat}
    (scanned : scan quoting c rest = .ok (lexeme, size)) :
    ∃ front behind, rest = front ++ behind ∧ front.length = size ∧
      ∀ later, Replaces behind later → scan quoting c (front ++ later) = .ok (lexeme, size) := by
  rw [scan] at scanned
  split at scanned
  · rename_i double
    split at scanned <;> cases scanned
    obtain ⟨front, behind, rfl, -, length, -, again⟩ := double_quoted_again rest ‹_›
    refine ⟨front, behind, rfl, length, fun later _ => ?_⟩
    rw [scan, if_pos double, again later trivial]
  split at scanned
  · rename_i double single
    split at scanned <;> cases scanned
    obtain ⟨front, behind, rfl, -, length, other, again⟩ := single_quoted_again rest ‹_›
    refine ⟨front, behind, rfl, length, fun later replaces => ?_⟩
    have admitted : later.head? ≠ some '\'' := by
      intro start
      rcases replaces with same | breaks
      · exact other (same ▸ start)
      · simpa [Text.isBlank] using breaks '\'' start
    rw [scan, if_neg double, if_pos single, again later admitted]
  split at scanned
  · rename_i double single tick
    split at scanned <;> cases scanned
    obtain ⟨front, behind, rfl, -, length, -, again⟩ := backticked_again rest ‹_›
    refine ⟨front, behind, rfl, length, fun later _ => ?_⟩
    rw [scan, if_neg double, if_neg single, if_pos tick, again later trivial]
  split at scanned
  · rename_i double single tick slash
    split at scanned <;> cases scanned
    obtain ⟨front, behind, rfl, -, rfl, -, again⟩ := slashed_again rest ‹_›
    obtain ⟨flags, behind, rfl, letters, letters_again⟩ :=
      run_again behind fun _ => not_letter_of_breaks
    refine ⟨front ++ flags, behind, by simp, by simp [letters], fun later replaces => ?_⟩
    rw [scan, if_neg double, if_neg single, if_neg tick, if_pos slash, List.append_assoc,
      again _ trivial]
    simp only [List.drop_left, letters, letters_again later replaces]
  split at scanned
  · rename_i double single tick slash _ sign found
    cases scanned
    obtain ⟨front, behind, rfl, same, again⟩ := sign_again found
    refine ⟨front, behind, rfl, by rw [← String.length_toList, same]; rfl, fun later replaces => ?_⟩
    rw [scan, if_neg double, if_neg single, if_neg tick, if_neg slash, again later replaces]
  · rename_i double single tick slash _ none
    cases scanned
    obtain ⟨front, behind, rfl, others, again⟩ :=
      @run_again (fun d => !endsWord quoting d) rest fun d breaks => by
        simp [ends_word_of_breaks breaks]
    refine ⟨front, behind, rfl, by rw [others], fun later replaces => ?_⟩
    have still : sign? (c :: (front ++ later)) = Option.none :=
      sign_none (of_sign_none none double)
    rw [scan, if_neg double, if_neg single, if_neg tick, if_neg slash, still]
    simp only [others, again later replaces]

theorem scans_append {quoting : Quoting} {offset : Nat} {characters rest : List Char}
    {tokens : List Token} {others : List Lexeme}
    (listed : listFrom quoting offset characters = .ok tokens) (breaks : Breaks rest)
    (scans : Scans quoting rest others) :
    Scans quoting (characters ++ rest) (tokens.map (·.lexeme) ++ others) := by
  induction offset, characters using listFrom.induct quoting generalizing tokens with
  | case1 offset =>
      rw [listFrom] at listed
      cases listed
      exact scans
  | case2 offset c more blank induction =>
      rw [listFrom, if_pos blank] at listed
      exact scans_blank blank (induction listed)
  | case3 offset c more ink reason scanned =>
      rw [listFrom, if_neg ink, scanned] at listed
      cases listed
  | case4 offset c more ink lexeme size scanned induction =>
      rw [listFrom, if_neg ink, scanned] at listed
      obtain ⟨tail, tailListed, listed⟩ := Success.of_bind listed
      cases listed
      obtain ⟨front, behind, rfl, rfl, again⟩ := scan_again scanned
      rw [List.drop_left] at tailListed induction
      rw [List.cons_append, List.append_assoc]
      refine scans_token (by simpa using ink) (again _ (replaces_append breaks)) ?_
      rw [List.drop_left]
      exact induction tailListed

theorem spells_of_list {quoting : Quoting} {text : String} {tokens : List Token}
    (listed : list quoting text = .ok tokens) :
    Spells quoting text (tokens.map (·.lexeme)) :=
  fun _ _ breaks scans => scans_append listed breaks scans

end DetectionRules.Token
