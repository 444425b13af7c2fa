import DetectionRules.Proofs.Ensuring

/-!
Signs that a parser never takes. A parser that reads a text to the end does so
without them, so it refuses every text in which they come up.
-/

namespace DetectionRules.Parser

variable {Result Next : Type} {sign : String}

/-- What is left of tokens when some are taken from the front, none of them a certain sign. -/
def Leads (sign : String) (tokens rest : List Token) : Prop :=
  ∃ taken, tokens = taken ++ rest ∧ ∀ token ∈ taken, token.lexeme ≠ .symbol sign

namespace Leads

theorem refl (tokens : List Token) : Leads sign tokens tokens := ⟨[], rfl, by simp⟩

theorem one {token : Token} (other : token.lexeme ≠ .symbol sign) (rest : List Token) :
    Leads sign (token :: rest) rest := ⟨[token], rfl, by simpa using other⟩

theorem trans {tokens middle rest : List Token} (first : Leads sign tokens middle)
    (second : Leads sign middle rest) : Leads sign tokens rest := by
  obtain ⟨front, rfl, cleanFront⟩ := first
  obtain ⟨back, rfl, cleanBack⟩ := second
  refine ⟨front ++ back, by rw [List.append_assoc], fun token member => ?_⟩
  rcases List.mem_append.mp member with member | member
  · exact cleanFront token member
  · exact cleanBack token member

end Leads

/-- A parser that takes tokens from the front, and never a certain sign. -/
def Avoids (sign : String) (parser : Parser Result) : Prop :=
  ∀ tokens result rest, parser tokens = .ok (result, rest) → Leads sign tokens rest

theorem avoids_pure (result : Result) : Avoids sign (pure result) := by
  rintro tokens _ _ ⟨⟩
  exact .refl tokens

theorem avoids_bind {parser : Parser Result} {continued : Result → Parser Next}
    (first : Avoids sign parser) (others : ∀ result, Avoids sign (continued result)) :
    Avoids sign (parser >>= continued) := by
  intro tokens final rest same
  obtain ⟨result, left, found, same⟩ := of_bind same
  exact (first tokens result left found).trans (others result left final rest same)

theorem avoids_map {parser : Parser Result} (change : Result → Next) (avoids : Avoids sign parser) :
    Avoids sign (change <$> parser) := by
  rw [← bind_pure_comp]
  exact avoids_bind avoids fun _ => avoids_pure _

theorem avoids_ite {condition : Prop} [Decidable condition] {first second : Parser Result}
    (holds : Avoids sign first) (fails : Avoids sign second) :
    Avoids sign (if condition then first else second) := by
  split
  · exact holds
  · exact fails

theorem avoids_fail_at (offset : Option Nat) (reason : String) :
    Avoids sign (failAt offset reason : Parser Result) := nofun

theorem avoids_fail (reason : String) : Avoids sign (fail reason : Parser Result) := nofun

theorem avoids_expected (what : String) : Avoids sign (expected what : Parser Result) := nofun

theorem avoids_sees (test : List Token → Bool) : Avoids sign (sees test) := by
  rintro tokens _ _ ⟨⟩
  exact .refl tokens

theorem avoids_take_if {test : List Token → Bool}
    (fails : ∀ offset rest, test (⟨.symbol sign, offset⟩ :: rest) = false) :
    Avoids sign (takeIf test) := by
  intro tokens result rest same
  rcases of_take_if same with ⟨_, passes, ⟨lexeme, offset⟩, rfl⟩ | ⟨_, _, rfl⟩
  · refine .one ?_ rest
    rintro rfl
    rw [fails] at passes
    cases passes
  · exact .refl _

theorem avoids_take_sign {found : String} (other : found ≠ sign) : Avoids sign (takeSign found) :=
  avoids_take_if fun offset rest => by simpa using other.symm

theorem avoids_take_keyword (keyword : String) : Avoids sign (takeKeyword keyword) :=
  avoids_take_if fun _ _ => rfl

theorem avoids_take_word (word : String) : Avoids sign (takeIf (nextIsWord word)) :=
  avoids_take_if fun _ _ => rfl

theorem avoids_sign {found : String} (other : found ≠ sign) : Avoids sign (Parser.sign found) :=
  avoids_bind (avoids_take_sign other) fun _ => avoids_ite (avoids_expected _) (avoids_pure _)

theorem avoids_literal (what : String) : Avoids sign (literal what) := by
  intro tokens result rest same
  obtain ⟨offset, rfl | rfl⟩ := of_literal same <;> exact .one (by simp) rest

/-- What a step always does to the tokens, a repetition of it does, if it can be done twice. -/
theorem of_many (related : List Token → List Token → Prop) {step : Parser (Option Result)}
    (trans : ∀ {tokens middle rest}, related tokens middle → related middle rest →
      related tokens rest)
    (each : ∀ tokens result rest, step tokens = .ok (result, rest) → related tokens rest)
    {tokens rest : List Token} {results : List Result}
    (success : many step tokens = .ok (results, rest)) : related tokens rest := by
  rw [many_eq_ok_iff] at success
  induction success with
  | ended found => exact each _ _ _ found
  | halted found _ => exact each _ _ _ found
  | turned found _ _ induction => exact trans (each _ _ _ found) induction

theorem avoids_many {step : Parser (Option Result)} (avoids : Avoids sign step) :
    Avoids sign (many step) :=
  fun _ _ _ same => of_many (Leads sign) .trans avoids same

theorem avoids_sep_by {separator : Parser Bool} {element : Parser Result}
    (separates : Avoids sign separator) (avoids : Avoids sign element) :
    Avoids sign (sepBy separator element) := by
  refine avoids_bind avoids fun first => ?_
  refine avoids_bind (avoids_many (avoids_bind separates fun more => ?_)) fun others => avoids_pure _
  exact avoids_ite (avoids_bind avoids fun result => avoids_pure _) (avoids_pure _)

end DetectionRules.Parser

namespace DetectionRules.Expression

open DetectionRules.Parser (Avoids avoids_pure avoids_bind avoids_map avoids_ite avoids_fail
  avoids_expected avoids_many avoids_sep_by avoids_sees avoids_sign avoids_take_if avoids_take_sign)

variable {Term : Type} {connectives : Connectives} {stop : List Token → Bool} {sign : String}

theorem next_is_sign (word : String) (offset : Nat) (rest : List Token) :
    connectives.nextIs word (⟨.symbol sign, offset⟩ :: rest) = false := by
  rw [Connectives.nextIs]
  split <;> rfl

theorem next_is_no_negation (other : sign ∉ connectives.negations) (offset : Nat)
    (rest : List Token) : connectives.nextIsNegation (⟨.symbol sign, offset⟩ :: rest) = false := by
  rw [Connectives.nextIsNegation, List.any_eq_false]
  intro negation known
  have different : sign ≠ negation := fun same => other (same ▸ known)
  simpa [next_is_sign] using different

section Operands

variable {operand : Parser (Logic Term)}

theorem avoids_conjunction (avoids : Avoids sign operand) :
    Avoids sign (conjunction connectives stop operand) := by
  have next : Avoids sign (nextConjunct? connectives stop operand) := by
    refine avoids_bind (avoids_take_if (next_is_sign _)) fun _ => avoids_ite (avoids_map _ avoids) ?_
    exact avoids_bind (avoids_sees _) fun _ => avoids_ite (avoids_map _ avoids) (avoids_pure _)
  rw [conjunction_eq]
  exact avoids_bind avoids fun first => avoids_bind (avoids_many next) fun others => avoids_pure _

theorem avoids_disjunction (avoids : Avoids sign operand) :
    Avoids sign (disjunction connectives stop operand) :=
  avoids_bind (avoids_sep_by (avoids_take_if (next_is_sign _)) (avoids_conjunction avoids))
    fun _ => avoids_pure _

end Operands

variable {atom : Parser (Logic Term)}

theorem avoids_operand (opening : "(" ≠ sign) (closing : ")" ≠ sign)
    (other : sign ∉ connectives.negations) (avoids : Avoids sign atom) (levels : Nat) :
    Avoids sign (operand connectives stop atom levels) := by
  induction levels with
  | zero => exact avoids_fail _
  | succ levels induction =>
      refine avoids_bind (avoids_sees _) fun _ => avoids_ite (avoids_expected _) ?_
      refine avoids_bind (avoids_take_if (next_is_no_negation other)) fun _ => avoids_ite ?_ ?_
      · exact avoids_bind induction fun _ => avoids_pure _
      · refine avoids_bind (avoids_take_sign opening) fun _ => avoids_ite ?_ avoids
        refine avoids_bind (avoids_disjunction induction) fun _ => ?_
        exact avoids_bind (avoids_sign closing) fun _ => avoids_pure _

/-- An expression is read without a sign if its terms are. -/
theorem avoids_parse (opening : "(" ≠ sign) (closing : ")" ≠ sign)
    (other : sign ∉ connectives.negations) (avoids : Avoids sign atom) :
    Avoids sign (parse connectives stop atom) :=
  avoids_disjunction (avoids_operand opening closing other avoids _)

end DetectionRules.Expression
