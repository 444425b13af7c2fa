import DetectionRules.Proofs.Avoiding

/-!
How many tokens parsers take. A parser goes forward through the tokens and not
past their end, and one that takes at least one of them can be repeated.
-/

namespace DetectionRules.Parser

variable {Result Next : Type} {least more : Nat}

/-- A parser that takes at least so many tokens from the front when it succeeds. -/
def Takes (least : Nat) (parser : Parser Result) : Prop :=
  ∀ tokens result rest, parser tokens = .ok (result, rest) →
    rest <:+ tokens ∧ rest.length + least ≤ tokens.length

theorem Takes.mono {parser : Parser Result} (takes : Takes more parser) (fewer : least ≤ more) :
    Takes least parser := by
  intro tokens result rest same
  obtain ⟨ending, enough⟩ := takes tokens result rest same
  exact ⟨ending, by omega⟩

theorem takes_any {parser : Parser Result}
    (forward : ∀ tokens result rest, parser tokens = .ok (result, rest) → rest <:+ tokens) :
    Takes 0 parser :=
  fun tokens result rest same =>
    ⟨forward tokens result rest same, (forward tokens result rest same).length_le⟩

theorem takes_one {parser : Parser Result}
    (one : ∀ tokens result rest, parser tokens = .ok (result, rest) →
      ∃ token, tokens = token :: rest) : Takes 1 parser := by
  intro tokens result rest same
  obtain ⟨token, rfl⟩ := one tokens result rest same
  exact ⟨List.suffix_cons token rest, Nat.le_refl _⟩

theorem takes_bind_add {parser : Parser Result} {continued : Result → Parser Next}
    (first : Takes least parser) (others : ∀ result, Takes more (continued result)) :
    Takes (least + more) (parser >>= continued) := by
  intro tokens final rest same
  obtain ⟨result, left, found, goesOn⟩ := of_bind same
  obtain ⟨front, some⟩ := first tokens result left found
  obtain ⟨back, others⟩ := others result left final rest goesOn
  exact ⟨back.trans front, by omega⟩

theorem takes_bind {parser : Parser Result} {continued : Result → Parser Next}
    (first : Takes least parser) (others : ∀ result, Takes 0 (continued result)) :
    Takes least (parser >>= continued) :=
  takes_bind_add first others

theorem takes_bind_last {parser : Parser Result} {continued : Result → Parser Next}
    (first : Takes 0 parser) (others : ∀ result, Takes least (continued result)) :
    Takes least (parser >>= continued) := by
  have both := takes_bind_add first others
  rwa [Nat.zero_add] at both

theorem takes_pure (result : Result) : Takes 0 (pure result) :=
  takes_any fun tokens _ _ same => by cases same; exact List.suffix_refl tokens

theorem takes_map {parser : Parser Result} (change : Result → Next) (takes : Takes least parser) :
    Takes least (change <$> parser) := by
  rw [← bind_pure_comp]
  exact takes_bind takes fun _ => takes_pure _

theorem takes_ite {condition : Prop} [Decidable condition] {first second : Parser Result}
    (holds : Takes least first) (fails : Takes least second) :
    Takes least (if condition then first else second) := by
  split
  · exact holds
  · exact fails

theorem takes_fail_at (offset : Option Nat) (reason : String) :
    Takes least (failAt offset reason : Parser Result) := nofun

theorem takes_fail (reason : String) : Takes least (fail reason : Parser Result) := nofun

theorem takes_expected (what : String) : Takes least (expected what : Parser Result) := nofun

theorem takes_sees (test : List Token → Bool) : Takes 0 (sees test) :=
  takes_any fun tokens _ _ same => by cases same; exact List.suffix_refl tokens

theorem takes_bind_get {continued : List Token → Parser Next}
    (forward : ∀ tokens result rest, continued tokens tokens = .ok (result, rest) →
      rest <:+ tokens) : Takes 0 (get >>= continued) :=
  takes_any fun tokens result rest same => forward tokens result rest same

theorem takes_skip : Takes 0 skip :=
  takes_any fun tokens _ _ same => by cases same; exact List.drop_suffix 1 tokens

theorem takes_take_if (test : List Token → Bool) : Takes 0 (takeIf test) := by
  refine takes_any fun tokens result rest same => ?_
  rcases of_take_if same with ⟨_, _, token, rfl⟩ | ⟨_, _, rfl⟩
  · exact List.suffix_cons token rest
  · exact List.suffix_refl rest

theorem length_of_take_if {test : List Token → Bool} {tokens rest : List Token}
    (same : takeIf test tokens = .ok (true, rest)) : rest.length < tokens.length := by
  rcases of_take_if same with ⟨_, _, token, rfl⟩ | ⟨taken, _, _⟩
  · exact Nat.lt_succ_self _
  · cases taken

theorem takes_sign (sign : String) : Takes 1 (Parser.sign sign) := by
  refine takes_one fun tokens result rest same => ?_
  obtain ⟨offset, whole⟩ := of_sign same
  exact ⟨_, whole⟩

theorem takes_word_at (what : String) : Takes 1 (wordAt what) := by
  refine takes_one fun tokens result rest same => ?_
  obtain ⟨offset, whole⟩ := of_word_at same
  exact ⟨_, whole⟩

theorem takes_word (what : String) : Takes 1 (word what) :=
  takes_bind (takes_word_at what) fun _ => takes_pure _

theorem takes_literal (what : String) : Takes 1 (literal what) := by
  refine takes_one fun tokens result rest same => ?_
  obtain ⟨offset, whole | whole⟩ := of_literal same <;> exact ⟨_, whole⟩

theorem takes_keyword (keyword : String) : Takes 0 (Parser.keyword keyword) :=
  takes_bind (takes_take_if _) fun _ => takes_ite (takes_expected _) (takes_pure _)

theorem takes_many {step : Parser (Option Result)} (takes : Takes 0 step) :
    Takes 0 (many step) := by
  refine takes_any fun tokens results rest same => ?_
  refine of_many (fun tokens rest => rest <:+ tokens) ?_ ?_ same
  · exact fun first second => second.trans first
  · exact fun tokens result rest found => (takes tokens result rest found).1

theorem takes_sep_by {separator : Parser Bool} {element : Parser Result}
    (separates : Takes 0 separator) (takes : Takes least element) :
    Takes least (sepBy separator element) := by
  have any := takes.mono (Nat.zero_le least)
  refine takes_bind takes fun first => ?_
  refine takes_bind (takes_many (takes_bind separates fun more => ?_)) fun others => takes_pure _
  exact takes_ite (takes_bind any fun result => takes_pure _) (takes_pure _)

def Shortens (step : Parser (Option Result)) : Prop :=
  ∀ tokens result rest, step tokens = .ok (some result, rest) → rest.length < tokens.length

theorem shortens_none : Shortens (pure none : Parser (Option Result)) := nofun

theorem shortens_some {parser : Parser Result} (takes : Takes 1 parser) :
    Shortens (do return some (← parser)) := by
  intro tokens result rest same
  obtain ⟨found, left, read, same⟩ := of_bind same
  cases same
  exact (takes tokens result rest read).2

theorem shortens_bind {parser : Parser Result} {continued : Result → Parser (Option Next)}
    (first : Takes 0 parser) (others : ∀ result, Shortens (continued result)) :
    Shortens (parser >>= continued) := by
  intro tokens result rest same
  obtain ⟨found, left, read, goesOn⟩ := of_bind same
  have fewer := (first tokens found left read).2
  have shorter := others found left result rest goesOn
  omega

theorem shortens_ite {condition : Prop} [Decidable condition] {first second : Parser (Option Result)}
    (holds : Shortens first) (fails : Shortens second) :
    Shortens (if condition then first else second) := by
  split
  · exact holds
  · exact fails

/-- The look at what is left makes no difference where every step that goes on takes a token. -/
theorem many_eq {step : Parser (Option Result)} (shortens : Shortens step) :
    many step = step >>= fun found => match found with
      | none => pure []
      | some result => many step >>= fun results => pure (result :: results) := by
  funext tokens
  rw [many, bind_apply]
  cases found : step tokens with
  | error fault => rfl
  | ok pair =>
      obtain ⟨next, rest⟩ := pair
      cases next with
      | none => rfl
      | some result =>
          simp only [shortens tokens result rest found, if_true, bind_apply]
          cases many step rest <;> rfl

end DetectionRules.Parser

namespace DetectionRules.Expression

open DetectionRules.Parser (Takes takes_pure takes_bind takes_bind_last takes_map takes_ite
  takes_fail takes_expected takes_many takes_sep_by takes_sees takes_sign takes_take_if Shortens
  shortens_none shortens_some shortens_bind shortens_ite)

variable {Term : Type} {connectives : Connectives} {stop : List Token → Bool}

section Operands

variable {operand : Parser (Logic Term)}

theorem takes_next_conjunct (takes : Takes 0 operand) :
    Takes 0 (nextConjunct? connectives stop operand) := by
  refine takes_bind (takes_take_if _) fun _ => takes_ite (takes_map _ takes) ?_
  exact takes_bind (takes_sees _) fun _ => takes_ite (takes_map _ takes) (takes_pure _)

theorem shortens_next_conjunct (takes : Takes 1 operand) :
    Shortens (nextConjunct? connectives stop operand) := by
  have found := shortens_some takes
  refine shortens_bind (takes_take_if _) fun _ => shortens_ite found ?_
  exact shortens_bind (takes_sees _) fun _ => shortens_ite found shortens_none

theorem takes_conjunction (takes : Takes 1 operand) :
    Takes 1 (conjunction connectives stop operand) := by
  rw [conjunction_eq]
  refine takes_bind takes fun first => takes_bind (takes_many ?_) fun others => takes_pure _
  exact takes_next_conjunct (takes.mono (Nat.zero_le 1))

theorem takes_disjunction (takes : Takes 1 operand) :
    Takes 1 (disjunction connectives stop operand) :=
  takes_bind (takes_sep_by (takes_take_if _) (takes_conjunction takes)) fun _ => takes_pure _

end Operands

variable {atom : Parser (Logic Term)}

theorem takes_operand (takes : Takes 1 atom) (levels : Nat) :
    Takes 1 (operand connectives stop atom levels) := by
  induction levels with
  | zero => exact takes_fail _
  | succ levels induction =>
      refine takes_bind_last (takes_sees _) fun _ => takes_ite (takes_expected _) ?_
      refine takes_bind_last (takes_take_if _) fun _ => takes_ite ?_ ?_
      · exact takes_bind induction fun _ => takes_pure _
      · refine takes_bind_last (takes_take_if _) fun _ => takes_ite ?_ takes
        refine takes_bind (takes_disjunction induction) fun _ => ?_
        exact takes_bind ((takes_sign ")").mono (Nat.zero_le 1)) fun _ => takes_pure _

/-- An expression takes a token if its terms do. -/
theorem takes_parse (takes : Takes 1 atom) : Takes 1 (parse connectives stop atom) :=
  takes_disjunction (takes_operand takes _)

end DetectionRules.Expression
