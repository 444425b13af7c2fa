import DetectionRules.Proofs.Grammar

/-!
Runs of parsers. A parser may be followed by another one that takes the same
tokens and gives a related result; the terms of an expression may be marked
with the tokens around them; and the result of a repeated step is what its
starts make of the first state.
-/

namespace DetectionRules.Parser

variable {Result Other Next Last : Type}

/-- When `parser` succeeds, `along` takes the same tokens and gives a related result. -/
def Follows (related : Result → Other → Prop) (parser : Parser Result) (along : Parser Other) :
    Prop :=
  ∀ tokens result rest, parser tokens = .ok (result, rest) →
    ∃ other, along tokens = .ok (other, rest) ∧ related result other

section Following

variable {related : Result → Other → Prop} {joined : Next → Last → Prop}

theorem follows_pure {result : Result} {other : Other} (same : related result other) :
    Follows related (pure result) (pure other) := by
  rintro tokens _ _ ⟨⟩
  exact ⟨other, rfl, same⟩

theorem follows_bind {parser : Parser Result} {along : Parser Other}
    {continued : Result → Parser Next} {after : Other → Parser Last}
    (first : Follows related parser along)
    (others : ∀ result other, related result other →
      Follows joined (continued result) (after other)) :
    Follows joined (parser >>= continued) (along >>= after) := by
  intro tokens final rest success
  obtain ⟨result, left, found, success⟩ := of_bind success
  obtain ⟨other, taken, same⟩ := first tokens result left found
  obtain ⟨last, done, related⟩ := others result other same left final rest success
  exact ⟨last, by rw [bind_apply, taken]; exact done, related⟩

theorem follows_next (parser : Parser Result) {continued : Result → Parser Next}
    {after : Result → Parser Last}
    (others : ∀ result, Follows joined (continued result) (after result)) :
    Follows joined (parser >>= continued) (parser >>= after) := by
  have first : Follows (· = ·) parser parser := fun tokens result rest found => ⟨result, found, rfl⟩
  refine follows_bind first ?_
  rintro result _ rfl
  exact others result

theorem follows_map {parser : Parser Result} {along : Parser Other} {change : Result → Next}
    {changed : Other → Last}
    (follows : Follows (fun result other => joined (change result) (changed other)) parser along) :
    Follows joined (change <$> parser) (changed <$> along) := by
  rw [← bind_pure_comp, ← bind_pure_comp]
  exact follows_bind follows fun result other same => follows_pure same

theorem follows_ite {condition : Prop} [Decidable condition] {first second : Parser Result}
    {firstAlong secondAlong : Parser Other} (holds : Follows related first firstAlong)
    (fails : Follows related second secondAlong) :
    Follows related (if condition then first else second)
      (if condition then firstAlong else secondAlong) := by
  split
  · exact holds
  · exact fails

theorem follows_fail (reason : String) (along : Parser Other) :
    Follows related (fail reason) along := nofun

theorem follows_fail_at (offset : Option Nat) (reason : String) (along : Parser Other) :
    Follows related (failAt offset reason) along := nofun

theorem follows_expected (what : String) (along : Parser Other) :
    Follows related (expected what) along := nofun

theorem follows_check {condition : Prop} [Decidable condition] {refusal : Parser Unit}
    {continued : Unit → Parser Result} {after : Unit → Parser Other}
    (others : ∀ done, Follows related (continued done) (after done)) :
    Follows related (if condition then refusal >>= continued else continued ())
      (if condition then refusal >>= after else after ()) :=
  follows_ite (follows_next refusal others) (others ())

theorem follows_many {step : Parser (Option Result)} {along : Parser (Option Other)}
    (follows : Follows (Option.Rel related) step along) :
    Follows (List.Forall₂ related) (many step) (many along) := by
  intro tokens results rest success
  simp only [many_eq_ok_iff] at success ⊢
  induction success with
  | ended found =>
      obtain ⟨_, taken, _ | _⟩ := follows _ _ _ found
      exact ⟨[], .ended taken, .nil⟩
  | halted found longer =>
      obtain ⟨_, taken, same | _⟩ := follows _ _ _ found
      exact ⟨[_], .halted taken longer, .cons same .nil⟩
  | turned found shorter _ induction =>
      obtain ⟨_, taken, same | _⟩ := follows _ _ _ found
      obtain ⟨others, gone, all⟩ := induction
      exact ⟨_ :: others, .turned taken shorter gone, .cons same all⟩

theorem follows_some {parser : Parser Result} {along : Parser Other}
    (follows : Follows related parser along) :
    Follows (Option.Rel related) (some <$> parser) (some <$> along) :=
  follows_map fun tokens result rest found => by
    obtain ⟨other, taken, same⟩ := follows tokens result rest found
    exact ⟨other, taken, .some same⟩

theorem follows_sep_by (separator : Parser Bool) {element : Parser Result} {along : Parser Other}
    (follows : Follows related element along) :
    Follows (List.Forall₂ related) (sepBy separator element) (sepBy separator along) := by
  have step : Follows (Option.Rel related)
      (do if ← separator then return some (← element) else return none)
      (do if ← separator then return some (← along) else return none) :=
    follows_next separator fun _ => follows_ite (follows_some follows) (follows_pure .none)
  refine follows_bind follows fun first firstAlong same => ?_
  exact follows_bind (follows_many step) fun others othersAlong all => follows_pure (.cons same all)

end Following

/-- Tokens, what is found at their front, and the tokens that are left. -/
structure Trail {Item : Type} (leads : List Token → List Item → List Token → Prop) : Prop where
  refl : ∀ tokens, leads tokens [] tokens
  skip : ∀ token rest, leads (token :: rest) [] rest
  trans : ∀ {tokens middle rest front back}, leads tokens front middle → leads middle back rest →
    leads tokens (front ++ back) rest

/-- All that a result holds was found on the way, unless it was there before. -/
def Marks {Item : Type} (leads : List Token → List Item → List Token → Prop) (before : List Item)
    (parser : Parser Result) (items : Result → List Item) : Prop :=
  ∀ tokens result rest, parser tokens = .ok (result, rest) →
    ∃ found, leads tokens found rest ∧ items result = before ++ found

section Marking

variable {Item : Type} {leads : List Token → List Item → List Token → Prop} (trail : Trail leads)
  {before : List Item} {items : Result → List Item} {others : Next → List Item}

theorem marks_some {parser : Parser Result} (marks : Marks leads before parser items) :
    Marks leads before (some <$> parser) fun next => next.toList.flatMap items := by
  intro tokens final rest success
  obtain ⟨result, found, rfl⟩ := of_map success
  obtain ⟨front, led, same⟩ := marks tokens result rest found
  exact ⟨front, led, by simpa using same⟩

theorem marks_ite {condition : Prop} [Decidable condition] {first second : Parser Result}
    (holds : Marks leads before first items) (fails : Marks leads before second items) :
    Marks leads before (if condition then first else second) items := by
  split
  · exact holds
  · exact fails

include trail

theorem marks_pure {result : Result} (same : items result = before) :
    Marks leads before (pure result) items := by
  rintro tokens _ _ ⟨⟩
  exact ⟨[], trail.refl tokens, by rw [same, List.append_nil]⟩

theorem marks_bind {parser : Parser Result} {continued : Result → Parser Next}
    (first : Marks leads [] parser items)
    (rest : ∀ result, Marks leads (before ++ items result) (continued result) others) :
    Marks leads before (parser >>= continued) others := by
  intro tokens final left success
  obtain ⟨result, middle, found, success⟩ := of_bind success
  obtain ⟨front, led, same⟩ := first tokens result middle found
  obtain ⟨back, gone, total⟩ := rest result middle final left success
  exact ⟨front ++ back, trail.trans led gone, by rw [total, same]; simp⟩

theorem marks_next {parser : Parser Result} {continued : Result → Parser Next}
    (first : Marks leads [] parser fun _ => [])
    (rest : ∀ result, Marks leads before (continued result) others) :
    Marks leads before (parser >>= continued) others :=
  marks_bind trail first fun result => by
    rw [List.append_nil]
    exact rest result

theorem marks_take_if (test : List Token → Bool) : Marks leads [] (takeIf test) fun _ => [] := by
  intro tokens taken rest success
  rcases of_take_if success with ⟨_, _, token, rfl⟩ | ⟨_, _, rfl⟩
  · exact ⟨[], trail.skip token rest, rfl⟩
  · exact ⟨[], trail.refl rest, rfl⟩

theorem marks_sees (test : List Token → Bool) : Marks leads [] (sees test) fun _ => [] := by
  rintro tokens _ _ ⟨⟩
  exact ⟨[], trail.refl tokens, rfl⟩

theorem marks_sign (sign : String) : Marks leads [] (Parser.sign sign) fun _ => [] := by
  intro tokens done rest success
  obtain ⟨offset, rfl⟩ := of_sign success
  exact ⟨[], trail.skip _ rest, rfl⟩

theorem marks_many {step : Parser (Option Result)}
    (marks : Marks leads [] step fun next => next.toList.flatMap items) :
    Marks leads [] (many step) fun results => results.flatMap items := by
  intro tokens results rest success
  rw [many_eq_ok_iff] at success
  induction success with
  | ended found => exact marks _ _ _ found
  | halted found _ => exact marks _ _ _ found
  | turned found _ _ induction =>
      obtain ⟨front, led, same⟩ := marks _ _ _ found
      obtain ⟨back, gone, total⟩ := induction
      refine ⟨front ++ back, trail.trans led gone, ?_⟩
      simpa using congrArg₂ (· ++ ·) same total

theorem marks_sep_by {separator : Parser Bool} {element : Parser Result}
    (separates : Marks leads [] separator fun _ => []) (marks : Marks leads [] element items) :
    Marks leads [] (sepBy separator element) fun results => results.flatMap items := by
  have step : Marks leads [] (do if ← separator then return some (← element) else return none)
      fun next => next.toList.flatMap items :=
    marks_next trail separates fun _ => marks_ite (marks_some marks) (marks_pure trail rfl)
  refine marks_bind trail marks fun first => marks_bind trail (marks_many trail step) fun others => ?_
  exact marks_pure trail (by simp)

end Marking

variable {State Value : Type}

/-- The state and the tokens before each step that `iterate` takes. -/
def starts (step : State → Parser (Option State)) (state : State) (tokens : List Token) :
    List (State × List Token) :=
  match step state tokens with
  | .error _ | .ok (none, _) => []
  | .ok (some next, rest) =>
      (state, tokens) :: if rest.length < tokens.length then starts step next rest else []
termination_by tokens.length

/-- The steps from a state to a result, with the start of each of them. -/
inductive Run (step : State → Parser (Option State)) :
    State → List Token → List (State × List Token) → State → Prop
  | stop (state : State) (tokens : List Token) : Run step state tokens [] state
  | next {state next result : State} {tokens rest : List Token}
      {later : List (State × List Token)} : step state tokens = .ok (some next, rest) →
      Run step next rest later result → Run step state tokens ((state, tokens) :: later) result

variable {step : State → Parser (Option State)} {state result : State} {tokens rest : List Token}

theorem run_of_iterate (success : iterate step state tokens = .ok (result, rest)) :
    Run step state tokens (starts step state tokens) result := by
  replace success := iterated_of_iterate success
  induction success with
  | ended found =>
      rw [starts, found]
      exact .stop _ _
  | halted found longer =>
      rw [starts, found]
      simp only [if_neg longer]
      exact .next found (.stop _ _)
  | turned found shorter _ induction =>
      rw [starts, found]
      simp only [if_pos shorter]
      exact .next found induction

namespace Run

variable {visited : List (State × List Token)}

/-- What holds in the end is what held in the beginning and what each step added. -/
theorem all (run : Run step state tokens visited result) (value : State → Bool)
    (added : State × List Token → Bool)
    (each : ∀ state tokens next rest, step state tokens = .ok (some next, rest) →
      value next = (value state && added (state, tokens))) :
    value result = (value state && visited.all added) := by
  induction run with
  | stop state tokens => simp
  | next found _ induction =>
      rw [induction, each _ _ _ _ found, List.all_cons, Bool.and_assoc]

/-- What is known in the end is what the last step said that said something. -/
theorem last (run : Run step state tokens visited result) (value : State → Option Value)
    (said : State × List Token → Option Value)
    (each : ∀ state tokens next rest, step state tokens = .ok (some next, rest) →
      value next = (said (state, tokens)).or (value state)) :
    value result = (visited.filterMap said).getLast?.or (value state) := by
  induction run with
  | stop state tokens => rfl
  | @next state next result tokens rest later found _ induction =>
      rw [induction, each _ _ _ _ found, List.filterMap_cons]
      cases said (state, tokens) with
      | none => rfl
      | some first => cases later.filterMap said <;> simp [List.getLast?_cons]

/-- If only a step that knows nothing says something, at most one does. -/
theorem once (run : Run step state tokens visited result) (value : State → Option Value)
    (said : State × List Token → Option Value)
    (each : ∀ state tokens next rest, step state tokens = .ok (some next, rest) →
      value next = (said (state, tokens)).or (value state) ∧
        (said (state, tokens) ≠ none → value state = none)) :
    (visited.filterMap said).length + (value state).toList.length ≤ 1 := by
  induction run with
  | stop state tokens => cases value state <;> simp
  | @next state next result tokens rest later found _ induction =>
      obtain ⟨known, unknown⟩ := each _ _ _ _ found
      rw [known] at induction
      rw [List.filterMap_cons]
      cases spoken : said (state, tokens) with
      | none =>
          rw [spoken, Option.none_or] at induction
          exact induction
      | some first =>
          rw [spoken, Option.some_or] at induction
          rw [unknown (by simp [spoken])]
          exact induction

/-- If each step says something and appends an item for it, these are all items. -/
theorem appended {Item : Type} {step : List Item → Parser (Option (List Item))}
    {items final : List Item} {tokens : List Token} {visited : List (List Item × List Token)}
    {related : Value → Item → Prop} (run : Run step items tokens visited final)
    (said : List Item × List Token → Option Value)
    (each : ∀ items tokens next rest, step items tokens = .ok (some next, rest) →
      ∃ value item, said (items, tokens) = some value ∧ next = items ++ [item] ∧
        related value item) :
    ∃ added, final = items ++ added ∧ List.Forall₂ related (visited.filterMap said) added := by
  induction run with
  | stop items tokens => exact ⟨[], by simp, .nil⟩
  | next found _ induction =>
      obtain ⟨value, item, spoken, rfl, fits⟩ := each _ _ _ _ found
      obtain ⟨added, rfl, all⟩ := induction
      refine ⟨item :: added, by simp, ?_⟩
      rw [List.filterMap_cons, spoken]
      exact .cons fits all

end Run

theorem of_behind_sign {sign : String} {stage : Parser Result} {next : Result}
    {tokens rest : List Token}
    (success : (do if ← takeSign sign then return some (← stage) else return none :
      Parser (Option Result)) tokens = .ok (some next, rest)) :
    ∃ first later, tokens = first :: later ∧ stage later = .ok (next, rest) := by
  obtain ⟨taken, later, found, staged⟩ := of_bind success
  rcases of_take_if found with ⟨rfl, _, first, rfl⟩ | ⟨rfl, _⟩
  · obtain ⟨result, left, staged, done⟩ := of_bind staged
    cases done
    exact ⟨first, later, rfl, staged⟩
  · cases staged

theorem of_choice {keyword : String} {first second : Parser Result} {result : Result}
    {tokens rest : List Token}
    (success : (do if ← takeKeyword keyword then first else second : Parser Result) tokens =
      .ok (result, rest)) :
    (nextIsKeyword keyword tokens = true ∧ ∃ token later, tokens = token :: later ∧
      first later = .ok (result, rest)) ∨
      (nextIsKeyword keyword tokens = false ∧ second tokens = .ok (result, rest)) := by
  obtain ⟨taken, later, found, chosen⟩ := of_bind success
  rcases of_take_if found with ⟨rfl, next, token, rfl⟩ | ⟨rfl, other, rfl⟩
  · exact .inl ⟨next, token, later, rfl, chosen⟩
  · refine .inr ⟨?_, chosen⟩
    cases later with
    | nil => rfl
    | cons token rest => exact other (List.cons_ne_nil token rest)

end DetectionRules.Parser

namespace DetectionRules.Expression

variable {Term Target : Type} {connectives : Connectives} {stop : List Token → Bool}

open DetectionRules.Parser

/-- A relation between trees that the connectives keep. -/
structure Congruent (related : Logic Term → Logic Target → Prop) : Prop where
  conj : ∀ {items others}, List.Forall₂ related items others →
    related (Logic.conj items) (Logic.conj others)
  disj : ∀ {items others}, List.Forall₂ related items others →
    related (Logic.disj items) (Logic.disj others)
  negate : ∀ {item other}, related item other → related (Logic.negate item) (Logic.negate other)

section Following

variable {related : Logic Term → Logic Target → Prop} (congruent : Congruent related)

include congruent

theorem follows_conjunction {operand : Parser (Logic Term)} {along : Parser (Logic Target)}
    (follows : Follows related operand along) :
    Follows related (conjunction connectives stop operand) (conjunction connectives stop along) := by
  have another := follows_some follows
  have next : Follows (Option.Rel related) (nextConjunct? connectives stop operand)
      (nextConjunct? connectives stop along) := by
    refine follows_next _ fun _ => follows_ite another ?_
    exact follows_next _ fun _ => follows_ite another (follows_pure .none)
  rw [conjunction_eq, conjunction_eq]
  refine follows_bind follows fun first firstAlong same => ?_
  refine follows_bind (follows_many next) fun others othersAlong all => ?_
  exact follows_pure (congruent.conj (.cons same all))

theorem follows_disjunction {operand : Parser (Logic Term)} {along : Parser (Logic Target)}
    (follows : Follows related operand along) :
    Follows related (disjunction connectives stop operand) (disjunction connectives stop along) :=
  follows_bind (follows_sep_by _ (follows_conjunction congruent follows)) fun _ _ all =>
    follows_pure (congruent.disj all)

theorem follows_operand {atom : Parser (Logic Term)} {along : Parser (Logic Target)}
    (follows : Follows related atom along) (levels : Nat) :
    Follows related (operand connectives stop atom levels) (operand connectives stop along levels) := by
  induction levels with
  | zero => exact follows_fail _ _
  | succ levels induction =>
      refine follows_next _ fun _ => follows_ite (follows_expected _ _) ?_
      refine follows_next _ fun _ => follows_ite ?_ ?_
      · exact follows_bind induction fun item other same => follows_pure (congruent.negate same)
      · refine follows_next _ fun _ => follows_ite ?_ follows
        refine follows_bind (follows_disjunction congruent induction) fun inner innerAlong same => ?_
        exact follows_next _ fun _ => follows_pure same

/-- Expressions are read alike if their terms are. -/
theorem follows_parse {atom : Parser (Logic Term)} {along : Parser (Logic Target)}
    (follows : Follows related atom along) :
    Follows related (parse connectives stop atom) (parse connectives stop along) :=
  follows_disjunction congruent (follows_operand congruent follows _)

end Following

section Marking

variable {leads : List Token → List Term → List Token → Prop} (trail : Trail leads)

include trail

theorem marks_conjunction {operand : Parser (Logic Term)}
    (marks : Marks leads [] operand Logic.terms) :
    Marks leads [] (conjunction connectives stop operand) Logic.terms := by
  have another := marks_some marks
  have next : Marks leads [] (nextConjunct? connectives stop operand) fun next =>
      next.toList.flatMap Logic.terms := by
    refine marks_next trail (marks_take_if trail _) fun _ => marks_ite another ?_
    exact marks_next trail (marks_sees trail _) fun _ =>
      marks_ite another (marks_pure trail rfl)
  rw [conjunction_eq]
  refine marks_bind trail marks fun first => marks_bind trail (marks_many trail next) fun others => ?_
  exact marks_pure trail (by simp [Logic.terms_conj])

theorem marks_disjunction {operand : Parser (Logic Term)}
    (marks : Marks leads [] operand Logic.terms) :
    Marks leads [] (disjunction connectives stop operand) Logic.terms :=
  marks_bind trail (marks_sep_by trail (marks_take_if trail _) (marks_conjunction trail marks))
    fun parts => marks_pure trail (by simp [Logic.terms_disj])

theorem marks_operand {atom : Parser (Logic Term)} (marks : Marks leads [] atom Logic.terms)
    (levels : Nat) : Marks leads [] (operand connectives stop atom levels) Logic.terms := by
  induction levels with
  | zero => exact nofun
  | succ levels induction =>
      refine marks_next trail (marks_sees trail _) fun _ => marks_ite nofun ?_
      refine marks_next trail (marks_take_if trail _) fun _ => marks_ite ?_ ?_
      · exact marks_bind trail induction fun item => marks_pure trail (by simp [Logic.terms_negate])
      · refine marks_next trail (marks_take_if trail _) fun _ => marks_ite ?_ marks
        refine marks_bind trail (marks_disjunction trail induction) fun inner => ?_
        exact marks_next trail (marks_sign trail _) fun _ => marks_pure trail (by simp)

/-- The terms of an expression stand in the order in which they are found. -/
theorem marks_parse {atom : Parser (Logic Term)} (marks : Marks leads [] atom Logic.terms) :
    Marks leads [] (parse connectives stop atom) Logic.terms :=
  marks_disjunction trail (marks_operand trail marks _)

end Marking

end DetectionRules.Expression
