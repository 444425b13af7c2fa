import DetectionRules.Time.Retry

/-!
Running activities one after the other, undisturbed, and what an activity
guarantees when it is disturbed: it keeps an invariant of the state at every
step, whatever others do to the state between its steps as long as they keep the
invariant too, and ends only with results of a kind. Of an activity that has
something of its own besides, what it has is told at every step too, for it may
be interrupted there.
-/

namespace DetectionRules.Activity

variable {World Result Other : Type}

@[simp]
theorem run_pure (result : Result) (moment : Moment World) :
    (pure result : Activity World Result).run moment = (result, moment) := rfl

@[simp]
theorem run_bind (activity : Activity World Result) (continued : Result → Activity World Other)
    (moment : Moment World) :
    (activity >>= continued).run moment =
      (continued (activity.run moment).1).run (activity.run moment).2 := by
  change (activity.bind continued).run moment = _
  induction activity generalizing moment with
  | done result => rfl
  | wait duration next induction => exact induction _
  | act effect next induction => exact induction moment.now moment.world _

/-- Keeps the invariant at every step and ends with a result that has the property. -/
def Guarantees (invariant : World → Prop) (property : Result → Prop) :
    Activity World Result → Prop
  | done result => property result
  | wait _ next => next.Guarantees invariant property
  | act effect next => ∀ now world, invariant world →
      invariant (effect now world) ∧ (next now world).Guarantees invariant property

variable {invariant : World → Prop} {property : Result → Prop}

theorem guarantees_pure {result : Result} (holds : property result) :
    (pure result : Activity World Result).Guarantees invariant property := holds

theorem guarantees_bind {activity : Activity World Result}
    {continued : Result → Activity World Other} {further : Other → Prop}
    (first : activity.Guarantees invariant property)
    (others : ∀ result, property result → (continued result).Guarantees invariant further) :
    (activity >>= continued).Guarantees invariant further := by
  change (activity.bind continued).Guarantees invariant further
  induction activity with
  | done result => exact others result first
  | wait duration next induction => exact induction first
  | act effect next induction =>
      intro now world holds
      obtain ⟨kept, rest⟩ := first now world holds
      exact ⟨kept, induction now world rest⟩

theorem guarantees_mono {activity : Activity World Result} {weaker : Result → Prop}
    (guarantees : activity.Guarantees invariant property)
    (implies : ∀ result, property result → weaker result) :
    activity.Guarantees invariant weaker := by
  induction activity with
  | done result => exact implies result guarantees
  | wait duration next induction => exact induction guarantees
  | act effect next induction =>
      intro now world holds
      obtain ⟨kept, rest⟩ := guarantees now world holds
      exact ⟨kept, induction now world rest⟩

theorem guarantees_next {activity : Activity World Result}
    {continued : Result → Activity World Other} {further : Other → Prop}
    (first : activity.Guarantees invariant property)
    (others : ∀ result, (continued result).Guarantees invariant further) :
    (activity >>= continued).Guarantees invariant further :=
  guarantees_bind first fun result _ => others result

theorem guarantees_nothing (activity : Activity World Result) :
    activity.Guarantees (fun _ => True) fun _ => True := by
  induction activity with
  | done result => trivial
  | wait duration next induction => exact induction
  | act effect next induction => exact fun now world _ => ⟨trivial, induction now world⟩

theorem guarantees_pause (duration : Nat) :
    (pause duration : Activity World Unit).Guarantees invariant fun _ => True := trivial

theorem guarantees_access {step : Nat → World → Result × World}
    (kept : ∀ now world, invariant world →
      invariant (step now world).2 ∧ property (step now world).1) :
    (access step).Guarantees invariant property := kept

theorem guarantees_within {activity : Activity World Result}
    (guarantees : activity.Guarantees invariant property) (limit : Nat) :
    (activity.within limit).Guarantees invariant fun outcome =>
      ∀ result ∈ outcome, property result := by
  induction activity generalizing limit with
  | done result =>
      rintro _ ⟨⟩
      exact guarantees
  | wait duration next induction =>
      rw [within]
      split
      · exact induction guarantees _
      · exact nofun
  | act effect next induction =>
      intro now world holds
      obtain ⟨kept, rest⟩ := guarantees now world holds
      exact ⟨kept, induction now world rest limit⟩

/-- An activity on one part of the state keeps what is known of the rest. -/
theorem guarantees_focus {Whole : Type} {get : Whole → World} {set : World → Whole → Whole}
    {whole : Whole → Prop} (kept : ∀ part state, whole state → whole (set part state))
    (activity : Activity World Result) :
    (activity.focus get set).Guarantees whole fun _ => True := by
  induction activity with
  | done result => trivial
  | wait duration next induction => exact induction
  | act effect next induction =>
      exact fun now state holds => ⟨kept _ state holds, induction now (get state)⟩

theorem of_guarantees {activity : Activity World Result} {moment : Moment World}
    (guarantees : activity.Guarantees invariant property) (holds : invariant moment.world) :
    property (activity.run moment).1 ∧ invariant (activity.run moment).2.world := by
  induction activity generalizing moment with
  | done result => exact ⟨guarantees, holds⟩
  | wait duration next induction => exact induction guarantees holds
  | act effect next induction =>
      obtain ⟨kept, rest⟩ := guarantees moment.now moment.world holds
      exact induction moment.now moment.world rest kept

theorem of_guarantees_advance {activity : Activity World Result} {now : Nat} {world changed : World}
    {result : Result} (guarantees : activity.Guarantees invariant property)
    (holds : invariant world)
    (finished : activity.advance now world = .finished result changed) : property result := by
  induction activity generalizing world with
  | done known =>
      cases finished
      exact guarantees
  | wait duration next induction =>
      cases duration with
      | zero => exact induction guarantees holds finished
      | succ duration => cases finished
  | act effect next induction =>
      obtain ⟨kept, rest⟩ := guarantees now world holds
      exact induction now world rest kept finished

variable {Own : Type} {always : Own → Prop} {ends : Result → Own → Prop}

/-- Keeps the invariant of what others see at every step, always has something of its own with one
property, and ends with a result and something of its own that fit. -/
def Keeps (invariant : World → Prop) (always : Own → Prop) (ends : Result → Own → Prop) :
    Activity (Own × World) Result → Own → Prop
  | done result, own => always own ∧ ends result own
  | wait _ next, own => always own ∧ next.Keeps invariant always ends own
  | act effect next, own => always own ∧ ∀ now world, invariant world →
      invariant (effect now (own, world)).2 ∧
        (next now (own, world)).Keeps invariant always ends (effect now (own, world)).1

theorem always_of_keeps {activity : Activity (Own × World) Result} {own : Own}
    (keeps : activity.Keeps invariant always ends own) : always own := by
  cases activity <;> exact keeps.1

theorem keeps_pure {result : Result} {own : Own} (holds : always own) (fits : ends result own) :
    (pure result : Activity (Own × World) Result).Keeps invariant always ends own := ⟨holds, fits⟩

theorem keeps_bind {activity : Activity (Own × World) Result}
    {continued : Result → Activity (Own × World) Other} {further : Other → Own → Prop} {own : Own}
    (first : activity.Keeps invariant always ends own)
    (others : ∀ result left, always left → ends result left →
      (continued result).Keeps invariant always further left) :
    (activity >>= continued).Keeps invariant always further own := by
  change (activity.bind continued).Keeps invariant always further own
  induction activity generalizing own with
  | done result => exact others result own first.1 first.2
  | wait duration next induction => exact ⟨first.1, induction first.2⟩
  | act effect next induction =>
      refine ⟨first.1, fun now world holds => ?_⟩
      obtain ⟨kept, rest⟩ := first.2 now world holds
      exact ⟨kept, induction now (own, world) rest⟩

theorem keeps_shared {activity : Activity World Result} {own : Own}
    (guarantees : activity.Guarantees invariant property) (holds : always own) :
    (shared activity).Keeps invariant always (fun result left => property result ∧ left = own)
      own := by
  induction activity with
  | done result => exact ⟨holds, guarantees, rfl⟩
  | wait duration next induction => exact ⟨holds, induction guarantees⟩
  | act effect next induction =>
      refine ⟨holds, fun now world known => ?_⟩
      obtain ⟨kept, rest⟩ := guarantees now world known
      exact ⟨kept, induction now world rest⟩

theorem keeps_rewrite {change : Nat → Own → Own} {ends : Unit → Own → Prop} {own : Own}
    (holds : always own) (changed : ∀ now, always (change now own) ∧ ends () (change now own)) :
    (rewrite change : Activity (Own × World) Unit).Keeps invariant always ends own :=
  ⟨holds, fun now _ known => ⟨known, changed now⟩⟩

theorem keeps_within {activity : Activity (Own × World) Result} {own : Own}
    (keeps : activity.Keeps invariant always ends own) (limit : Nat) :
    (activity.within limit).Keeps invariant always
      (fun outcome left => ∀ result ∈ outcome, ends result left) own := by
  induction activity generalizing own limit with
  | done result =>
      refine ⟨keeps.1, ?_⟩
      rintro _ ⟨⟩
      exact keeps.2
  | wait duration next induction =>
      rw [within]
      split
      · exact ⟨keeps.1, induction keeps.2 _⟩
      · exact ⟨keeps.1, keeps.1, nofun⟩
  | act effect next induction =>
      refine ⟨keeps.1, fun now world holds => ?_⟩
      obtain ⟨kept, rest⟩ := keeps.2 now world holds
      exact ⟨kept, induction now (own, world) rest limit⟩

theorem guarantees_owning {activity : Activity (Own × World) Result} {own : Own}
    (keeps : activity.Keeps invariant always ends own) :
    (activity.owning own).Guarantees invariant fun outcome =>
      always outcome.2 ∧ ends outcome.1 outcome.2 := by
  induction activity generalizing own with
  | done result => exact keeps
  | wait duration next induction => exact induction keeps.2
  | act effect next induction =>
      intro now world holds
      obtain ⟨kept, rest⟩ := keeps.2 now world holds
      exact ⟨kept, induction now (own, world) rest⟩

end DetectionRules.Activity

namespace DetectionRules.RetryPolicy

variable {World Failure Result : Type} {invariant : World → Prop}
  {property : Except Failure Result → Prop}

theorem guarantees_run_from (policy : RetryPolicy Failure)
    {attempt : Nat → Activity World (Except Failure Result)}
    (each : ∀ number, (attempt number).Guarantees invariant property) (number more : Nat) :
    (policy.runFrom attempt number more).Guarantees invariant fun outcome =>
      property outcome.1 ∧ outcome.2 ≤ number + more := by
  induction more generalizing number with
  | zero => exact Activity.guarantees_bind (each number) fun _ holds => ⟨holds, Nat.le_refl _⟩
  | succ more induction =>
      have further : (policy.runFrom attempt (number + 1) more).Guarantees invariant fun outcome =>
          property outcome.1 ∧ outcome.2 ≤ number + (more + 1) := by
        rw [show number + (more + 1) = number + 1 + more by omega]
        exact induction (number + 1)
      refine Activity.guarantees_bind (each number) fun outcome holds => ?_
      cases outcome with
      | ok result => exact ⟨holds, Nat.le_add_right _ _⟩
      | error failure =>
          change (if policy.isRetryable failure then _ else _ : Activity World _).Guarantees _ _
          split
          · exact Activity.guarantees_next (Activity.guarantees_pause _) fun _ => further
          · exact ⟨holds, Nat.le_add_right _ _⟩

/-- Whatever each attempt comes to, the last one comes to; and there are not too many. -/
theorem guarantees_run (policy : RetryPolicy Failure)
    {attempt : Nat → Activity World (Except Failure Result)}
    (each : ∀ number, (attempt number).Guarantees invariant property) :
    (policy.run attempt).Guarantees invariant fun outcome =>
      property outcome.1 ∧ outcome.2 ≤ max 1 policy.maxAttempts := by
  refine Activity.guarantees_mono (policy.guarantees_run_from each 1 _) fun outcome holds => ?_
  exact ⟨holds.1, by omega⟩

end DetectionRules.RetryPolicy
