import Mathlib

/-!
Computations that may fail, taken apart when they are known to succeed, and
what they fail with.
-/

namespace DetectionRules.Success

variable {Failure Item First Second : Type}

theorem of_is_ok {computed : Except Failure First} (success : computed.isOk = true) :
    ∃ result, computed = .ok result := by
  cases computed with
  | error failure => cases success
  | ok result => exact ⟨result, rfl⟩

theorem of_bind {first : Except Failure First} {continued : First → Except Failure Second}
    {final : Second} (success : first >>= continued = .ok final) :
    ∃ result, first = .ok result ∧ continued result = .ok final := by
  cases first with
  | error failure => cases success
  | ok result => exact ⟨result, rfl, success⟩

theorem of_map {first : Except Failure First} {change : First → Second} {final : Second}
    (success : first.map change = .ok final) :
    ∃ result, first = .ok result ∧ change result = final := by
  cases first with
  | error failure => cases success
  | ok result => exact ⟨result, rfl, Except.ok.inj success⟩

theorem of_map_error {Other : Type} {computed : Except Failure First} {change : Failure → Other}
    {result : First} (success : computed.mapError change = .ok result) : computed = .ok result := by
  cases computed with
  | error failure => cases success
  | ok found =>
      cases success
      rfl

theorem of_map_m {step : Item → Except Failure First} {items : List Item} {results : List First}
    {property : First → Item → Prop}
    (each : ∀ item ∈ items, ∀ result, step item = .ok result → property result item)
    (success : items.mapM step = .ok results) : List.Forall₂ property results items := by
  induction items generalizing results with
  | nil =>
      cases success
      exact .nil
  | cons item rest induction =>
      rw [List.mapM_cons] at success
      obtain ⟨first, head, success⟩ := of_bind success
      obtain ⟨others, tail, success⟩ := of_bind success
      cases success
      refine .cons (each item (by simp) first head) (induction ?_ tail)
      intro other member
      exact each other (List.mem_cons_of_mem item member)

theorem forall_iff_of_map_m {step : Item → Except Failure First} {items : List Item}
    {results : List First} {holds : First → Prop} {meant : Item → Prop}
    (each : ∀ item ∈ items, ∀ result, step item = .ok result → (holds result ↔ meant item))
    (success : items.mapM step = .ok results) :
    (∀ result ∈ results, holds result) ↔ ∀ item ∈ items, meant item := by
  have related := of_map_m each success
  clear each success
  induction related with
  | nil => simp
  | cons same _ induction =>
      rw [List.forall_mem_cons, List.forall_mem_cons]
      exact and_congr same induction

theorem exists_iff_of_map_m {step : Item → Except Failure First} {items : List Item}
    {results : List First} {holds : First → Prop} {meant : Item → Prop}
    (each : ∀ item ∈ items, ∀ result, step item = .ok result → (holds result ↔ meant item))
    (success : items.mapM step = .ok results) :
    (∃ result ∈ results, holds result) ↔ ∃ item ∈ items, meant item := by
  have opposite : (∀ result ∈ results, ¬holds result) ↔ ∀ item ∈ items, ¬meant item :=
    forall_iff_of_map_m
      (fun item member result found => not_congr (each item member result found)) success
  simpa using not_congr opposite

theorem of_mem_map_m {step : Item → Except Failure First} {items : List Item}
    {results : List First} (success : items.mapM step = .ok results) {item : Item}
    (member : item ∈ items) : ∃ result, step item = .ok result := by
  induction items generalizing results with
  | nil => cases member
  | cons first rest induction =>
      rw [List.mapM_cons] at success
      obtain ⟨result, head, success⟩ := of_bind success
      obtain ⟨others, tail, _⟩ := of_bind success
      rcases List.mem_cons.mp member with rfl | inside
      · exact ⟨result, head⟩
      · exact induction tail inside

theorem map_m {step : Item → Except Failure First} {result : Item → First} {items : List Item}
    (succeeds : ∀ item ∈ items, step item = .ok (result item)) :
    items.mapM step = .ok (items.map result) := by
  induction items with
  | nil => rfl
  | cons item rest induction =>
      have others := induction fun other member => succeeds other (List.mem_cons_of_mem item member)
      rw [List.mapM_cons, succeeds item (by simp), others]
      rfl

theorem exists_map_m {step : Item → Except Failure First} {items : List Item}
    (succeeds : ∀ item ∈ items, ∃ result, step item = .ok result) :
    ∃ results, items.mapM step = .ok results := by
  induction items with
  | nil => exact ⟨[], rfl⟩
  | cons item rest induction =>
      obtain ⟨first, head⟩ := succeeds item (by simp)
      obtain ⟨others, tail⟩ := induction fun other member =>
        succeeds other (List.mem_cons_of_mem item member)
      exact ⟨first :: others, by rw [List.mapM_cons, head, tail]; rfl⟩

/-- What went wrong, if anything did. -/
def failure? : Except Failure First → Option Failure
  | .error failure => some failure
  | .ok _ => none

theorem failure_eq_some_iff {computed : Except Failure First} {failure : Failure} :
    failure? computed = some failure ↔ computed = .error failure := by
  cases computed <;> simp [failure?]

@[simp]
theorem failure_map (change : First → Second) (computed : Except Failure First) :
    failure? (computed.map change) = failure? computed := by
  cases computed <;> rfl

end DetectionRules.Success
