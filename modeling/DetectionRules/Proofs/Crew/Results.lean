import DetectionRules.Proofs.Activity
import DetectionRules.Proofs.Crew.Progress
import Mathlib.Data.Set.List

/-!
What a crew comes to, in any order. Every result gets to the place of its
errand. It is one that the errand guarantees, or else what is given for an errand
that was given up; but nothing is given up before the crew is stopped, and only a
result that some errand guarantees stops it. Who has not begun by then never
begins.
-/

namespace DetectionRules

variable {World Result : Type}

namespace Phase

/-- What is left to do, or what came of it, has a property. -/
def Forall (onRest : Activity World Result → Prop) (onResult : Result → Prop) :
    Phase World Result → Prop
  | waiting | admitted => True
  | working _ rest => onRest rest
  | leaving result | ended result | collected result => onResult result

def result? : Phase World Result → Option Result
  | leaving result | ended result | collected result => some result
  | _ => none

theorem Forall.of_result {onRest : Activity World Result → Prop} {onResult : Result → Prop}
    {phase : Phase World Result} {result : Result} (all : phase.Forall onRest onResult)
    (has : phase.result? = some result) : onResult result := by
  cases phase with
  | waiting | admitted | working => cases has
  | leaving | ended | collected =>
      cases has
      exact all

end Phase

namespace Errand

/-- What may stand for the result of an errand that was given up. -/
def IsSubstitute (errand : Errand World Result) (result : Result) : Prop :=
  ∃ now, result = errand.givenUp now

/-- The errand was turned away, or will be. -/
def IsAway (errand : Errand World Result) : Phase World Result → Prop :=
  Phase.Forall (fun _ => False) errand.IsSubstitute

/-- Nothing was done yet but what keeps the invariant and leads to a good result, or else the errand
was given up by a crew that was stopped. -/
def IsSound (errand : Errand World Result) (invariant : World → Prop) (good : Result → Prop)
    (stopped : Bool) : Phase World Result → Prop :=
  Phase.Forall (·.Guarantees invariant good) fun result =>
    good result ∨ stopped = true ∧ errand.IsSubstitute result

theorem IsSound.of_stopped {errand : Errand World Result} {invariant : World → Prop}
    {good : Result → Prop} {stopped stopped' : Bool} {phase : Phase World Result}
    (sound : errand.IsSound invariant good stopped phase)
    (still : stopped = true → stopped' = true) :
    errand.IsSound invariant good stopped' phase := by
  cases phase with
  | waiting | admitted => trivial
  | working due rest => exact sound
  | leaving | ended | collected => exact sound.imp_right fun given => ⟨still given.1, given.2⟩

section Steps

variable {errand : Errand World Result} {stops : Result → Bool} {phase later : Phase World Result}
  {stopped stopped' : Bool} {world world' : World}

theorem Step.collected_eq {now : Nat}
    (step : errand.Step stops now phase stopped world later stopped' world') :
    later.collected? = phase.collected? := by
  cases step <;> rfl

namespace Goes

theorem still_stopped (goes : errand.Goes stops phase stopped world later stopped' world')
    (before : stopped = true) : stopped' = true := by
  subst before
  cases goes with
  | letIn | collect => rfl
  | move step => cases step <;> rfl

theorem result_kept {result : Result}
    (goes : errand.Goes stops phase stopped world later stopped' world')
    (has : phase.result? = some result) : later.result? = some result := by
  cases goes with
  | letIn => cases has
  | collect => exact has
  | move step =>
      cases step with
      | leave => exact has
      | refuse | turnBack | begin | act | wait | finish | giveUp | skip => cases has

theorem still_away (goes : errand.Goes stops phase stopped world later stopped' world')
    (before : stopped = true) (away : errand.IsAway phase) : errand.IsAway later := by
  cases goes with
  | letIn => trivial
  | collect => exact away
  | move step =>
      cases step with
      | refuse | turnBack => exact ⟨_, rfl⟩
      | begin => cases before
      | leave => exact away
      | act | wait | finish | giveUp | skip => exact away.elim

variable {invariant : World → Prop} {good : Result → Prop}

theorem keeps (goes : errand.Goes stops phase stopped world later stopped' world')
    (holds : invariant world) (sound : errand.IsSound invariant good stopped phase) :
    invariant world' := by
  cases goes with
  | letIn | collect => exact holds
  | move step =>
      cases step with
      | act => exact (sound _ world holds).1
      | refuse | turnBack | begin | wait | finish | giveUp | skip | leave => exact holds

theorem still_sound (goes : errand.Goes stops phase stopped world later stopped' world')
    (able : errand.activity.Guarantees invariant good) (holds : invariant world)
    (sound : errand.IsSound invariant good stopped phase) :
    errand.IsSound invariant good stopped' later := by
  cases goes with
  | letIn => trivial
  | collect => exact sound
  | move step =>
      cases step with
      | refuse | turnBack | giveUp => exact .inr ⟨rfl, _, rfl⟩
      | begin => exact able
      | act => exact (sound _ world holds).2
      | wait => exact sound
      | finish => exact .inl sound
      | skip isDue settled => exact .inl (Activity.of_guarantees_advance sound holds settled)
      | leave => exact sound

theorem cause (goes : errand.Goes stops phase stopped world later stopped' world')
    (sound : errand.IsSound invariant good stopped phase) (before : stopped = false)
    (after : stopped' = true) :
    ∃ result, later.result? = some result ∧ good result ∧ stops result = true := by
  subst before
  cases goes with
  | letIn | collect => cases after
  | move step =>
      cases step with
      | finish => exact ⟨_, rfl, sound, (Bool.false_or _).symm.trans after⟩
      | begin | act | wait | leave => cases after

end Goes

end Steps

end Errand

namespace Crew

variable {admits : Crew World Result → Nat → Prop} {stops : Result → Bool}
  {crew next : Crew World Result} {index : Nat} {task : CrewTask World Result}

theorem map_set {Value : Type} {phase : Phase World Result} {value : CrewTask World Result → Value}
    (present : crew.tasks[index]? = some task) (same : value { task with phase } = value task) :
    (crew.tasks.set index { task with phase }).map value = crew.tasks.map value := by
  rw [List.map_set, same]
  refine List.ext_getElem? fun other => ?_
  by_cases here : other = index
  · subst here
    have inside : other < (crew.tasks.map value).length := by
      simpa using (List.getElem?_eq_some_iff.mp present).1
    rw [List.getElem?_set_self inside, List.getElem?_map, present]
    rfl
  · rw [List.getElem?_set_ne (Ne.symm here)]

theorem Step.owners (step : Step admits stops crew next) :
    next.tasks.map (fun task => (task.errand, task.place)) =
      crew.tasks.map fun task => (task.errand, task.place) := by
  obtain ⟨index, task, phase, present, changed, _⟩ := step.goes
  rw [changed]
  exact map_set present rfl

theorem Step.still_stopped (step : Step admits stops crew next) (stopped : crew.stopped = true) :
    next.stopped = true := by
  obtain ⟨_, _, _, _, _, goes, _⟩ := step.goes
  exact goes.still_stopped stopped

/-- The tasks are those of the errands, and what was collected stands at its place. -/
structure IsFor (errands : List (Errand World Result)) (crew : Crew World Result) : Prop where
  tasks : crew.tasks.map (fun task => (task.errand, task.place)) = errands.zipIdx
  results : crew.results = crew.tasks.map (·.phase.collected?)

namespace IsFor

variable {errands : List (Errand World Result)}

theorem start (moment : Activity.Moment World) : IsFor errands (start errands moment) where
  tasks := by simp [Crew.start, Function.comp_def]
  results := by
    rw [Crew.start, List.map_map, ← List.zipIdx_map_fst 0 errands, List.map_map]
    simp [Function.comp_def, Phase.collected?]

theorem errands_eq (is : IsFor errands crew) : crew.tasks.map (·.errand) = errands := by
  rw [← List.zipIdx_map_fst 0 errands, ← is.tasks, List.map_map]
  rfl

theorem at_index (is : IsFor errands crew) (present : crew.tasks[index]? = some task) :
    errands[index]? = some task.errand ∧ task.place = index := by
  have listed := congrArg (·[index]?) is.tasks
  simp only [List.getElem?_map, present, Option.map_some, List.getElem?_zipIdx] at listed
  obtain ⟨errand, known, same⟩ := Option.map_eq_some_iff.mp listed.symm
  obtain ⟨rfl, place⟩ := Prod.mk.inj same
  exact ⟨known, by omega⟩

theorem step (is : IsFor errands crew) (step : Step admits stops crew next) :
    IsFor errands next := by
  refine ⟨step.owners.trans is.tasks, ?_⟩
  cases step with
  | letIn present waits =>
      refine is.results.trans (map_set present ?_).symm
      rw [waits]
      rfl
  | move present passes step =>
      exact is.results.trans (map_set present step.collected_eq).symm
  | collect present ended =>
      rw [enter, List.map_set, is.results, (is.at_index present).2]
      rfl

theorem run (is : IsFor errands crew)
    (reached : Relation.ReflTransGen (Step admits stops) crew next) : IsFor errands next := by
  induction reached with
  | refl => exact is
  | tail _ step induction => exact induction.step step

end IsFor

/-- The state and all tasks are as they should be, and the crew was stopped for a reason. -/
structure IsSound (invariant : World → Prop) (good : Nat → Result → Prop)
    (stops : Result → Bool) (crew : Crew World Result) : Prop where
  world : invariant crew.moment.world
  able : ∀ task ∈ crew.tasks, task.errand.activity.Guarantees invariant (good task.place)
  tasks : ∀ task ∈ crew.tasks,
    task.errand.IsSound invariant (good task.place) crew.stopped task.phase
  cause : crew.stopped = true → ∃ task ∈ crew.tasks, ∃ result,
    task.phase.result? = some result ∧ good task.place result ∧ stops result = true

namespace IsSound

variable {invariant : World → Prop} {good : Nat → Result → Prop}

theorem start {errands : List (Errand World Result)} {moment : Activity.Moment World}
    (holds : invariant moment.world)
    (able : ∀ (place : Nat) (errand : Errand World Result), errands[place]? = some errand →
      errand.activity.Guarantees invariant (good place)) :
    IsSound invariant good stops (start errands moment) where
  world := holds
  able task member := by
    obtain ⟨⟨errand, place⟩, known, rfl⟩ := List.mem_map.mp member
    exact able place errand (List.mem_zipIdx_iff_getElem?.mp known)
  tasks task member := by
    obtain ⟨⟨errand, place⟩, known, rfl⟩ := List.mem_map.mp member
    trivial
  cause := nofun

theorem step (sound : IsSound invariant good stops crew) (step : Step admits stops crew next) :
    IsSound invariant good stops next := by
  obtain ⟨index, task, phase, present, changed, goes, _⟩ := step.goes
  have member := List.mem_of_getElem? present
  have able := sound.able task member
  have before := sound.tasks task member
  have after : { task with phase } ∈ next.tasks :=
    changed ▸ List.mem_set (List.getElem?_eq_some_iff.mp present).1 _
  refine ⟨goes.keeps sound.world before, fun other found => ?_, fun other found => ?_,
    fun stopped => ?_⟩
  · rcases List.mem_or_eq_of_mem_set (changed ▸ found) with found | rfl
    · exact sound.able other found
    · exact able
  · rcases List.mem_or_eq_of_mem_set (changed ▸ found) with found | rfl
    · exact (sound.tasks other found).of_stopped goes.still_stopped
    · exact goes.still_sound able sound.world before
  · cases already : crew.stopped with
    | false =>
        rw [already] at goes before
        obtain ⟨result, has, fits, stops⟩ := goes.cause before rfl stopped
        exact ⟨_, after, result, has, fits, stops⟩
    | true =>
        obtain ⟨other, found, result, has, fits, stops⟩ := sound.cause already
        obtain ⟨place, there⟩ := List.mem_iff_getElem?.mp found
        by_cases same : place = index
        · obtain rfl := Option.some.inj (there.symm.trans (same ▸ present))
          exact ⟨_, after, result, goes.result_kept has, fits, stops⟩
        · refine ⟨other, ?_, result, has, fits, stops⟩
          rw [changed]
          exact List.mem_of_getElem? ((List.getElem?_set_ne (Ne.symm same)).trans there)

theorem run (sound : IsSound invariant good stops crew)
    (reached : Relation.ReflTransGen (Step admits stops) crew next) :
    IsSound invariant good stops next := by
  induction reached with
  | refl => exact sound
  | tail _ step induction => exact induction.step step

end IsSound

/-- In the end there is a result for every errand. -/
theorem IsFor.outcomes {errands : List (Errand World Result)} (is : IsFor errands crew)
    (isOver : crew.IsOver) :
    ∃ outcomes : List Result, crew.results = outcomes.map some ∧
      outcomes.length = errands.length ∧
      ∀ (index : Nat) outcome, outcomes[index]? = some outcome →
        ∃ task ∈ crew.tasks, crew.tasks[index]? = some task ∧ task.place = index ∧
          errands[index]? = some task.errand ∧ task.phase = .collected outcome := by
  have collected : crew.tasks.map CrewTask.phase ∈ Set.range (List.map Phase.collected) := by
    rw [Set.range_list_map]
    intro phase member
    obtain ⟨task, known, rfl⟩ := List.mem_map.mp member
    obtain ⟨result, same⟩ := isOver task known
    exact ⟨result, same.symm⟩
  obtain ⟨outcomes, same⟩ := collected
  refine ⟨outcomes, ?_, ?_, fun index outcome found => ?_⟩
  · have results := congrArg (List.map Phase.collected?) same
    rw [List.map_map, List.map_map] at results
    exact is.results.trans results.symm
  · have lengths := congrArg List.length same
    rw [List.length_map, List.length_map] at lengths
    rw [lengths, ← is.errands_eq, List.length_map]
  · have phase : (crew.tasks.map CrewTask.phase)[index]? = some (.collected outcome) := by
      rw [← same, List.getElem?_map, found]
      rfl
    rw [List.getElem?_map] at phase
    obtain ⟨task, present, phase⟩ := Option.map_eq_some_iff.mp phase
    exact ⟨task, List.mem_of_getElem? present, present, (is.at_index present).2,
      (is.at_index present).1, phase⟩

theorem Step.still_away (step : Step admits stops crew next) (stopped : crew.stopped = true)
    (present : crew.tasks[index]? = some task) (away : task.errand.IsAway task.phase) :
    ∃ phase, next.tasks[index]? = some { task with phase } ∧ task.errand.IsAway phase := by
  obtain ⟨other, found, phase, there, changed, goes, _⟩ := step.goes
  rw [changed]
  by_cases same : other = index
  · subst same
    obtain rfl := Option.some.inj (there.symm.trans present)
    exact ⟨phase, List.getElem?_set_self (List.getElem?_eq_some_iff.mp there).1,
      goes.still_away stopped away⟩
  · exact ⟨task.phase, (List.getElem?_set_ne same).trans present, away⟩

/-- Who has not begun when the crew is stopped never begins, however the others go on. -/
theorem still_away (reached : Relation.ReflTransGen (Step admits stops) crew next)
    (stopped : crew.stopped = true) (present : crew.tasks[index]? = some task)
    (away : task.errand.IsAway task.phase) :
    next.stopped = true ∧
      ∃ phase, next.tasks[index]? = some { task with phase } ∧ task.errand.IsAway phase := by
  induction reached with
  | refl => exact ⟨stopped, task.phase, present, away⟩
  | tail _ step induction =>
      obtain ⟨still, phase, there, away⟩ := induction
      have after := step.still_away still there away
      exact ⟨step.still_stopped still, after⟩

end Crew

end DetectionRules
