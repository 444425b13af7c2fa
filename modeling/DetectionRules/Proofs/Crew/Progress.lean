import DetectionRules.Time.Crew
import Mathlib.Data.List.Perm.Basic
import Mathlib.Logic.Hydra
import Mathlib.Logic.Relation

/-!
Crews come to an end. An errand goes from phase to phase and never back, and
there is only so much to do in each, so no crew goes on forever. As long as the
first in the line is let in when all permits are there, somebody can go on until
every result is collected.
-/

namespace DetectionRules

/-- Whichever steps are taken, the goal is reached. -/
inductive Inevitably {State : Type} (Step : State → State → Prop) (Goal : State → Prop) :
    State → Prop where
  | now {state} (reached : Goal state) : Inevitably Step Goal state
  | later {state} (possible : ∃ next, Step state next)
      (each : ∀ next, Step state next → Inevitably Step Goal next) : Inevitably Step Goal state

namespace Inevitably

variable {State : Type} {Step : State → State → Prop} {Goal Weaker : State → Prop} {state : State}

theorem mono (inevitable : Inevitably Step Goal state)
    (implies : ∀ state, Goal state → Weaker state) : Inevitably Step Weaker state := by
  induction inevitable with
  | now reached => exact .now (implies _ reached)
  | later possible _ each => exact .later possible each

theorem of_well_founded (ends : WellFounded fun next state => Step state next)
    (stuck : ∀ state, (∀ next, ¬Step state next) → Goal state) (start : State) :
    Inevitably Step (fun state => Goal state ∧ Relation.ReflTransGen Step start state) start := by
  have from_ : ∀ state, Relation.ReflTransGen Step start state →
      Inevitably Step (fun state => Goal state ∧ Relation.ReflTransGen Step start state) state := by
    intro state
    induction state using ends.induction with
    | _ state induction =>
        intro reached
        by_cases possible : ∃ next, Step state next
        · exact .later possible fun next step => induction next step (reached.tail step)
        · exact .now ⟨stuck state (not_exists.mp possible), reached⟩
  exact from_ start .refl

end Inevitably

variable {World Result : Type}

namespace Phase

inductive Follows : Phase World Result → Phase World Result → Prop where
  | admitted : Follows admitted waiting
  | refused {result} : Follows (ended result) waiting
  | begun {due rest} : Follows (working due rest) admitted
  | turnedBack {result} : Follows (leaving result) admitted
  | further {due rest due' rest'} (isLater : rest.IsLater rest') :
      Follows (working due rest) (working due' rest')
  | finished {due rest result} : Follows (leaving result) (working due rest)
  | left {result result'} : Follows (ended result) (leaving result')
  | collected {result result'} : Follows (collected result) (ended result')

theorem acc_collected (result : Result) : Acc Follows (collected result : Phase World Result) :=
  ⟨_, fun _ follows => nomatch follows⟩

theorem acc_ended (result : Result) : Acc Follows (ended result : Phase World Result) := by
  refine ⟨_, fun later follows => ?_⟩
  cases follows
  exact acc_collected _

theorem acc_leaving (result : Result) : Acc Follows (leaving result : Phase World Result) := by
  refine ⟨_, fun later follows => ?_⟩
  cases follows
  exact acc_ended _

theorem acc_working (due : Nat) (rest : Activity World Result) :
    Acc Follows (working due rest) := by
  induction rest.acc_is_later generalizing due with
  | intro rest _ later =>
      refine ⟨_, fun phase follows => ?_⟩
      cases follows with
      | further isLater => exact later _ isLater _
      | finished => exact acc_leaving _

theorem acc_admitted : Acc Follows (admitted : Phase World Result) := by
  refine ⟨_, fun later follows => ?_⟩
  cases follows with
  | begun => exact acc_working _ _
  | turnedBack => exact acc_leaving _

theorem acc_waiting : Acc Follows (waiting : Phase World Result) := by
  refine ⟨_, fun later follows => ?_⟩
  cases follows with
  | admitted => exact acc_admitted
  | refused => exact acc_ended _

theorem acc_follows : ∀ phase : Phase World Result, Acc Follows phase
  | waiting => acc_waiting
  | admitted => acc_admitted
  | working due rest => acc_working due rest
  | leaving result => acc_leaving result
  | ended result => acc_ended result
  | collected result => acc_collected result

end Phase

namespace Errand

/-- What a step of a crew is for the errand that goes on. -/
inductive Goes (errand : Errand World Result) (stops : Result → Bool) :
    Phase World Result → Bool → World → Phase World Result → Bool → World → Prop where
  | letIn {stopped world} : Goes errand stops .waiting stopped world .admitted stopped world
  | move {now phase stopped world later stopped' world'}
      (step : errand.Step stops now phase stopped world later stopped' world') :
      Goes errand stops phase stopped world later stopped' world'
  | collect {result stopped world} :
      Goes errand stops (.ended result) stopped world (.collected result) stopped world

theorem Goes.follows {errand : Errand World Result} {stops : Result → Bool}
    {phase later : Phase World Result} {stopped stopped' : Bool} {world world' : World}
    (goes : errand.Goes stops phase stopped world later stopped' world') :
    later.Follows phase := by
  cases goes with
  | letIn => exact .admitted
  | move step =>
      cases step with
      | refuse => exact .refused
      | turnBack => exact .turnedBack
      | begin => exact .begun
      | act => exact .further ⟨_, _, .inl rfl⟩
      | wait => exact .further (.inl rfl)
      | finish | giveUp | skip => exact .finished
      | leave => exact .left
  | collect => exact .collected

end Errand

namespace Crew

variable {admits : Crew World Result → Nat → Prop} {stops : Result → Bool}
  {crew next : Crew World Result}

/-- One task goes on, and all others stay as they are. As long as the crew is not stopped, whoever
waits does so only when it is let in. -/
theorem Step.goes (step : Step admits stops crew next) :
    ∃ index task phase, crew.tasks[index]? = some task ∧
      next.tasks = crew.tasks.set index { task with phase } ∧
      task.errand.Goes stops task.phase crew.stopped crew.moment.world phase next.stopped
        next.moment.world ∧
      (task.phase = .waiting → crew.stopped = false → admits crew index) := by
  cases step with
  | letIn present waits admitted =>
      exact ⟨_, _, _, present, rfl, waits ▸ .letIn, fun _ _ => admitted⟩
  | @move index task _ phase stopped world present passes step =>
      refine ⟨index, task, phase, present, rfl, .move step, fun waits runs => ?_⟩
      rw [waits, runs] at step
      cases step
  | collect present ended =>
      exact ⟨_, _, _, present, rfl, ended ▸ .collect, fun waits _ => nomatch ended.symm.trans waits⟩

def phases (crew : Crew World Result) : Multiset (Phase World Result) :=
  crew.tasks.map CrewTask.phase

theorem cut_expand_of_step (step : Step admits stops crew next) :
    Relation.CutExpand Phase.Follows next.phases crew.phases := by
  obtain ⟨index, task, phase, present, changed, goes, _⟩ := step.goes
  refine ⟨{phase}, task.phase, by simpa using goes.follows, ?_⟩
  have swapped : ∀ tasks : List (CrewTask World Result), ∀ index, tasks[index]? = some task →
      ((tasks.set index { task with phase }).map CrewTask.phase : Multiset (Phase World Result)) +
        {task.phase} = (tasks.map CrewTask.phase : Multiset (Phase World Result)) + {phase} := by
    intro tasks
    induction tasks with
    | nil => exact fun _ present => nomatch present
    | cons first rest induction =>
        intro index present
        cases index with
        | zero =>
            cases present
            simp [← Multiset.cons_coe, Multiset.add_comm _ {_}, Multiset.cons_swap]
        | succ index =>
            have others := induction index (by simpa using present)
            simp only [List.set_cons_succ, List.map_cons, ← Multiset.cons_coe, Multiset.cons_add,
              others]
  rw [phases, changed]
  exact swapped _ _ present

/-- No crew goes on forever. -/
theorem well_founded_step :
    WellFounded fun next crew : Crew World Result => Step admits stops crew next := by
  have ends : WellFounded (Relation.CutExpand (@Phase.Follows World Result)) :=
    WellFounded.cutExpand ⟨Phase.acc_follows⟩
  exact Subrelation.wf cut_expand_of_step (InvImage.wf phases ends)

theorem possible_of_busy {task : CrewTask World Result} (member : task ∈ crew.tasks)
    (waits : task.phase ≠ .waiting) (busy : ∀ result, task.phase ≠ .collected result) :
    ∃ next, Step admits stops crew next := by
  obtain ⟨index, present⟩ := List.mem_iff_getElem?.mp member
  have moves : (∃ later ≥ crew.moment.now, ∃ phase stopped world, task.errand.Step stops later
      task.phase crew.stopped crew.moment.world phase stopped world) →
      ∃ next, Step admits stops crew next :=
    fun ⟨_, passes, _, _, _, step⟩ => ⟨_, .move present passes step⟩
  cases phase : task.phase with
  | waiting => exact absurd phase waits
  | admitted =>
      refine moves ⟨crew.moment.now, le_rfl, ?_⟩
      rw [phase]
      cases crew.stopped with
      | true => exact ⟨_, _, _, .turnBack⟩
      | false => exact ⟨_, _, _, .begin⟩
  | working due rest =>
      refine moves ⟨max crew.moment.now due, le_max_left .., ?_⟩
      rw [phase]
      cases rest with
      | done result => exact ⟨_, _, _, .finish (le_max_right ..)⟩
      | wait duration rest => exact ⟨_, _, _, .wait (le_max_right ..)⟩
      | act effect rest => exact ⟨_, _, _, .act (le_max_right ..)⟩
  | leaving result =>
      refine moves ⟨crew.moment.now, le_rfl, ?_⟩
      rw [phase]
      exact ⟨_, _, _, .leave⟩
  | ended result => exact ⟨_, .collect present phase⟩
  | collected result => exact absurd phase (busy result)

/-- When all permits are there, the first who waits is let in. -/
def AdmitsFirst (admits : Crew World Result → Nat → Prop) : Prop :=
  ∀ crew : Crew World Result, ∀ index, crew.permits = 0 →
    (∀ earlier < index, ∀ task, crew.tasks[earlier]? = some task → task.phase ≠ .waiting) →
      admits crew index

theorem is_over_of_stuck (first : AdmitsFirst admits)
    (stuck : ∀ next, ¬Step admits stops crew next) : crew.IsOver := by
  have settled : ∀ task ∈ crew.tasks,
      task.phase = .waiting ∨ ∃ result, task.phase = .collected result := by
    intro task member
    by_contra! busy
    have possible : ∃ next, Step admits stops crew next := possible_of_busy member busy.1 busy.2
    exact not_exists.mpr stuck possible
  have free : crew.permits = 0 := by
    rw [permits, List.countP_eq_zero]
    intro task member
    rcases settled task member with phase | ⟨result, phase⟩ <;> simp [phase, Phase.holdsPermit]
  -- The first who waits would be let in, so there is no first.
  have nobody : ∀ (index : Nat) (task : CrewTask World Result), crew.tasks[index]? = some task →
      task.phase ≠ .waiting := by
    intro index
    induction index using Nat.strong_induction_on with
    | _ index earlier =>
        intro task present waits
        exact stuck _ (.letIn present waits (first crew index free earlier))
  intro task member
  obtain ⟨index, present⟩ := List.mem_iff_getElem?.mp member
  exact (settled task member).resolve_left (nobody index task present)

/-- Whatever the order, all results are collected in the end. -/
theorem inevitably_over (first : AdmitsFirst admits) (crew : Crew World Result) :
    Inevitably (Step admits stops)
      (fun later => later.IsOver ∧ Relation.ReflTransGen (Step admits stops) crew later) crew :=
  .of_well_founded well_founded_step (fun _ => is_over_of_stuck first) crew

theorem admits_first_has_room {limit : Nat} (any : 0 < limit) :
    AdmitsFirst (HasRoom limit : Crew World Result → Nat → Prop) :=
  fun _ _ free _ => free.trans_lt any

theorem admits_first_is_next {limit : Nat} (any : 0 < limit) :
    AdmitsFirst (IsNext limit : Crew World Result → Nat → Prop) :=
  fun _ _ free first => ⟨free.trans_lt any, first⟩

end Crew

end DetectionRules
