import DetectionRules.Proofs.Crew.Results

/-!
Several steps of a crew at once. Who is let in may begin at once, who is due may
go on until it has to wait or has its result, a result may be collected at once,
and when the crew is stopped all others may be given up on the spot.
-/

namespace DetectionRules

open Relation (ReflTransGen)

variable {World Result : Type} {stops : Result → Bool}

/-- The result of a task, or what stands for it if it is given up at a time. -/
def CrewTask.outcome (task : CrewTask World Result) (now : Nat) : Result :=
  task.phase.result?.getD (task.errand.givenUp now)

namespace Crew

variable {admits : Crew World Result → Nat → Prop} {crew : Crew World Result} {index : Nat}
  {task : CrewTask World Result}

def goOn (crew : Crew World Result) (index : Nat) (task : CrewTask World Result)
    (phase : Phase World Result) (moment : Activity.Moment World) (stopped : Bool) :
    Crew World Result :=
  { crew.enter index task phase with moment, stopped }

theorem at_go_on {phase : Phase World Result} {moment : Activity.Moment World} {stopped : Bool}
    (present : crew.tasks[index]? = some task) :
    (crew.goOn index task phase moment stopped).tasks[index]? = some { task with phase } :=
  List.getElem?_set_self (List.getElem?_eq_some_iff.mp present).1

@[simp]
theorem go_on_go_on {first second : Phase World Result} {moment later : Activity.Moment World}
    {stopped stopped' : Bool} :
    (crew.goOn index task first moment stopped).goOn index { task with phase := first } second
      later stopped' = crew.goOn index task second later stopped' := by
  simp [goOn, enter]

theorem step_go_on {later : Nat} {phase phase' : Phase World Result} {stopped : Bool}
    {world : World} (present : crew.tasks[index]? = some task) (known : task.phase = phase)
    (passes : crew.moment.now ≤ later)
    (step : task.errand.Step stops later phase crew.stopped crew.moment.world
      phase' stopped world) :
    Step admits stops crew (crew.goOn index task phase' ⟨later, world⟩ stopped) :=
  .move present passes (known ▸ step)

theorem reaches_begun (present : crew.tasks[index]? = some task) (waits : task.phase = .waiting)
    (runs : crew.stopped = false) (admitted : admits crew index) :
    ReflTransGen (Step admits stops) crew (crew.goOn index task
      (.working crew.moment.now task.errand.activity) crew.moment false) := by
  have entered : Step admits stops crew (crew.goOn index task .admitted crew.moment false) := by
    rw [← runs]
    exact .letIn present waits admitted
  have begun : Step admits stops (crew.goOn index task .admitted crew.moment false) _ :=
    step_go_on (at_go_on present) rfl le_rfl .begin
  rw [go_on_go_on] at begun
  exact (ReflTransGen.single entered).tail begun

/-- The crew after one task went on as far as it can without waiting. -/
def keepOn (crew : Crew World Result) (index : Nat) (task : CrewTask World Result)
    (stops : Result → Bool) (now : Nat) : Activity.Pace World Result → Crew World Result
  | .finished result world =>
      crew.goOn index task (.leaving result) ⟨now, world⟩ (crew.stopped || stops result)
  | .waiting duration next world =>
      crew.goOn index task (.working (now + duration) next) ⟨now, world⟩ crew.stopped

theorem keep_on_go_on {phase : Phase World Result} {moment : Activity.Moment World} {now : Nat}
    (pace : Activity.Pace World Result) :
    (crew.goOn index task phase moment crew.stopped).keepOn index { task with phase } stops now
      pace = crew.keepOn index task stops now pace := by
  cases pace <;> exact go_on_go_on

theorem at_keep_on_ne {other now : Nat} (different : index ≠ other)
    (pace : Activity.Pace World Result) :
    (crew.keepOn index task stops now pace).tasks[other]? = crew.tasks[other]? := by
  cases pace <;> exact List.getElem?_set_ne different

theorem reaches_keep_on {now due : Nat} {rest : Activity World Result}
    (present : crew.tasks[index]? = some task) (phase : task.phase = .working due rest)
    (isDue : due ≤ now) (passes : crew.moment.now ≤ now) :
    ReflTransGen (Step admits stops) crew
      (crew.keepOn index task stops now (rest.advance now crew.moment.world)) := by
  induction rest generalizing crew task due with
  | done result => exact .single (step_go_on present phase passes (.finish isDue))
  | wait duration next induction =>
      have waited : Step admits stops crew (crew.goOn index task (.working (now + duration) next)
          ⟨now, crew.moment.world⟩ crew.stopped) :=
        step_go_on present phase passes (.wait isDue)
      cases duration with
      | zero =>
          have others := @induction (crew.goOn index task (.working now next)
            ⟨now, crew.moment.world⟩ crew.stopped) _ now (at_go_on present) rfl le_rfl le_rfl
          rw [keep_on_go_on] at others
          exact others.head waited
      | succ duration => exact .single waited
  | act effect next induction =>
      have acted : Step admits stops crew (crew.goOn index task
          (.working now (next now crew.moment.world))
          ⟨now, effect now crew.moment.world⟩ crew.stopped) :=
        step_go_on present phase passes (.act isDue)
      have others := @induction now crew.moment.world (crew.goOn index task
        (.working now (next now crew.moment.world)) ⟨now, effect now crew.moment.world⟩
        crew.stopped) _ now (at_go_on present) rfl le_rfl le_rfl
      rw [keep_on_go_on] at others
      exact others.head acted

/-- Who is let in while the crew is not stopped may have its whole first turn. -/
theorem reaches_first_turn (present : crew.tasks[index]? = some task)
    (waits : task.phase = .waiting) (runs : crew.stopped = false) (admitted : admits crew index) :
    ReflTransGen (Step admits stops) crew (crew.keepOn index task stops crew.moment.now
      (task.errand.activity.advance crew.moment.now crew.moment.world)) := by
  have begun : ReflTransGen (Step admits stops) crew _ := reaches_begun present waits runs admitted
  rw [← runs] at begun
  have goes : ReflTransGen (Step admits stops) (crew.goOn index task
      (.working crew.moment.now task.errand.activity) crew.moment crew.stopped) _ :=
    reaches_keep_on (at_go_on present) rfl le_rfl le_rfl
  rw [keep_on_go_on] at goes
  exact begun.trans goes

/-- The result may be collected without anything else changing. -/
def MayCollect (admits : Crew World Result → Nat → Prop) (stops : Result → Bool)
    (crew : Crew World Result) (index : Nat) (task : CrewTask World Result) (result : Result) :
    Prop :=
  ∃ next, ReflTransGen (Step admits stops) crew next ∧ next.moment = crew.moment ∧
    next.stopped = crew.stopped ∧
    next.tasks = crew.tasks.set index { task with phase := .collected result }

theorem MayCollect.of_step {phase : Phase World Result} {result : Result}
    (step : Step admits stops crew (crew.goOn index task phase crew.moment crew.stopped))
    (rest : MayCollect admits stops (crew.goOn index task phase crew.moment crew.stopped) index
      { task with phase } result) : MayCollect admits stops crew index task result := by
  obtain ⟨next, reached, moment, stopped, tasks⟩ := rest
  exact ⟨next, reached.head step, moment, stopped, tasks.trans (List.set_set ..)⟩

theorem may_collect_ended {result : Result} (present : crew.tasks[index]? = some task)
    (phase : task.phase = .ended result) : MayCollect admits stops crew index task result :=
  ⟨_, .single (.collect present phase), rfl, rfl, rfl⟩

theorem may_collect_leaving {result : Result} (present : crew.tasks[index]? = some task)
    (phase : task.phase = .leaving result) : MayCollect admits stops crew index task result :=
  .of_step (step_go_on present phase le_rfl .leave) (may_collect_ended (at_go_on present) rfl)

theorem may_collect_outcome (stopped : crew.stopped = true)
    (present : crew.tasks[index]? = some task) :
    MayCollect admits stops crew index task (task.outcome crew.moment.now) := by
  have goesOn : ∀ phase phase', task.phase = phase →
      task.errand.Step stops crew.moment.now phase true crew.moment.world phase' true
        crew.moment.world →
      Step admits stops crew (crew.goOn index task phase' crew.moment crew.stopped) := by
    intro phase phase' known step
    rw [← stopped] at step
    exact step_go_on present known le_rfl step
  have here : ∀ phase, (crew.goOn index task phase crew.moment crew.stopped).tasks[index]? =
      some { task with phase } := fun phase => at_go_on present
  rw [CrewTask.outcome]
  cases phase : task.phase with
  | waiting => exact .of_step (goesOn _ _ phase .refuse) (may_collect_ended (here _) rfl)
  | admitted => exact .of_step (goesOn _ _ phase .turnBack) (may_collect_leaving (here _) rfl)
  | working due rest => exact .of_step (goesOn _ _ phase .giveUp) (may_collect_leaving (here _) rfl)
  | leaving result => exact may_collect_leaving present phase
  | ended result => exact may_collect_ended present phase
  | collected result =>
      refine ⟨crew, .refl, rfl, rfl, ?_⟩
      have same : ({ task with phase := .collected result } : CrewTask World Result) = task := by
        rw [← phase]
      change crew.tasks = crew.tasks.set index { task with phase := .collected result }
      obtain ⟨inside, rfl⟩ := List.getElem?_eq_some_iff.mp present
      rw [same, List.set_getElem_self]

/-- When the crew is stopped, all may be given up on the spot. -/
theorem may_collect_all (stopped : crew.stopped = true) :
    ∃ next, ReflTransGen (Step admits stops) crew next ∧ next.moment = crew.moment ∧
      next.tasks = crew.tasks.map fun task =>
        { task with phase := .collected (task.outcome crew.moment.now) } := by
  have settles : ∀ (todo settled : List (CrewTask World Result)) (crew : Crew World Result),
      crew.stopped = true → crew.tasks = settled ++ todo →
      ∃ next, ReflTransGen (Step admits stops) crew next ∧ next.moment = crew.moment ∧
        next.tasks = settled ++ todo.map fun task =>
          { task with phase := .collected (task.outcome crew.moment.now) } := by
    intro todo
    induction todo with
    | nil => exact fun settled crew _ tasks => ⟨crew, .refl, rfl, tasks⟩
    | cons task rest induction =>
        intro settled crew stopped tasks
        have present : crew.tasks[settled.length]? = some task := by simp [tasks]
        have first : MayCollect admits stops crew settled.length task _ :=
          may_collect_outcome stopped present
        obtain ⟨between, reached, moment, still, changed⟩ := first
        rw [tasks, List.set_append_right _ _ le_rfl, Nat.sub_self, List.set_cons_zero,
          List.append_cons] at changed
        obtain ⟨next, after, moment', all⟩ := induction _ between (still.trans stopped) changed
        refine ⟨next, reached.trans after, moment'.trans moment, ?_⟩
        rw [all, moment, List.map_cons, List.append_assoc]
        rfl
  exact settles crew.tasks [] crew stopped rfl

end Crew

end DetectionRules
