import DetectionRules.Time.Activity

/-!
Errands on one state in any order. A crew has only so many permits; an errand
needs one to begin and gives it back when it has its result. What happens next
is not fixed: whoever can go on may be the next to do so, by a single step, and
time passes as it likes. A result may stop the crew. Whoever has no permit by
then is turned away, and whoever has begun may be given up between two of its
steps. Results are collected as they come.
-/

namespace DetectionRules

structure Errand (World Result : Type) where
  activity : Activity World Result
  /-- What comes of it if it is given up at some time. -/
  givenUp : Nat → Result

/-- How far an errand has come. -/
inductive Phase (World Result : Type) where
  | waiting
  /-- It has a permit and is yet to see whether the crew was stopped. -/
  | admitted
  /-- It does not go on before it is due. -/
  | working (due : Nat) (rest : Activity World Result)
  /-- It has a result and still has its permit. -/
  | leaving (result : Result)
  | ended (result : Result)
  | collected (result : Result)

namespace Phase

variable {World Result : Type}

def holdsPermit : Phase World Result → Bool
  | admitted | working .. | leaving _ => true
  | _ => false

def collected? : Phase World Result → Option Result
  | collected result => some result
  | _ => none

end Phase

namespace Errand

variable {World Result : Type}

/-- What an errand may do at a time: its phase, whether the crew is stopped and the state, before
and after. -/
inductive Step (errand : Errand World Result) (stops : Result → Bool) (now : Nat) :
    Phase World Result → Bool → World → Phase World Result → Bool → World → Prop where
  | refuse {world} :
      Step errand stops now .waiting true world (.ended (errand.givenUp now)) true world
  | turnBack {world} :
      Step errand stops now .admitted true world (.leaving (errand.givenUp now)) true world
  | begin {world} :
      Step errand stops now .admitted false world (.working now errand.activity) false world
  | act {due effect next stopped world} (isDue : due ≤ now) :
      Step errand stops now (.working due (.act effect next)) stopped world
        (.working now (next now world)) stopped (effect now world)
  | wait {due duration next stopped world} (isDue : due ≤ now) :
      Step errand stops now (.working due (.wait duration next)) stopped world
        (.working (now + duration) next) stopped world
  | finish {due result stopped world} (isDue : due ≤ now) :
      Step errand stops now (.working due (.done result)) stopped world
        (.leaving result) (stopped || stops result) world
  | giveUp {due rest world} :
      Step errand stops now (.working due rest) true world
        (.leaving (errand.givenUp now)) true world
  /-- An errand that has nothing left to wait for may keep its result and leave the state as it
  is. -/
  | skip {due rest result world changed} (isDue : due ≤ now)
      (settled : rest.advance now world = .finished result changed) :
      Step errand stops now (.working due rest) true world (.leaving result) true world
  | leave {result stopped world} :
      Step errand stops now (.leaving result) stopped world (.ended result) stopped world

end Errand

structure CrewTask (World Result : Type) where
  place : Nat
  errand : Errand World Result
  phase : Phase World Result

structure Crew (World Result : Type) where
  moment : Activity.Moment World
  stopped : Bool
  tasks : List (CrewTask World Result)
  results : List (Option Result)

namespace Crew

variable {World Result : Type}

def start (errands : List (Errand World Result)) (moment : Activity.Moment World) :
    Crew World Result where
  moment
  stopped := false
  tasks := errands.zipIdx.map fun (errand, place) => ⟨place, errand, .waiting⟩
  results := errands.map fun _ => none

def permits (crew : Crew World Result) : Nat := crew.tasks.countP (·.phase.holdsPermit)

def HasRoom (limit : Nat) (crew : Crew World Result) (_index : Nat) : Prop := crew.permits < limit

/-- There is a permit left, and nobody before is waiting for it. -/
def IsNext (limit : Nat) (crew : Crew World Result) (index : Nat) : Prop :=
  crew.permits < limit ∧
    ∀ earlier < index, ∀ task, crew.tasks[earlier]? = some task → task.phase ≠ .waiting

def enter (crew : Crew World Result) (index : Nat) (task : CrewTask World Result)
    (phase : Phase World Result) : Crew World Result :=
  { crew with tasks := crew.tasks.set index { task with phase } }

/-- What may happen next, given who may be admitted. -/
inductive Step (admits : Crew World Result → Nat → Prop) (stops : Result → Bool) :
    Crew World Result → Crew World Result → Prop where
  | letIn {crew index task} (present : crew.tasks[index]? = some task)
      (waits : task.phase = .waiting) (admitted : admits crew index) :
      Step admits stops crew (crew.enter index task .admitted)
  | move {crew index task later phase stopped world} (present : crew.tasks[index]? = some task)
      (passes : crew.moment.now ≤ later)
      (step : task.errand.Step stops later task.phase crew.stopped crew.moment.world
        phase stopped world) :
      Step admits stops crew
        { crew.enter index task phase with moment := ⟨later, world⟩, stopped }
  | collect {crew index task result} (present : crew.tasks[index]? = some task)
      (ended : task.phase = .ended result) :
      Step admits stops crew
        { crew.enter index task (.collected result) with
          results := crew.results.set task.place (some result) }

def IsOver (crew : Crew World Result) : Prop :=
  ∀ task ∈ crew.tasks, ∃ result, task.phase = .collected result

end Crew

end DetectionRules
