import DetectionRules.Proofs.Crew.Turns
import DetectionRules.Time.Pool

/-!
A pool is a crew that goes on in one of the orders there are: the first who waits
begins at once when there is a place, who is due goes on until it has to wait or
has its result, and a result that stops the pool leaves nothing for the others
but to be given up.
-/

namespace DetectionRules

open Relation (ReflTransGen)

variable {World Result : Type} {stops : Result → Bool}

namespace Seat

def phase : Seat World Result → Phase World Result
  | idle _ => .waiting
  | asleep wake _ activity => .working wake activity
  | ended result => .collected result

theorem eq_of_alarm {seat : Seat World Result} {wake turn : Nat}
    (alarm : seat.alarm? = some (wake, turn)) : ∃ activity, seat = .asleep wake turn activity := by
  cases seat with
  | idle | ended => cases alarm
  | asleep =>
      cases alarm
      exact ⟨_, rfl⟩

end Seat

namespace Pool

variable {seats : List (Seat World Result)}

theorem first_alarm_of_some {best : Option ((Nat × Nat) × Nat)} {entry : Seat World Result × Nat}
    {alarm : Nat × Nat} {index : Nat} (first : firstAlarm best entry = some (alarm, index)) :
    best = some (alarm, index) ∨ entry.1.alarm? = some alarm ∧ entry.2 = index := by
  cases known : entry.1.alarm? with
  | none =>
      simp only [firstAlarm, known] at first
      exact .inl first
  | some rings =>
      cases best with
      | none =>
          simp only [firstAlarm, known, Option.some.injEq, Prod.mk.injEq] at first
          exact .inr ⟨congrArg some first.1, first.2⟩
      | some other =>
          simp only [firstAlarm, known] at first
          split at first
          · cases first
            exact .inr ⟨rfl, rfl⟩
          · exact .inl first

theorem first_alarm_of_none {best : Option ((Nat × Nat) × Nat)} {entry : Seat World Result × Nat}
    (first : firstAlarm best entry = none) : best = none ∧ entry.1.alarm? = none := by
  cases known : entry.1.alarm? with
  | none =>
      simp only [firstAlarm, known] at first
      exact ⟨first, rfl⟩
  | some rings =>
      cases best with
      | none => simp [firstAlarm, known] at first
      | some other =>
          simp only [firstAlarm, known] at first
          split at first <;> cases first

theorem next_asleep_of_some {index wake : Nat} (found : nextAsleep? seats = some (index, wake)) :
    ∃ turn activity, seats[index]? = some (.asleep wake turn activity) := by
  obtain ⟨⟨⟨wake, turn⟩, index⟩, first, same⟩ := Option.map_eq_some_iff.mp found
  cases same
  have known : ∀ alarm index, seats.zipIdx.foldl firstAlarm none = some (alarm, index) →
      ∃ seat, seats[index]? = some seat ∧ seat.alarm? = some alarm := by
    refine List.foldlRecOn (motive := fun best => ∀ alarm index, best = some (alarm, index) →
      ∃ seat, seats[index]? = some seat ∧ seat.alarm? = some alarm) seats.zipIdx firstAlarm
      (b := none) (fun _ _ impossible => nomatch impossible)
      fun best induction entry member => ?_
    intro alarm index first
    rcases first_alarm_of_some first with before | ⟨alarm, rfl⟩
    · exact induction alarm index before
    · exact ⟨entry.1, List.mem_zipIdx_iff_getElem?.mp member, alarm⟩
  obtain ⟨seat, present, alarm⟩ := known _ _ first
  obtain ⟨activity, rfl⟩ := Seat.eq_of_alarm alarm
  exact ⟨turn, activity, present⟩

theorem quiet_of_next_asleep (nobody : nextAsleep? seats = none) :
    ∀ seat ∈ seats, seat.alarm? = none := by
  have quiet : ∀ (entries : List (Seat World Result × Nat)) best,
      entries.foldl firstAlarm best = none →
        best = none ∧ ∀ entry ∈ entries, entry.1.alarm? = none := by
    intro entries
    induction entries with
    | nil => exact fun best first => ⟨first, nofun⟩
    | cons entry rest induction =>
        intro best first
        obtain ⟨before, others⟩ := induction _ first
        obtain ⟨none, alarm⟩ := first_alarm_of_none before
        exact ⟨none, List.forall_mem_cons.mpr ⟨alarm, others⟩⟩
  intro seat member
  obtain ⟨index, present⟩ := List.mem_iff_getElem?.mp member
  exact (quiet _ _ (Option.map_eq_none_iff.mp nobody)).2 (seat, index)
    (List.mem_zipIdx_iff_getElem?.mpr present)

theorem first_idle {index : Nat} (found : seats.findIdx? (·.isIdle) = some index) :
    (∃ activity, seats[index]? = some (.idle activity)) ∧
      ∀ earlier < index, ∀ activity, seats[earlier]? ≠ some (.idle activity) := by
  obtain ⟨inside, isIdle, others⟩ := List.findIdx?_eq_some_iff_getElem.mp found
  refine ⟨?_, fun earlier below activity present => ?_⟩
  · cases seat : seats[index] with
    | idle activity => exact ⟨activity, by rw [List.getElem?_eq_getElem inside, seat]⟩
    | asleep | ended => simp [seat, Seat.isIdle] at isIdle
  · obtain ⟨there, same⟩ := List.getElem?_eq_some_iff.mp present
    exact others earlier below (by rw [same]; rfl)

/-- Who goes on next is due, or else is the first who waits and finds a place. -/
theorem next_of_some {limit now index due : Nat}
    (found : next? limit now seats = some (index, due)) :
    (∃ turn activity, seats[index]? = some (.asleep due turn activity)) ∨
      due = now ∧ underWay seats < limit ∧ (∃ activity, seats[index]? = some (.idle activity)) ∧
        ∀ earlier < index, ∀ activity, seats[earlier]? ≠ some (.idle activity) := by
  have waits : ∀ idle, (if underWay seats < limit then seats.findIdx? (·.isIdle) else none) =
      some idle → underWay seats < limit ∧ (∃ activity, seats[idle]? = some (.idle activity)) ∧
        ∀ earlier < idle, ∀ activity, seats[earlier]? ≠ some (.idle activity) := by
    intro idle first
    split at first
    · rename_i room
      exact ⟨room, first_idle first⟩
    · cases first
  rw [next?] at found
  cases asleep : nextAsleep? seats with
  | none =>
      rw [asleep] at found
      obtain ⟨idle, first, same⟩ := Option.map_eq_some_iff.mp found
      cases same
      exact .inr ⟨rfl, waits _ first⟩
  | some entry =>
      obtain ⟨sleeper, wake⟩ := entry
      have sleeps := next_asleep_of_some asleep
      cases idle : (if underWay seats < limit then seats.findIdx? (·.isIdle) else none) with
      | none =>
          simp only [asleep, idle, Option.some.injEq, Prod.mk.injEq] at found
          obtain ⟨rfl, rfl⟩ := found
          exact .inl sleeps
      | some first =>
          simp only [asleep, idle] at found
          split at found
          · cases found
            exact .inl sleeps
          · cases found
            exact .inr ⟨rfl, waits _ idle⟩

theorem present_of_next {limit now index due : Nat}
    (found : next? limit now seats = some (index, due)) :
    ∃ seat activity, seats[index]? = some seat ∧ seat.activity? = some activity := by
  rcases next_of_some found with ⟨turn, activity, present⟩ | ⟨_, _, ⟨activity, present⟩, _⟩
  · exact ⟨_, activity, present, rfl⟩
  · exact ⟨_, activity, present, rfl⟩

theorem ended_of_none {limit now : Nat} (any : 0 < limit) (nobody : next? limit now seats = none) :
    ∀ seat ∈ seats, ∃ result, seat = .ended result := by
  rw [next?] at nobody
  cases asleep : nextAsleep? seats with
  | some entry =>
      simp only [asleep] at nobody
      split at nobody
      · split at nobody <;> cases nobody
      · cases nobody
      · contradiction
  | none =>
      rw [asleep] at nobody
      have quiet := quiet_of_next_asleep asleep
      have free : underWay seats = 0 := by
        rw [underWay, List.length_eq_zero_iff, List.filter_eq_nil_iff]
        intro seat member
        simp [quiet seat member]
      have first := Option.map_eq_none_iff.mp nobody
      rw [free, if_pos any] at first
      intro seat member
      have notIdle := List.findIdx?_eq_none_iff.mp first seat member
      have notAsleep := quiet seat member
      cases seat with
      | idle activity => cases notIdle
      | asleep wake turn activity => cases notAsleep
      | ended result => exact ⟨result, rfl⟩

end Pool

section Pairs

variable {Left Right : Type} {related : Left → Right → Prop} {first : List Left}
  {second : List Right} {index : Nat}

theorem forall₂_set {left : Left} {right : Right} (all : List.Forall₂ related first second)
    (holds : related left right) :
    List.Forall₂ related (first.set index left) (second.set index right) := by
  induction all generalizing index with
  | nil => exact .nil
  | cons head tail induction =>
      cases index with
      | zero => exact .cons holds tail
      | succ index => exact .cons head induction

theorem forall₂_at {right : Right} (all : List.Forall₂ related first second)
    (present : second[index]? = some right) :
    ∃ left, first[index]? = some left ∧ related left right := by
  induction all generalizing index with
  | nil => cases present
  | cons head tail induction =>
      cases index with
      | zero =>
          cases present
          exact ⟨_, rfl, head⟩
      | succ index => exact induction present

theorem forall₂_of_at (length : first.length = second.length)
    (each : ∀ (index : Nat) left right, first[index]? = some left → second[index]? = some right →
      related left right) : List.Forall₂ related first second := by
  rw [List.forall₂_iff_get]
  exact ⟨length, fun index inside inside' => each index _ _ (List.getElem?_eq_getElem inside)
    (List.getElem?_eq_getElem inside')⟩

end Pairs

/-- The task is at the point where the seat has it. -/
def CrewTask.Takes (task : CrewTask World Result) (seat : Seat World Result) : Prop :=
  task.phase = seat.phase ∧ ∀ activity, seat = .idle activity → task.errand.activity = activity

theorem CrewTask.Takes.outcome {task : CrewTask World Result} {seat : Seat World Result} (now : Nat)
    (takes : task.Takes seat) :
    task.outcome now = seat.result?.getD (task.errand.givenUp now) := by
  rw [CrewTask.outcome, takes.1]
  cases seat <;> rfl

namespace Crew

variable {crew : Crew World Result} {seats : List (Seat World Result)} {limit : Nat}

/-- The tasks are as the seats have them, and nothing stopped the crew. -/
structure Seated (seats : List (Seat World Result)) (crew : Crew World Result) : Prop where
  runs : crew.stopped = false
  takes : List.Forall₂ CrewTask.Takes crew.tasks seats

theorem Seated.permits (seated : Seated seats crew) : crew.permits = Pool.underWay seats := by
  have count : ∀ (tasks : List (CrewTask World Result)) (seats : List (Seat World Result)),
      List.Forall₂ CrewTask.Takes tasks seats →
        tasks.countP (·.phase.holdsPermit) = seats.countP (·.alarm?.isSome) := by
    intro tasks seats takes
    induction takes with
    | nil => rfl
    | @cons task seat _ _ first _ induction =>
        have same : task.phase.holdsPermit = seat.alarm?.isSome := by
          rw [first.1]
          cases seat <;> rfl
        rw [List.countP_cons, List.countP_cons, induction, same]
  rw [Crew.permits, Pool.underWay, ← List.countP_eq_length_filter]
  exact count _ _ seated.takes

section Turns

variable {index due : Nat} {seat : Seat World Result} {activity : Activity World Result}

theorem Seated.reaches_keep_on (seated : Seated seats crew)
    (found : Pool.next? limit crew.moment.now seats = some (index, due))
    (present : seats[index]? = some seat) (has : seat.activity? = some activity) :
    ∃ task, crew.tasks[index]? = some task ∧
      ReflTransGen (Step (IsNext limit) stops) crew (crew.keepOn index task stops
        (max crew.moment.now due)
        (activity.advance (max crew.moment.now due) crew.moment.world)) := by
  rcases Pool.next_of_some found with ⟨turn, rest, sits⟩ | ⟨rfl, room, ⟨rest, sits⟩, first⟩
  · obtain rfl := Option.some.inj (present.symm.trans sits)
    cases has
    obtain ⟨task, there, phase, _⟩ := forall₂_at seated.takes present
    exact ⟨task, there, Crew.reaches_keep_on there phase (le_max_right ..) (le_max_left ..)⟩
  · obtain rfl := Option.some.inj (present.symm.trans sits)
    cases has
    obtain ⟨task, there, waits, same⟩ := forall₂_at seated.takes present
    have next : IsNext limit crew index := by
      refine ⟨seated.permits ▸ room, fun earlier below other found waiting => ?_⟩
      obtain ⟨seat, sits, takes⟩ := forall₂_at (List.Forall₂.flip seated.takes) found
      cases seat with
      | idle activity => exact first earlier below activity sits
      | asleep | ended => cases waiting.symm.trans takes.1
    refine ⟨task, there, ?_⟩
    rw [max_self, ← same activity rfl]
    exact reaches_first_turn there waits seated.runs next

/-- All results are collected: those of the seats, and what stands for those that have none. -/
def EndsAs (seats : List (Seat World Result)) (crew : Crew World Result) : Prop :=
  List.Forall₂ (fun task seat =>
    task.phase = .collected (seat.result?.getD (task.errand.givenUp crew.moment.now)))
    crew.tasks seats

theorem Seated.ends_as (seated : Seated seats crew)
    (ended : ∀ seat ∈ seats, ∃ result, seat = .ended result) : crew.EndsAs seats := by
  have all : ∀ (tasks : List (CrewTask World Result)) (seats : List (Seat World Result)),
      List.Forall₂ CrewTask.Takes tasks seats → (∀ seat ∈ seats, ∃ result, seat = .ended result) →
        List.Forall₂ (fun task seat => task.phase =
          .collected (seat.result?.getD (task.errand.givenUp crew.moment.now))) tasks seats := by
    intro tasks seats takes
    induction takes with
    | nil => exact fun _ => .nil
    | cons first _ induction =>
        intro ended
        obtain ⟨⟨result, rfl⟩, others⟩ := List.forall_mem_cons.mp ended
        exact .cons first.1 (induction others)
  exact all _ _ seated.takes ended

variable {result : Result} {world : World}

theorem Seated.reaches_stop (seated : Seated seats crew)
    (found : Pool.next? limit crew.moment.now seats = some (index, due))
    (present : seats[index]? = some seat) (has : seat.activity? = some activity)
    (finished : activity.advance (max crew.moment.now due) crew.moment.world =
      .finished result world) (stopping : stops result = true) :
    ∃ last, ReflTransGen (Step (IsNext limit) stops) crew last ∧
      last.moment = ⟨max crew.moment.now due, world⟩ ∧
      last.EndsAs (seats.set index (.ended result)) := by
  obtain ⟨task, there, reached⟩ := seated.reaches_keep_on found present has
  rw [finished] at reached
  have stopped : (crew.goOn index task (.leaving result) ⟨max crew.moment.now due, world⟩
      (crew.stopped || stops result)).stopped = true := by
    change (crew.stopped || stops result) = true
    rw [stopping, Bool.or_true]
  have outcomes : List.Forall₂ (fun (task : CrewTask World Result) (seat : Seat World Result) =>
      task.outcome (max crew.moment.now due) =
        seat.result?.getD (task.errand.givenUp (max crew.moment.now due)))
      (crew.tasks.set index { task with phase := .leaving result })
      (seats.set index (.ended result)) :=
    forall₂_set (seated.takes.imp fun _ _ takes => takes.outcome _) rfl
  obtain ⟨last, after, moment, tasks⟩ := may_collect_all stopped
  refine ⟨last, reached.trans after, moment, ?_⟩
  rw [EndsAs, tasks, moment, List.forall₂_map_left_iff]
  exact outcomes.imp fun _ _ same => congrArg _ same

theorem Seated.reaches_ended (seated : Seated seats crew)
    (found : Pool.next? limit crew.moment.now seats = some (index, due))
    (present : seats[index]? = some seat) (has : seat.activity? = some activity)
    (finished : activity.advance (max crew.moment.now due) crew.moment.world =
      .finished result world) (continues : stops result = false) :
    ∃ later, ReflTransGen (Step (IsNext limit) stops) crew later ∧
      later.moment = ⟨max crew.moment.now due, world⟩ ∧
      Seated (seats.set index (.ended result)) later := by
  obtain ⟨task, there, reached⟩ := seated.reaches_keep_on found present has
  rw [finished] at reached
  have collects : MayCollect (IsNext limit) stops (crew.goOn index task (.leaving result)
      ⟨max crew.moment.now due, world⟩ (crew.stopped || stops result)) index
      { task with phase := .leaving result } result := may_collect_leaving (at_go_on there) rfl
  obtain ⟨later, after, moment, stopped, tasks⟩ := collects
  refine ⟨later, reached.trans after, moment, ?_, ?_⟩
  · rw [stopped]
    change (crew.stopped || stops result) = false
    rw [seated.runs, continues]
    rfl
  · rw [tasks.trans (List.set_set ..)]
    exact forall₂_set seated.takes ⟨rfl, nofun⟩

theorem Seated.reaches_asleep (seated : Seated seats crew) {duration turn : Nat}
    {next : Activity World Result}
    (found : Pool.next? limit crew.moment.now seats = some (index, due))
    (present : seats[index]? = some seat) (has : seat.activity? = some activity)
    (paused : activity.advance (max crew.moment.now due) crew.moment.world =
      .waiting duration next world) :
    ∃ later, ReflTransGen (Step (IsNext limit) stops) crew later ∧
      later.moment = ⟨max crew.moment.now due, world⟩ ∧
      Seated (seats.set index (.asleep (max crew.moment.now due + duration) turn next)) later := by
  obtain ⟨task, there, reached⟩ := seated.reaches_keep_on found present has
  rw [paused] at reached
  refine ⟨_, reached, rfl, seated.runs, forall₂_set seated.takes ⟨rfl, nofun⟩⟩

end Turns

/-- Whatever the pool does, the crew may do. -/
theorem Seated.reaches_end (any : 0 < limit) {moment : Activity.Moment World} (turn : Nat)
    (seated : Seated seats crew) (same : crew.moment = moment) :
    ∃ last, ReflTransGen (Step (IsNext limit) stops) crew last ∧
      last.moment = (Pool.runFrom limit stops turn seats moment).2 ∧
      last.EndsAs (Pool.runFrom limit stops turn seats moment).1 := by
  fun_induction Pool.runFrom limit stops turn seats moment generalizing crew with
  | case1 turn seats moment nobody =>
      subst same
      exact ⟨crew, .refl, rfl, seated.ends_as (Pool.ended_of_none any nobody)⟩
  | case2 turn seats moment index due found absent =>
      obtain ⟨seat, activity, present, _⟩ := Pool.present_of_next found
      cases absent.symm.trans present
  | case3 turn seats moment index due found seat present idle =>
      obtain ⟨other, activity, there, has⟩ := Pool.present_of_next found
      obtain rfl : seat = other := Option.some.inj (present.symm.trans there)
      cases idle.symm.trans has
  | case4 turn seats moment index due found =>
      rename_i seat present activity has result world finished _ stopping
      subst same
      exact seated.reaches_stop found present has finished stopping
  | case5 turn seats moment index due found =>
      rename_i seat present activity has result world finished _ continues induction
      subst same
      obtain ⟨later, reached, moment, seated⟩ := seated.reaches_ended found present has finished
        (Bool.eq_false_of_not_eq_true continues)
      obtain ⟨last, rest, ends⟩ := induction seated moment
      exact ⟨last, reached.trans rest, ends⟩
  | case6 turn seats moment index due found =>
      rename_i seat present activity has duration next world paused induction
      subst same
      obtain ⟨later, reached, moment, seated⟩ := seated.reaches_asleep found present has paused
      obtain ⟨last, rest, ends⟩ := induction seated moment
      exact ⟨last, reached.trans rest, ends⟩

theorem Seated.start (errands : List (Errand World Result)) (moment : Activity.Moment World) :
    Seated (errands.map fun errand => .idle errand.activity) (Crew.start errands moment) := by
  refine ⟨rfl, ?_⟩
  have all : ∀ (errands : List (Errand World Result)) (place : Nat),
      List.Forall₂ CrewTask.Takes
        ((errands.zipIdx place).map fun entry => ⟨entry.2, entry.1, .waiting⟩)
        (errands.map fun errand => .idle errand.activity) := by
    intro errands
    induction errands with
    | nil => exact fun _ => .nil
    | cons first rest induction =>
        intro place
        refine .cons ⟨rfl, fun activity same => ?_⟩ (induction (place + 1))
        cases same
        rfl
  exact all errands 0

theorem EndsAs.is_over (ends : crew.EndsAs seats) : crew.IsOver := by
  intro task member
  obtain ⟨index, present⟩ := List.mem_iff_getElem?.mp member
  obtain ⟨seat, _, phase⟩ := forall₂_at (List.Forall₂.flip ends) present
  exact ⟨_, phase⟩

theorem EndsAs.results {errands : List (Errand World Result)} (ends : crew.EndsAs seats)
    (is : IsFor errands crew) :
    crew.results = List.zipWith (fun errand result =>
      some (result.getD (errand.givenUp crew.moment.now))) errands (seats.map (·.result?)) := by
  rw [is.results, ← is.errands_eq]
  have all : ∀ (tasks : List (CrewTask World Result)) (seats : List (Seat World Result)),
      List.Forall₂ (fun task seat => task.phase =
        .collected (seat.result?.getD (task.errand.givenUp crew.moment.now))) tasks seats →
      tasks.map (·.phase.collected?) = List.zipWith (fun errand result =>
        some (result.getD (errand.givenUp crew.moment.now))) (tasks.map (·.errand))
          (seats.map (·.result?)) := by
    intro tasks seats ends
    induction ends with
    | nil => rfl
    | cons first _ induction =>
        rw [List.map_cons, List.map_cons, List.map_cons, List.zipWith_cons_cons, induction, first]
        rfl
  exact all _ _ ends

/-- What a pool does is one of the things that may happen. -/
theorem reaches_run (any : 0 < limit) (errands : List (Errand World Result))
    (moment : Activity.Moment World) :
    ∃ last, ReflTransGen (Step (IsNext limit) stops) (Crew.start errands moment) last ∧
      last.IsOver ∧ last.moment = (Pool.run limit stops (errands.map (·.activity)) moment).2 ∧
      last.results = List.zipWith (fun errand result =>
        some (result.getD (errand.givenUp last.moment.now))) errands
          (Pool.run limit stops (errands.map (·.activity)) moment).1 := by
  obtain ⟨last, reached, same, ends⟩ := (Seated.start errands moment).reaches_end any 0 rfl
  refine ⟨last, reached, ends.is_over, ?_, ?_⟩
  · rw [same, Pool.run, List.map_map]
    rfl
  · rw [ends.results ((IsFor.start moment).run reached), Pool.run, List.map_map]
    rfl

end Crew

end DetectionRules
