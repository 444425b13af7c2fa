import DetectionRules.Proofs.Crew.Results

/-!
Crews with one permit that is given out in the order of the tasks. At any time
there is one task up to which all have gone well; it is the only one that may
have begun and not ended. If its result stops the crew, all after it are turned
away.
-/

namespace DetectionRules

variable {World Result : Type} {good : Nat → Result → Prop}
  {stops : Result → Bool}

namespace Phase

/-- The errand was done and went well. -/
def WentWell (good : Result → Prop) (stops : Result → Bool) (phase : Phase World Result) : Prop :=
  ∃ result, (phase = .ended result ∨ phase = .collected result) ∧ good result ∧ stops result = false

/-- The errand that is under way or next, or whose result stopped the crew. -/
def IsCurrent (stops : Result → Bool) : Bool → Phase World Result → Prop
  | true, phase => ∃ result, phase.result? = some result ∧ stops result = true
  | false, leaving result => stops result = false
  | false, ended _ | false, collected _ => False
  | false, waiting | false, admitted | false, working .. => True

end Phase

namespace Errand

/-- An errand whose turn has not come. -/
def IsToCome (errand : Errand World Result) : Bool → Phase World Result → Prop
  | true, phase => errand.IsAway phase
  | false, phase => phase = .waiting

theorem IsToCome.of_stopped {errand : Errand World Result} {phase : Phase World Result}
    {stopped stopped' : Bool} (toCome : errand.IsToCome stopped phase)
    (still : stopped = true → stopped' = true) : errand.IsToCome stopped' phase := by
  cases stopped with
  | true =>
      rw [still rfl]
      exact toCome
  | false =>
      obtain rfl := toCome
      cases stopped' with
      | true => trivial
      | false => rfl

namespace Goes

variable {errand : Errand World Result} {phase later : Phase World Result}
  {stopped stopped' : Bool} {world world' : World} {good : Result → Prop}

theorem still_well (goes : errand.Goes stops phase stopped world later stopped' world')
    (well : phase.WentWell good stops) : later.WentWell good stops ∧ stopped' = stopped := by
  obtain ⟨result, rfl | rfl, fits, runs⟩ := well
  · cases goes with
    | collect => exact ⟨⟨result, .inr rfl, fits, runs⟩, rfl⟩
    | move step => cases step
  · cases goes with
    | move step => cases step

/-- The current errand stays the current one until it leaves without having stopped the crew. -/
theorem still_current {invariant : World → Prop}
    (goes : errand.Goes stops phase stopped world later stopped' world')
    (sound : errand.IsSound invariant good stopped phase)
    (current : phase.IsCurrent stops stopped) :
    later.IsCurrent stops stopped' ∨
      later.WentWell good stops ∧ stopped = false ∧ stopped' = false := by
  cases stopped with
  | true =>
      obtain ⟨result, has, stops⟩ := current
      rw [goes.still_stopped rfl]
      exact .inl ⟨result, goes.result_kept has, stops⟩
  | false =>
      cases goes with
      | letIn => exact .inl trivial
      | collect => exact current.elim
      | move step =>
          cases step with
          | begin | act | wait => exact .inl trivial
          | @finish _ result =>
              left
              cases stopping : stops result with
              | true => exact ⟨result, rfl, stopping⟩
              | false => exact stopping
          | leave =>
              have fits := sound.resolve_right fun given => nomatch given.1
              exact .inr ⟨⟨_, .inl rfl, fits, current⟩, rfl, rfl⟩

end Goes

end Errand

namespace Crew

variable {crew next : Crew World Result}

/-- All before a task went well, and none after it has begun. -/
structure InOrder (good : Nat → Result → Prop) (stops : Result → Bool)
    (reached : Nat) (crew : Crew World Result) : Prop where
  before : ∀ index < reached, ∀ task, crew.tasks[index]? = some task →
    task.phase.WentWell (good task.place) stops
  current : ∀ task, crew.tasks[reached]? = some task → task.phase.IsCurrent stops crew.stopped
  after : ∀ index > reached, ∀ task, crew.tasks[index]? = some task →
    task.errand.IsToCome crew.stopped task.phase

namespace InOrder

variable {invariant : World → Prop} {reached : Nat}

theorem start (errands : List (Errand World Result)) (moment : Activity.Moment World) :
    InOrder good stops 0 (start errands moment) := by
  have waits : ∀ (index : Nat) (task : CrewTask World Result),
      (Crew.start errands moment).tasks[index]? = some task → task.phase = .waiting := by
    intro index task present
    obtain ⟨entry, _, rfl⟩ := List.mem_map.mp (List.mem_of_getElem? present)
    rfl
  refine ⟨nofun, fun task present => ?_, fun index _ task present => waits index task present⟩
  rw [waits 0 task present]
  trivial

theorem not_is_next (order : InOrder good stops reached crew) (runs : crew.stopped = false)
    {index : Nat} (later : reached < index) (inside : index < crew.tasks.length) :
    ¬IsNext 1 crew index := by
  rintro ⟨room, first⟩
  have present : crew.tasks[reached]? = some crew.tasks[reached] :=
    List.getElem?_eq_getElem (later.trans inside)
  have current := order.current _ present
  rw [runs] at current
  have free : ¬crew.tasks[reached].phase.holdsPermit = true := by
    have none := List.countP_eq_zero.mp (Nat.lt_one_iff.mp room)
    exact none _ (List.getElem_mem _)
  have gone := first reached later _ present
  cases phase : crew.tasks[reached].phase with
  | waiting => exact gone phase
  | admitted | working | leaving => simp [phase, Phase.holdsPermit] at free
  | ended | collected =>
      rw [phase] at current
      exact current

section Moves

variable {index : Nat} {task : CrewTask World Result} {phase : Phase World Result}
  (here : next.tasks[index]? = some { task with phase })
  (others : ∀ other, other ≠ index → next.tasks[other]? = crew.tasks[other]?)
include here others

theorem of_before (order : InOrder good stops reached crew) (earlier : index < reached)
    (well : phase.WentWell (good task.place) stops) (same : next.stopped = crew.stopped) :
    InOrder good stops reached next := by
  refine ⟨fun other below found there => ?_, fun found there => ?_,
    fun other above found there => ?_⟩
  · by_cases moved : other = index
    · subst moved
      obtain rfl := Option.some.inj (here.symm.trans there)
      exact well
    · exact order.before other below found (others other moved ▸ there)
  · rw [same]
    exact order.current found (others reached earlier.ne' ▸ there)
  · rw [same]
    exact order.after other above found (others other (earlier.trans above).ne' ▸ there)

theorem of_current (order : InOrder good stops index crew)
    (current : phase.IsCurrent stops next.stopped)
    (still : crew.stopped = true → next.stopped = true) : InOrder good stops index next := by
  refine ⟨fun other below found there => ?_, fun found there => ?_,
    fun other above found there => ?_⟩
  · exact order.before other below found (others other below.ne ▸ there)
  · obtain rfl := Option.some.inj (here.symm.trans there)
    exact current
  · have toCome := order.after other above found (others other above.ne' ▸ there)
    exact toCome.of_stopped still

theorem of_well (order : InOrder good stops index crew)
    (well : phase.WentWell (good task.place) stops) (ran : crew.stopped = false)
    (runs : next.stopped = false) : InOrder good stops (index + 1) next := by
  have waits : ∀ other > index, ∀ found, next.tasks[other]? = some found →
      found.phase = .waiting := by
    intro other above found there
    have toCome := order.after other above found (others other above.ne' ▸ there)
    rwa [ran] at toCome
  refine ⟨fun other below found there => ?_, fun found there => ?_,
    fun other above found there => ?_⟩
  · by_cases moved : other = index
    · subst moved
      obtain rfl := Option.some.inj (here.symm.trans there)
      exact well
    · exact order.before other (by omega) found (others other moved ▸ there)
  · rw [runs, waits _ index.lt_succ_self found there]
    trivial
  · rw [runs]
    exact waits other (index.lt_succ_self.trans above) found there

theorem of_after (order : InOrder good stops reached crew) (later : reached < index)
    (away : task.errand.IsAway phase) (stopped : crew.stopped = true)
    (still : next.stopped = true) : InOrder good stops reached next := by
  refine ⟨fun other below found there => ?_, fun found there => ?_,
    fun other above found there => ?_⟩
  · exact order.before other below found (others other (below.trans later).ne ▸ there)
  · rw [still, ← stopped]
    exact order.current found (others reached later.ne ▸ there)
  · by_cases moved : other = index
    · subst moved
      obtain rfl := Option.some.inj (here.symm.trans there)
      rw [still]
      exact away
    · have toCome := order.after other above found (others other moved ▸ there)
      rwa [stopped, ← still] at toCome

end Moves

theorem step (order : InOrder good stops reached crew) (sound : IsSound invariant good stops crew)
    (step : Step (IsNext 1) stops crew next) : ∃ reached, InOrder good stops reached next := by
  obtain ⟨index, task, phase, present, changed, goes, admitted⟩ := step.goes
  have inside := (List.getElem?_eq_some_iff.mp present).1
  have here : next.tasks[index]? = some { task with phase } := by
    rw [changed, List.getElem?_set_self inside]
  have others : ∀ other, other ≠ index → next.tasks[other]? = crew.tasks[other]? := by
    intro other different
    rw [changed, List.getElem?_set_ne different.symm]
  rcases lt_trichotomy index reached with earlier | rfl | later
  · obtain ⟨well, same⟩ := goes.still_well (order.before index earlier task present)
    exact ⟨reached, order.of_before here others earlier well same⟩
  · have before := sound.tasks task (List.mem_of_getElem? present)
    rcases goes.still_current before (order.current task present) with current | ⟨well, ran, runs⟩
    · exact ⟨index, order.of_current here others current goes.still_stopped⟩
    · exact ⟨index + 1, order.of_well here others well ran runs⟩
  · have toCome := order.after index later task present
    cases stopped : crew.stopped with
    | false =>
        rw [stopped] at toCome
        exact absurd (admitted toCome stopped) (order.not_is_next stopped later inside)
    | true =>
        rw [stopped] at toCome
        have away := goes.still_away stopped toCome
        exact ⟨reached, order.of_after here others later away stopped (goes.still_stopped stopped)⟩

/-- With one permit, given out in the order of the tasks, there is always a current task. -/
theorem run {errands : List (Errand World Result)} {moment : Activity.Moment World}
    (sound : IsSound invariant good stops (Crew.start errands moment))
    (reached : Relation.ReflTransGen (Step (IsNext 1) stops) (Crew.start errands moment) crew) :
    ∃ index, InOrder good stops index crew := by
  induction reached with
  | refl => exact ⟨0, .start errands moment⟩
  | tail earlier step induction =>
      obtain ⟨_, order⟩ := induction
      exact order.step (sound.run earlier) step

/-- When all is over, all before some task went well, that task stopped the crew, and all after it
were turned away. -/
theorem at_end (order : InOrder good stops reached crew) {index : Nat}
    {task : CrewTask World Result} {result : Result} (present : crew.tasks[index]? = some task)
    (collected : task.phase = .collected result) :
    (index < reached → good task.place result ∧ stops result = false) ∧
      (index = reached → stops result = true) ∧
      (reached < index → task.errand.IsSubstitute result) := by
  refine ⟨fun earlier => ?_, fun same => ?_, fun later => ?_⟩
  · obtain ⟨other, phase | phase, well⟩ := order.before index earlier task present
    · cases collected.symm.trans phase
    · cases collected.symm.trans phase
      exact well
  · have current := order.current task (same ▸ present)
    rw [collected] at current
    cases stopped : crew.stopped with
    | false =>
        rw [stopped] at current
        exact current.elim
    | true =>
        rw [stopped] at current
        obtain ⟨other, has, stops⟩ := current
        cases has
        exact stops
  · have toCome := order.after index later task present
    rw [collected] at toCome
    cases stopped : crew.stopped with
    | false =>
        rw [stopped] at toCome
        cases toCome
    | true =>
        rw [stopped] at toCome
        exact toCome

end InOrder

end Crew

end DetectionRules
