import DetectionRules.Proofs.Crew.Order
import DetectionRules.Proofs.Engine.Batch

/-!
Batches that stop at an error. Nothing is cancelled unless something failed, and
what has not begun when the batch is stopped never begins. With one permit, given
out in the order of the items, everything before the failure is completed and
everything after it is cancelled.
-/

namespace DetectionRules

open Relation (ReflTransGen)

/-- The task has no permit, or has not yet seen whether the crew was stopped. -/
def Crew.HasNotBegun {World Result : Type} (crew : Crew World Result) (index : Nat) : Prop :=
  ∃ task, crew.tasks[index]? = some task ∧ (task.phase = .waiting ∨ task.phase = .admitted)

namespace Engine

variable {Notes : Type} {engine : Engine Notes} {batch : BatchRequest}

def HasEnded (job : Job) : Prop := job.status = .completed ∨ job.status = .failed

/-- Left to itself, a translation comes to a text or to an error of its own. -/
theorem guarantees_translate_settled (request : TranslationRequest) :
    (engine.translate request).Guarantees (fun _ => True) fun job => ∃ outcome,
      (∀ error, outcome = .error error → error ≠ .cancelled) ∧
        job.timeless = settled request outcome :=
  guarantees_translate
    (Activity.guarantees_mono (Activity.guarantees_nothing _) fun _ _ _ _ => nofun)
    (Activity.guarantees_mono (guarantees_timed_attempt fun _ _ _ => trivial)
      fun outcome attempted error failed => by
        cases outcome with
        | ok translated => cases failed
        | error other =>
            cases failed
            exact attempted)
    fun _ _ => Activity.guarantees_nothing _

theorem guarantees_translate_ended (request : TranslationRequest) :
    (engine.translate request).Guarantees (fun _ => True) HasEnded := by
  refine Activity.guarantees_mono (guarantees_translate_settled request) fun job holds => ?_
  obtain ⟨outcome, ownReason, same⟩ := holds
  exact ended_of_settled ownReason same

def IsUntouched (job : Job) : Prop :=
  job.status = .cancelled ∧ job.attempts = 0 ∧ job.translation = none

theorem is_untouched_cancelled (now : Nat) (request : TranslationRequest) :
    IsUntouched (cancelled now request) := by
  simp [IsUntouched, cancelled, Job.fail, Job.advance, Job.ofRequest, JobStatus.canBecome]

/-- Only a failure is a reason to cancel, and nothing is lost. -/
structure StopsCleanly (batch : BatchRequest) (summary : BatchSummary) : Prop where
  reason : (∃ result ∈ summary.results, result.job.status = .cancelled) →
    ∃ result ∈ summary.results, result.job.status = .failed
  total : summary.total = batch.items.length
  parts : summary.total = summary.processed + summary.cancelled

/-- The item is not begun, and nothing is done for its job. -/
def IsPassedOver (engine : Engine Notes) (batch : BatchRequest) (index : Nat)
    (crew : Crew (EngineState Notes) Job) : Prop :=
  (∃ task, crew.tasks[index]? = some task ∧ (∀ due rest, task.phase ≠ .working due rest) ∧
    ∀ job, task.phase.result? = some job → IsUntouched job) ∧
  (crew.IsOver → ∃ result, (engine.summary batch crew).results[index]? = some result ∧
    IsUntouched result.job)

/-- All before an item are completed, the item failed, and all after it were cancelled. -/
def StopsAt (summary : BatchSummary) (failing : Nat) : Prop :=
  ∀ index result, summary.results[index]? = some result → result.job.status =
    if index < failing then .completed else if index = failing then .failed else .cancelled

section End

variable {admits : Crew (EngineState Notes) Job → Nat → Prop}
  {moment : Activity.Moment (EngineState Notes)} {crew later : Crew (EngineState Notes) Job}

theorem ended_start (moment : Activity.Moment (EngineState Notes)) :
    Crew.IsSound (fun _ => True) (fun _ => HasEnded) (engine.stops batch)
      (Crew.start (engine.errands batch) moment) := by
  refine .start trivial fun place errand found => ?_
  obtain ⟨item, _, rfl⟩ := at_errands found
  exact guarantees_translate_ended _

theorem stops_cleanly (isOver : crew.IsOver)
    (reached : ReflTransGen (Crew.Step admits (engine.stops batch))
      (Crew.start (engine.errands batch) moment) crew) :
    StopsCleanly batch (engine.summary batch crew) := by
  refine ⟨fun ⟨result, member, cancelled⟩ => ?_, length_results isOver reached,
    BatchSummary.total_eq⟩
  have sound := (ended_start moment).run reached
  obtain ⟨index, found⟩ := List.mem_iff_getElem?.mp member
  obtain ⟨_, _, _, task, known, _, _, phase, _⟩ := result_at isOver reached found
  have ends := sound.tasks task known
  rw [phase] at ends
  have ended : ¬HasEnded result.job := by simp [HasEnded, cancelled]
  obtain ⟨cause, among, job, has, _, stops⟩ := sound.cause (ends.resolve_left ended).1
  obtain ⟨place, present⟩ := List.mem_iff_getElem?.mp among
  obtain ⟨failing, there, rfl⟩ := result_of_task isOver reached present has
  exact ⟨failing, List.mem_of_getElem? there, of_decide_eq_true (Bool.and_eq_true_iff.mp stops).2⟩

/-- What has not begun when the batch is stopped never begins. -/
theorem is_passed_over (begun : ReflTransGen (Crew.Step admits (engine.stops batch))
      (Crew.start (engine.errands batch) moment) crew) (stopped : crew.stopped = true)
    {index : Nat} (unbegun : crew.HasNotBegun index)
    (reached : ReflTransGen (Crew.Step admits (engine.stops batch)) crew later) :
    engine.IsPassedOver batch index later := by
  obtain ⟨task, present, unbegun⟩ := unbegun
  have away : task.errand.IsAway task.phase := by
    rcases unbegun with phase | phase <;> rw [phase] <;> trivial
  obtain ⟨_, phase, there, still⟩ := Crew.still_away reached stopped present away
  obtain ⟨item, _, errand⟩ := at_errands (((Crew.IsFor.start moment).run begun).at_index present).1
  have untouched : ∀ job, phase.result? = some job → IsUntouched job := by
    intro job has
    obtain ⟨now, rfl⟩ := still.of_result has
    rw [errand]
    exact is_untouched_cancelled now _
  refine ⟨⟨_, there, fun due rest working => ?_, untouched⟩, fun isOver => ?_⟩
  · rw [show phase = .working due rest from working] at still
    exact still
  · obtain ⟨job, collected⟩ := isOver _ (List.mem_of_getElem? there)
    have has : phase.result? = some job := congrArg Phase.result? collected
    obtain ⟨result, found, rfl⟩ := result_of_task isOver (begun.trans reached) there has
    exact ⟨result, found, untouched _ has⟩

theorem stops_at (stopsAtError : engine.goesOn batch = false) (isOver : crew.IsOver)
    (reached : ReflTransGen (Crew.Step (Crew.IsNext 1) (engine.stops batch))
      (Crew.start (engine.errands batch) moment) crew) :
    ∃ failing, StopsAt (engine.summary batch crew) failing := by
  obtain ⟨failing, order⟩ := Crew.InOrder.run (ended_start moment) reached
  refine ⟨failing, fun index result found => ?_⟩
  obtain ⟨item, _, _, task, _, present, place, phase, errand⟩ := result_at isOver reached found
  obtain ⟨before, current, after⟩ := order.at_end present phase
  have failed : engine.stops batch result.job = (result.job.status == .failed) := by
    rw [stops, stopsAtError]
    rfl
  rw [failed] at before current
  rcases lt_trichotomy index failing with earlier | same | later
  · obtain ⟨ended, succeeded⟩ := before earlier
    rw [if_pos earlier]
    exact ended.resolve_right (of_decide_eq_false succeeded)
  · rw [if_neg same.not_lt, if_pos same]
    exact of_decide_eq_true (current same)
  · obtain ⟨now, substitute⟩ := after later
    rw [if_neg later.not_gt, if_neg later.ne']
    rw [substitute, errand]
    exact (is_untouched_cancelled now _).1

end End

/-- A batch that stops at an error stops cleanly, in whatever order its items are worked on. -/
theorem failing_batch_stops (engine : Engine Notes)
    (moment : Activity.Moment (EngineState Notes)) (batch : BatchRequest)
    (stopsAtError : engine.goesOn batch = false) (limit : Nat)
    (accepted : engine.batchLimit batch.items.length batch.maxConcurrent = .ok limit) :
    Inevitably (Crew.Step (Crew.HasRoom limit) (engine.stops batch))
      (fun crew => crew.IsOver ∧ StopsCleanly batch (engine.summary batch crew))
      (Crew.start (engine.errands batch) moment) ∧
    (∀ crew, ReflTransGen (Crew.Step (Crew.HasRoom limit) (engine.stops batch))
        (Crew.start (engine.errands batch) moment) crew → crew.stopped = true →
      ∀ index, crew.HasNotBegun index →
      ∀ later, ReflTransGen (Crew.Step (Crew.HasRoom limit) (engine.stops batch)) crew later →
        engine.IsPassedOver batch index later) ∧
    (limit = 1 → Inevitably (Crew.Step (Crew.IsNext 1) (engine.stops batch))
      (fun crew => crew.IsOver ∧ ∃ failing, StopsAt (engine.summary batch crew) failing)
      (Crew.start (engine.errands batch) moment)) ∧
    ∃ summary later, engine.translateBatch batch moment = .ok (summary, later) ∧
      StopsCleanly batch summary ∧ (limit = 1 → ∃ failing, StopsAt summary failing) := by
  refine ⟨?_, ?_, ?_, ?_⟩
  · refine (Crew.inevitably_over (Crew.admits_first_has_room (limit_pos accepted)) _).mono ?_
    intro crew ⟨isOver, reached⟩
    exact ⟨isOver, stops_cleanly isOver reached⟩
  · intro crew begun stopped index unbegun later reached
    exact is_passed_over begun stopped unbegun reached
  · rintro rfl
    refine (Crew.inevitably_over (Crew.admits_first_is_next Nat.one_pos) _).mono ?_
    intro crew ⟨isOver, reached⟩
    exact ⟨isOver, stops_at stopsAtError isOver reached⟩
  · obtain ⟨last, reached, isOver, done⟩ := reaches_translate_batch moment accepted
    refine ⟨_, _, done, stops_cleanly isOver reached, ?_⟩
    rintro rfl
    exact stops_at stopsAtError isOver reached

def brokenBatch : BatchRequest where
  items := [⟨"first", "", .crowdstrike⟩, ⟨"second", "a=1", .crowdstrike⟩]
  target := .kql
  continueOnError := some false
  maxConcurrent := some 1

def brokenStart : Crew (EngineState Unit) Job :=
  Crew.start (plain.errands brokenBatch) ⟨0, plain.initialState ()⟩

theorem broken_batch_stopped :
    ∃ crew, ReflTransGen (Crew.Step (Crew.HasRoom 1) (plain.stops brokenBatch)) brokenStart crew ∧
      crew.stopped = true ∧ crew.HasNotBegun 1 := by
  have present : brokenStart.tasks[0]? = some ⟨0, _, .waiting⟩ := rfl
  refine ⟨_, Crew.reaches_first_turn present rfl rfl Nat.one_pos, ?_, ?_⟩
  · decide +kernel
  · exact ⟨_, Crew.at_keep_on_ne Nat.zero_ne_one _, .inl rfl⟩

theorem broken_batch_stops :
    plain.goesOn brokenBatch = false ∧
    Inevitably (Crew.Step (Crew.HasRoom 1) (plain.stops brokenBatch))
      (fun crew => crew.IsOver ∧ StopsCleanly brokenBatch (plain.summary brokenBatch crew))
      brokenStart ∧
    (∃ crew, crew.stopped = true ∧ plain.IsPassedOver brokenBatch 1 crew) ∧
    Inevitably (Crew.Step (Crew.IsNext 1) (plain.stops brokenBatch))
      (fun crew => crew.IsOver ∧ ∃ failing, StopsAt (plain.summary brokenBatch crew) failing)
      brokenStart := by
  obtain ⟨clean, passedOver, inOrder, _⟩ :=
    failing_batch_stops plain ⟨0, plain.initialState ()⟩ brokenBatch rfl 1 rfl
  obtain ⟨crew, reached, stopped, unbegun⟩ := broken_batch_stopped
  exact ⟨rfl, clean, ⟨crew, stopped, passedOver crew reached stopped 1 unbegun crew .refl⟩,
    inOrder rfl⟩

end Engine

end DetectionRules
