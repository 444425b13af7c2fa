import DetectionRules.Job.Basic
import DetectionRules.Proofs.Text
import DetectionRules.Proofs.Crew.Pool
import DetectionRules.Proofs.Engine.Transparency
import DetectionRules.Engine.Translation
import Mathlib.Algebra.BigOperators.Group.List.Lemmas
import Mathlib.Algebra.GroupWithZero.Nat

/-!
Batches in any order. The items of a batch are the errands of a crew, of which
the pool that works on them is one course of events. A batch that goes on after
errors comes to the same as its items one by one.
The summary counts every job once, by how it ended, and every failed job once
more under its error code.
-/

namespace DetectionRules.BatchSummary

theorem sum_count_codes (codes : List String) :
    ((countCodes codes).map (·.2)).sum = codes.length := by
  have sorted : (codes.eraseDups.mergeSort fun first second => decide (first ≤ second)).Perm
      codes.dedup := by
    refine (List.mergeSort_perm _ _).trans ?_
    rw [List.perm_ext_iff_of_nodup (Text.nodup_erase_dups codes) codes.nodup_dedup]
    intro code
    rw [List.mem_eraseDups, List.mem_dedup]
  rw [← List.sum_map_count_dedup_eq_length, countCodes, List.map_map]
  exact (sorted.map _).sum_nat

section Counts

variable {rounded : Rat → Rat} {results : List BatchResult}

theorem sum_errors :
    ((ofResults rounded results).errors.map (·.2)).sum = (ofResults rounded results).failed := by
  rw [ofResults, sum_count_codes, List.length_map]

theorem total_of_results : (ofResults rounded results).total = results.length := rfl

/-- Every job is completed, failed or cancelled. -/
theorem total_eq :
    (ofResults rounded results).total =
      (ofResults rounded results).processed + (ofResults rounded results).cancelled := by
  have parts : ∀ jobs : List Job, jobs.length =
      (jobs.filter (·.isSuccess)).length + (jobs.filter isFailed).length +
        (jobs.filter (·.status == .cancelled)).length := by
    intro jobs
    induction jobs with
    | nil => rfl
    | cons job rest induction =>
        cases status : job.status <;>
          simp [isFailed, Job.isSuccess, status, induction] <;> omega
  rw [total_of_results, ← List.length_map (·.job)]
  exact parts _

theorem cancelled_eq_zero (none : ∀ result ∈ results, result.job.status ≠ .cancelled) :
    (ofResults rounded results).cancelled = 0 := by
  rw [ofResults, List.length_eq_zero_iff, List.filter_eq_nil_iff]
  intro job member
  obtain ⟨result, known, rfl⟩ := List.mem_map.mp member
  simpa using none result known

end Counts

end DetectionRules.BatchSummary

namespace DetectionRules

open Relation (ReflTransGen)

namespace Engine

variable {Notes : Type}

/-- The items of a batch as errands. -/
def errands (engine : Engine Notes) (batch : BatchRequest) :
    List (Errand (EngineState Notes) Job) :=
  batch.items.map fun item =>
    ⟨engine.translate (itemRequest batch.target item),
      fun now => cancelled now (itemRequest batch.target item)⟩

def goesOn (engine : Engine Notes) (batch : BatchRequest) : Bool :=
  batch.continueOnError.getD engine.config.batch.continueOnError

/-- A job that stops its batch. -/
def stops (engine : Engine Notes) (batch : BatchRequest) (job : Job) : Bool :=
  !engine.goesOn batch && job.status == .failed

/-- What there is to say of a batch when all is over. -/
def summary (engine : Engine Notes) (batch : BatchRequest)
    (crew : Crew (EngineState Notes) Job) : BatchSummary :=
  .ofResults engine.rounded
    (batchResults crew.moment.now batch.target batch.items crew.results)

variable {engine : Engine Notes} {batch : BatchRequest}

theorem limit_pos {items limit : Nat} {maxConcurrent : Option UInt64}
    (accepted : engine.batchLimit items maxConcurrent = .ok limit) : 0 < limit := by
  rw [batchLimit] at accepted
  split at accepted
  · cases accepted
  · split at accepted
    · cases accepted
    · cases accepted
      exact Nat.lt_of_lt_of_le Nat.one_pos (le_max_left ..)

/-- A batch whose jobs are all there, be it because they were cancelled in the end. -/
theorem batch_results_filled (now : Nat) (jobs : List (Option Job)) :
    batchResults now batch.target batch.items
      (List.zipWith (fun errand job => some (job.getD (errand.givenUp now)))
        (engine.errands batch) jobs) =
      batchResults now batch.target batch.items jobs := by
  rw [errands]
  induction batch.items generalizing jobs with
  | nil => rfl
  | cons item rest induction =>
      cases jobs with
      | nil => rfl
      | cons job jobs =>
          simp only [batchResults, List.map_cons, List.zipWith_cons_cons, Option.getD_some]
            at induction ⊢
          rw [induction]

/-- What the engine does with a batch is one of the things that may happen to it. -/
theorem reaches_translate_batch {limit : Nat} (moment : Activity.Moment (EngineState Notes))
    (accepted : engine.batchLimit batch.items.length batch.maxConcurrent = .ok limit) :
    ∃ last, ReflTransGen (Crew.Step (Crew.IsNext limit) (engine.stops batch))
        (Crew.start (engine.errands batch) moment) last ∧ last.IsOver ∧
      engine.translateBatch batch moment = .ok (engine.summary batch last, last.moment) := by
  obtain ⟨last, reached, isOver, same, results⟩ :=
    @Crew.reaches_run _ _ (engine.stops batch) limit (limit_pos accepted) (engine.errands batch)
      moment
  refine ⟨last, reached, isOver, ?_⟩
  have activities : (engine.errands batch).map (·.activity) =
      batch.items.map fun item => engine.translate (itemRequest batch.target item) := List.map_map
  rw [activities] at same results
  rw [summary, results, batch_results_filled, same, translateBatch, accepted]
  rfl

section End

variable {admits : Crew (EngineState Notes) Job → Nat → Prop}
  {moment : Activity.Moment (EngineState Notes)} {crew : Crew (EngineState Notes) Job}

theorem at_errands {index : Nat} {errand : Errand (EngineState Notes) Job}
    (found : (engine.errands batch)[index]? = some errand) :
    ∃ item, batch.items[index]? = some item ∧
      errand = ⟨engine.translate (itemRequest batch.target item),
        fun now => cancelled now (itemRequest batch.target item)⟩ := by
  rw [errands, List.getElem?_map] at found
  obtain ⟨item, present, same⟩ := Option.map_eq_some_iff.mp found
  exact ⟨item, present, same.symm⟩

theorem length_results (isOver : crew.IsOver)
    (reached : ReflTransGen (Crew.Step admits (engine.stops batch))
      (Crew.start (engine.errands batch) moment) crew) :
    (engine.summary batch crew).results.length = batch.items.length := by
  obtain ⟨jobs, results, length, _⟩ := ((Crew.IsFor.start moment).run reached).outcomes isOver
  rw [errands, List.length_map] at length
  change (batchResults _ _ _ _).length = _
  rw [batchResults, results, List.length_zipWith, List.length_map, length, min_self]

theorem result_at (isOver : crew.IsOver)
    (reached : ReflTransGen (Crew.Step admits (engine.stops batch))
      (Crew.start (engine.errands batch) moment) crew) {index : Nat} {result : BatchResult}
    (found : (engine.summary batch crew).results[index]? = some result) :
    ∃ item, batch.items[index]? = some item ∧ result.id = item.id ∧
      ∃ task ∈ crew.tasks, crew.tasks[index]? = some task ∧ task.place = index ∧
        task.phase = .collected result.job ∧
        task.errand = ⟨engine.translate (itemRequest batch.target item),
          fun now => cancelled now (itemRequest batch.target item)⟩ := by
  obtain ⟨jobs, results, _, all⟩ := ((Crew.IsFor.start moment).run reached).outcomes isOver
  change (batchResults _ _ _ _)[index]? = _ at found
  rw [batchResults, results, List.getElem?_zipWith, List.getElem?_map] at found
  cases there : batch.items[index]? with
  | none => simp [there] at found
  | some item =>
      cases known : jobs[index]? with
      | none => simp [there, known] at found
      | some job =>
          simp only [there, known, Option.map_some, Option.some.injEq, Option.getD_some] at found
          subst found
          obtain ⟨task, member, present, place, owner, phase⟩ := all index job known
          obtain ⟨other, same, errand⟩ := at_errands owner
          obtain rfl := Option.some.inj (there.symm.trans same)
          exact ⟨item, rfl, rfl, task, member, present, place, phase, errand⟩

/-- What a task came to stands in the summary, at the place of its item. -/
theorem result_of_task (isOver : crew.IsOver)
    (reached : ReflTransGen (Crew.Step admits (engine.stops batch))
      (Crew.start (engine.errands batch) moment) crew) {index : Nat}
    {task : CrewTask (EngineState Notes) Job} {job : Job} (present : crew.tasks[index]? = some task)
    (has : task.phase.result? = some job) :
    ∃ result, (engine.summary batch crew).results[index]? = some result ∧ result.job = job := by
  have is := (Crew.IsFor.start moment).run reached
  have inside : index < (engine.summary batch crew).results.length := by
    obtain ⟨item, there, _⟩ := at_errands (is.at_index present).1
    rw [length_results isOver reached]
    exact (List.getElem?_eq_some_iff.mp there).1
  have found := List.getElem?_eq_getElem inside
  obtain ⟨_, _, _, other, _, there, _, phase, _⟩ := result_at isOver reached found
  obtain rfl := Option.some.inj (present.symm.trans there)
  rw [phase] at has
  exact ⟨_, found, Option.some.inj has⟩

end End

/-- The result is what its item comes to by itself, at any time. -/
def IsResultOf (engine : Engine Notes) (requests : Set TranslationRequest) (target : Format)
    (item : BatchItem) (result : BatchResult) : Prop :=
  result.id = item.id ∧ result.job.content = item.content ∧ result.job.status ≠ .cancelled ∧
    ∀ running moment, engine.InUse requests running moment.world →
      result.job.timeless =
        ((engine.translate (itemRequest target item)).run moment).1.timeless

/-- Every item has its result, and every result is counted. -/
structure IsItemwise (engine : Engine Notes) (requests : Set TranslationRequest)
    (batch : BatchRequest) (summary : BatchSummary) : Prop where
  results : List.Forall₂ (engine.IsResultOf requests batch.target) batch.items summary.results
  total : summary.total = batch.items.length
  processed : summary.processed = batch.items.length
  parts : summary.processed = summary.successful + summary.failed
  errors : (summary.errors.map (·.2)).sum = summary.failed

section Itemwise

variable {requests : Set TranslationRequest} {moment : Activity.Moment (EngineState Notes)}
  {running : List (TranslationRequest × Work Notes Job)}

/-- What is right for each place of a batch. -/
def IsRightAt (engine : Engine Notes) (batch : BatchRequest) (place : Nat) (job : Job) : Prop :=
  ∀ item, batch.items[place]? = some item →
    engine.ComesTo (itemRequest batch.target item) job

theorem sound_start (free : engine.CollisionFree requests) (alone : engine.advisor = none)
    (used : engine.InUse requests running moment.world)
    (asked : ∀ item ∈ batch.items, itemRequest batch.target item ∈ requests) :
    Crew.IsSound (engine.Recalls requests) (engine.IsRightAt batch) (engine.stops batch)
      (Crew.start (engine.errands batch) moment) := by
  refine .start (recalls_of_in_use free alone used) fun place errand found => ?_
  obtain ⟨item, present, rfl⟩ := at_errands found
  have byItself := guarantees_translate_alone free alone (asked item (List.mem_of_getElem? present))
  refine Activity.guarantees_mono byItself fun job comes other there => ?_
  obtain rfl := Option.some.inj (present.symm.trans there)
  exact comes

theorem not_stopped (continues : engine.goesOn batch = true) {invariant : EngineState Notes → Prop}
    {good : Nat → Job → Prop} {crew : Crew (EngineState Notes) Job}
    (sound : crew.IsSound invariant good (engine.stops batch)) : crew.stopped ≠ true := by
  intro stopped
  obtain ⟨_, _, _, _, _, stops⟩ := sound.cause stopped
  rw [Engine.stops, continues] at stops
  cases stops

theorem itemwise_of_is_over (free : engine.CollisionFree requests) (alone : engine.advisor = none)
    (used : engine.InUse requests running moment.world)
    (asked : ∀ item ∈ batch.items, itemRequest batch.target item ∈ requests)
    (continues : engine.goesOn batch = true) {admits : Crew (EngineState Notes) Job → Nat → Prop}
    {crew : Crew (EngineState Notes) Job} (isOver : crew.IsOver)
    (reached : ReflTransGen (Crew.Step admits (engine.stops batch))
      (Crew.start (engine.errands batch) moment) crew) :
    engine.IsItemwise requests batch (engine.summary batch crew) := by
  have sound := (sound_start free alone used asked).run reached
  have results : List.Forall₂ (engine.IsResultOf requests batch.target) batch.items
      (engine.summary batch crew).results := by
    refine forall₂_of_at (length_results isOver reached).symm ?_
    intro index item result there found
    obtain ⟨other, same, id, task, member, _, place, phase, _⟩ := result_at isOver reached found
    obtain rfl := Option.some.inj (there.symm.trans same)
    have ends := sound.tasks task member
    rw [phase] at ends
    have right := ends.resolve_right fun given => not_stopped continues sound given.1
    have comes := right item (place ▸ there)
    refine ⟨id, comes.content, comes.not_cancelled, fun running moment used => ?_⟩
    have byItself := guarantees_translate_alone free alone (asked item (List.mem_of_getElem? there))
    exact comes.unique (Activity.of_guarantees byItself (recalls_of_in_use free alone used)).1
  have total : (engine.summary batch crew).total = batch.items.length := results.length_eq.symm
  have none : (engine.summary batch crew).cancelled = 0 := by
    refine BatchSummary.cancelled_eq_zero fun result member => ?_
    obtain ⟨index, present⟩ := List.mem_iff_getElem?.mp member
    obtain ⟨item, _, found⟩ := forall₂_at results present
    exact found.2.2.1
  have processed : (engine.summary batch crew).processed = batch.items.length := by
    have counted : (engine.summary batch crew).total =
        (engine.summary batch crew).processed + (engine.summary batch crew).cancelled :=
      BatchSummary.total_eq
    omega
  exact ⟨results, total, processed, rfl, BatchSummary.sum_errors⟩

end Itemwise

/-- A batch that goes on after errors is done item by item, in whatever order its items are worked
on: nothing is lost, cancelled or counted twice. -/
theorem continuing_batch_itemwise (engine : Engine Notes) (alone : engine.advisor = none)
    (requests : Set TranslationRequest) (free : engine.CollisionFree requests)
    (running : List (TranslationRequest × Work Notes Job))
    (moment : Activity.Moment (EngineState Notes))
    (used : engine.InUse requests running moment.world) (batch : BatchRequest)
    (asked : ∀ item ∈ batch.items, itemRequest batch.target item ∈ requests)
    (continues : engine.goesOn batch = true) (limit : Nat)
    (accepted : engine.batchLimit batch.items.length batch.maxConcurrent = .ok limit) :
    Inevitably (Crew.Step (Crew.HasRoom limit) (engine.stops batch))
      (fun crew => crew.IsOver ∧ engine.IsItemwise requests batch (engine.summary batch crew))
      (Crew.start (engine.errands batch) moment) ∧
    ∃ summary later, engine.translateBatch batch moment = .ok (summary, later) ∧
      engine.IsItemwise requests batch summary := by
  constructor
  · refine (Crew.inevitably_over (Crew.admits_first_has_room (limit_pos accepted)) _).mono ?_
    intro crew ⟨isOver, reached⟩
    exact ⟨isOver, itemwise_of_is_over free alone used asked continues isOver reached⟩
  · obtain ⟨last, reached, isOver, done⟩ := reaches_translate_batch moment accepted
    exact ⟨_, _, done, itemwise_of_is_over free alone used asked continues isOver reached⟩

def mixedBatch : BatchRequest where
  items := [⟨"first", "a=1", .crowdstrike⟩, ⟨"second", "", .crowdstrike⟩,
    ⟨"third", "a=1", .crowdstrike⟩]
  target := .kql
  continueOnError := some true
  maxConcurrent := some 2

def mixedRequests : Set TranslationRequest :=
  {⟨.crowdstrike, .kql, "a=1", true⟩, ⟨.crowdstrike, .kql, "", true⟩}

theorem mixed_batch_itemwise :
    plain.CollisionFree mixedRequests ∧
    Inevitably (Crew.Step (Crew.HasRoom 2) (plain.stops mixedBatch))
      (fun crew => crew.IsOver ∧
        plain.IsItemwise mixedRequests mixedBatch (plain.summary mixedBatch crew))
      (Crew.start (plain.errands mixedBatch) ⟨0, plain.initialState ()⟩) ∧
    ∃ summary later,
      plain.translateBatch mixedBatch ⟨0, plain.initialState ()⟩ = .ok (summary, later) ∧
        plain.IsItemwise mixedRequests mixedBatch summary := by
  have different : plain.digest (TranslationRequest.keyText ⟨.crowdstrike, .kql, "a=1", true⟩) ≠
      plain.digest (TranslationRequest.keyText ⟨.crowdstrike, .kql, "", true⟩) := by
    decide +kernel
  have free : plain.CollisionFree mixedRequests := .pair different
  have asked : ∀ item ∈ mixedBatch.items, itemRequest mixedBatch.target item ∈ mixedRequests := by
    simp [mixedBatch, mixedRequests, itemRequest]
  exact ⟨free, continuing_batch_itemwise plain rfl mixedRequests free []
    ⟨0, plain.initialState ()⟩ (.fresh ()) mixedBatch asked rfl 2 rfl⟩

end Engine

end DetectionRules
