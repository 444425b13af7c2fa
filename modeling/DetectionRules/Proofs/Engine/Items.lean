import DetectionRules.Proofs.Engine.FailFast
import DetectionRules.Proofs.Success

/-!
The results of a batch and the items they are for. Whatever stops the batch,
every item has a result of its own in its place, with a job for its rule.
-/

namespace DetectionRules

open Relation (ReflTransGen)

namespace Engine

variable {Notes : Type} {engine : Engine Notes} {batch : BatchRequest}

/-- The job of a request, at its end. -/
structure IsJobOf (request : TranslationRequest) (job : Job) : Prop where
  source : job.source = some request.source
  target : job.target = request.target
  content : job.content = request.content
  ended : job.status.isTerminal = true

theorem is_job_of_timeless {request : TranslationRequest} {job : Job}
    (isJob : IsJobOf request job.timeless) : IsJobOf request job :=
  ⟨isJob.source, isJob.target, isJob.content, isJob.ended⟩

theorem is_job_settled (request : TranslationRequest)
    (outcome : Except JobError CachedTranslation) : IsJobOf request (settled request outcome) := by
  cases outcome with
  | ok value =>
      cases validates : request.validates <;> constructor <;>
        simp [settled, completed, validates, Job.timeless, Job.advance, Job.ofRequest,
          JobStatus.canBecome, JobStatus.isTerminal]
  | error error =>
      by_cases cancelled : error = .cancelled <;> constructor <;>
        simp [settled, cancelled, Job.timeless, Job.fail, Job.advance, Job.ofRequest,
          JobStatus.canBecome, JobStatus.isTerminal]

theorem is_job_cancelled (now : Nat) (request : TranslationRequest) :
    IsJobOf request (cancelled now request) := ⟨rfl, rfl, rfl, rfl⟩

theorem guarantees_translate_job (request : TranslationRequest) :
    (engine.translate request).Guarantees (fun _ => True) (IsJobOf request) := by
  refine Activity.guarantees_mono (guarantees_translate_settled request) fun job holds => ?_
  obtain ⟨outcome, _, same⟩ := holds
  exact is_job_of_timeless (same ▸ is_job_settled request outcome)

/-- The result of an item: a job for its rule. -/
def IsItemResult (target : Format) (item : BatchItem) (result : BatchResult) : Prop :=
  result.id = item.id ∧ IsJobOf (itemRequest target item) result.job

/-- Whatever stops a batch, the items have their own results, in their order. -/
theorem item_results {admits : Crew (EngineState Notes) Job → Nat → Prop}
    {moment : Activity.Moment (EngineState Notes)} {crew : Crew (EngineState Notes) Job}
    (isOver : crew.IsOver)
    (reached : ReflTransGen (Crew.Step admits (engine.stops batch))
      (Crew.start (engine.errands batch) moment) crew) :
    List.Forall₂ (IsItemResult batch.target) batch.items (engine.summary batch crew).results := by
  have atStart : Crew.IsSound (fun _ => True)
      (fun place job => ∀ item, batch.items[place]? = some item →
        IsJobOf (itemRequest batch.target item) job)
      (engine.stops batch) (Crew.start (engine.errands batch) moment) := by
    refine .start trivial fun place errand found => ?_
    obtain ⟨item, present, rfl⟩ := at_errands found
    refine Activity.guarantees_mono (guarantees_translate_job _) fun job isJob other there => ?_
    obtain rfl := Option.some.inj (present.symm.trans there)
    exact isJob
  have sound := atStart.run reached
  refine forall₂_of_at (length_results isOver reached).symm ?_
  intro index item result there found
  obtain ⟨other, same, id, task, member, _, place, phase, errand⟩ :=
    result_at isOver reached found
  obtain rfl := Option.some.inj (there.symm.trans same)
  refine ⟨id, ?_⟩
  have ends := sound.tasks task member
  rw [phase] at ends
  rcases ends with own | ⟨_, now, substitute⟩
  · exact own item (place ▸ there)
  · rw [substitute, errand]
    exact is_job_cancelled now _

theorem of_translate_batch {moment later : Activity.Moment (EngineState Notes)}
    {summary : BatchSummary} (done : engine.translateBatch batch moment = .ok (summary, later)) :
    summary = .ofResults engine.rounded summary.results ∧
      List.Forall₂ (IsItemResult batch.target) batch.items summary.results := by
  obtain ⟨limit, accepted, _⟩ := Success.of_bind done
  obtain ⟨crew, reached, isOver, same⟩ := reaches_translate_batch moment accepted
  obtain ⟨rfl, _⟩ := Prod.mk.inj (Except.ok.inj (done.symm.trans same))
  exact ⟨rfl, item_results isOver reached⟩

end Engine

end DetectionRules
