import DetectionRules.Engine.Translation
import DetectionRules.Proofs.Engine.Use

/-!
The verdict of a validation is an error if and only if a text cannot be read:
for two given texts, and for the text of every translation that was validated,
whatever the advisor said and whether or not the cache served it.
-/

namespace DetectionRules.Engine

variable {Notes : Type} {engine : Engine Notes} {requests : Set TranslationRequest}
  {request : TranslationRequest}

/-- A validation that was asked for is there, and its verdict is right. -/
def IsJudged (request : TranslationRequest) (value : CachedTranslation) : Prop :=
  request.validates = true → ∃ result, value.validation = some result ∧
    (result.verdict = .error ↔ request.target.Rejects value.text)

theorem is_judged_assess {translated : Translated}
    (minor : ∀ issue ∈ translated.issues, issue.IsMinor) :
    IsJudged request (engine.assess request translated) := by
  intro validates
  rw [assess, if_pos validates]
  refine ⟨engine.validation request translated, rfl, ?_⟩
  rw [validation, ValidationInput.verdict_eq_error_iff _ _ minor]
  simp

/-- An outcome whose validation is right, or an error that is not the job's cancellation. -/
def IsJudgedOutcome (request : TranslationRequest) : Except JobError CachedTranslation → Prop
  | .ok value => IsJudged request value
  | .error error => error ≠ .cancelled

theorem guarantees_translate_judged (free : engine.CollisionFree requests)
    (asked : request ∈ requests) :
    (engine.translate request).Guarantees (engine.Remembers requests IsJudged) fun job =>
      ∃ outcome, IsJudgedOutcome request outcome ∧ job.timeless = settled request outcome := by
  have attempts : (engine.timedAttempt request).Guarantees
      (engine.Remembers requests IsJudged) fun outcome =>
        IsJudgedOutcome request (outcome.map (engine.assess request)) := by
    refine Activity.guarantees_mono (guarantees_timed_attempt remembers_notes)
      fun outcome attempted => ?_
    cases outcome with
    | error error => exact attempted
    | ok translated => exact is_judged_assess attempted
  exact guarantees_translate (guarantees_look_up free asked) attempts fun _ judged =>
    guarantees_keep asked judged

/-- A translation that is completed comes to what is judged rightly, whether it was served from the
cache or not. -/
theorem judged_of_in_use (free : engine.CollisionFree requests)
    {running : List (TranslationRequest × Work Notes Job)} {state : EngineState Notes}
    (used : engine.InUse requests running state) {job : Job}
    (ended : (request, .done job) ∈ running) (completes : job.status = .completed) :
    ∃ value, IsJudged request value ∧ job.timeless = settled request (.ok value) := by
  obtain ⟨_, all⟩ := guarantees_of_in_use remembers_initial
    (fun state remembers => remembers_of_subset remembers (List.nil_subset _))
    (fun request asked => guarantees_translate_judged free asked) used
  obtain ⟨outcome, judged, same⟩ := all _ ended
  have status : job.timeless.status = (settled request outcome).status := congrArg Job.status same
  rw [show job.timeless.status = job.status from rfl, completes] at status
  cases outcome with
  | error error =>
      rw [status_settled_error request judged] at status
      cases status
  | ok value => exact ⟨value, judged, same⟩

/-- A validation of two texts ends with an error if and only if one of them cannot be read, and
that of a completed translation if and only if its text cannot be read. Nothing severe is found in
a rule that was read. -/
theorem error_verdict_iff_rejected (engine : Engine Notes) :
    (∀ request : ValidationRequest, (engine.validate request).verdict = .error ↔
      request.source.format.Rejects request.source.content ∨
        request.target.format.Rejects request.target.content) ∧
    (∀ requests, engine.CollisionFree requests →
      ∀ running state, engine.InUse requests running state →
      ∀ request job, (request, .done job) ∈ running → request.validates = true →
        job.status = .completed →
        ∃ text result, job.translation = some text ∧ job.validation = some result ∧
          (result.verdict = .error ↔ request.target.Rejects text)) ∧
    (∀ evidence : Evidence, ∀ text rule, evidence.target.read text = .ok rule →
      evidence.targetRule = some rule → Issue.anyHigh evidence.comparing = false) := by
  refine ⟨fun request => ?_, ?_, ?_⟩
  · have minor : ∀ issue ∈ ([] : List Issue), issue.IsMinor := fun _ member => nomatch member
    rw [validate, ValidationInput.verdict_eq_error_iff _ _ minor]
    simp
  · intro requests free running state used request job ended validates completes
    obtain ⟨value, judged, same⟩ := judged_of_in_use free used ended completes
    obtain ⟨result, found, verdict⟩ := judged validates
    have translation : job.translation = some value.text := by
      have known : job.timeless.translation = _ := congrArg Job.translation same
      simpa [settled, completed, validates, Job.timeless, Job.advance, Job.ofRequest,
        JobStatus.canBecome] using known
    have validation : job.validation = value.validation := by
      have known : job.timeless.validation = _ := congrArg Job.validation same
      simpa [settled, completed, validates, Job.timeless, Job.advance, Job.ofRequest,
        JobStatus.canBecome] using known
    exact ⟨value.text, result, translation, validation.trans found, verdict⟩
  · intro evidence text rule accepted read
    exact Evidence.minor_of_comparing read (Format.accepts_of_read accepted)

/-- A negated group, which is translated to what cannot be read. -/
def negatedGroup : TranslationRequest where
  source := .crowdstrike
  target := .crowdstrike
  content := "!(a=1 or b=2)"

def negatedOutcome : Job × Activity.Moment (EngineState Unit) :=
  (plain.translate negatedGroup).run ⟨0, plain.initialState ()⟩

theorem negated_group_verdict :
    plain.CollisionFree {negatedGroup} ∧
    plain.InUse {negatedGroup} [(negatedGroup, .done negatedOutcome.1)] negatedOutcome.2.world ∧
    negatedOutcome.1.status = .completed ∧
    (∃ text result, negatedOutcome.1.translation = some text ∧
      negatedOutcome.1.validation = some result ∧
      (result.verdict = .error ↔ Format.crowdstrike.Rejects text)) ∧
    ∃ rule, Format.kql.read "T | where a == 1" = .ok rule ∧
      Issue.anyHigh (Evidence.comparing
        ⟨.splunk, .kql, none, "", none, some rule, none, []⟩) = false := by
  have free : plain.CollisionFree {negatedGroup} := by
    rintro _ rfl _ rfl _
    rfl
  have accepted : plain.InUse {negatedGroup} [(negatedGroup, plain.translate negatedGroup)]
      (plain.initialState ()) := .accept (.fresh ()) (Set.mem_singleton negatedGroup)
  have used : plain.InUse {negatedGroup} [(negatedGroup, .done negatedOutcome.1)]
      negatedOutcome.2.world := accepted.run 0
  have completes : negatedOutcome.1.status = .completed := by decide +kernel
  obtain ⟨_, translated, compared⟩ := error_verdict_iff_rejected plain
  obtain ⟨rule, readable⟩ := Success.of_is_ok
    (show (Format.kql.read "T | where a == 1").isOk = true by decide +kernel)
  exact ⟨free, used, completes,
    translated _ free _ _ used negatedGroup negatedOutcome.1 List.mem_cons_self rfl completes,
    rule, readable, compared _ _ rule readable rfl⟩

end DetectionRules.Engine
