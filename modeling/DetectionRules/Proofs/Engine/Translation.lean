import DetectionRules.Engine.Translation
import DetectionRules.Proofs.Activity
import DetectionRules.Proofs.Adaptation.Remainder
import DetectionRules.Proofs.Validation

/-!
What a translation comes to, whatever others do to the cache meanwhile. A job
that is worked on ends either with what there is to keep of a translation or
with an error; when it ended and how often it was tried is told apart. An
attempt fails for a reason of its own and never because the job was cancelled,
and the issues of a rule that could be adapted are minor ones.
-/

namespace DetectionRules

open Activity (guarantees_pure guarantees_bind guarantees_next guarantees_within guarantees_focus
  guarantees_owning keeps_pure keeps_bind keeps_shared keeps_rewrite)

theorem Resolution.minor_of_issue {resolution : Resolution} {field : String} {target : Format}
    {issue : Issue} (found : resolution.issue? field target = some issue) : issue.IsMinor := by
  cases resolution with
  | translated native => cases found
  | inferred suggestion =>
      cases found
      exact ⟨nofun, by simp, by simp⟩
  | dropped reason =>
      cases found
      exact ⟨nofun, by simp, by simp⟩

namespace Adaptation

variable {rule : Rule} {target : Format} {fields : List FieldPair} {issues : List Issue}
  {issue : Issue}

theorem minor_of_test {test : FieldTest} (found : testIssue? target fields test = some issue) :
    issue.IsMinor := by
  rw [testIssue?] at found
  split at found
  · cases found
    exact ⟨nofun, by simp, by simp⟩
  · cases found

theorem minor_of_part {source : LogSource} {part : LogSourcePart}
    (found : partIssue? target source part = some issue) : issue.IsMinor := by
  rw [partIssue?] at found
  split at found
  · cases found
  · obtain ⟨value, _, rfl⟩ := Option.map_eq_some_iff.mp found
    exact ⟨nofun, by simp, by simp⟩

theorem minor_of_selection {source : Selection}
    (member : issue ∈ selectionIssues target fields source) : issue.IsMinor := by
  rcases List.mem_append.mp member with member | member
  · obtain ⟨test, _, found⟩ := List.mem_filterMap.mp member
    exact minor_of_test found
  · split at member
    · obtain rfl := List.mem_singleton.mp member
      exact ⟨nofun, by simp [emptiedIssue], by simp [emptiedIssue]⟩
    · cases member

/-- As long as something is left of the rule, what is lost of it is no severe issue. -/
theorem minor_of_fields (minor : ∀ known ∈ issues, known.IsMinor)
    (left : (ofFields rule target fields issues).rule ≠ none) :
    ∀ issue ∈ (ofFields rule target fields issues).issues, issue.IsMinor := by
  rw [of_fields_eq] at left ⊢
  cases condition : conditionLeft? rule target fields with
  | none => simp [condition] at left
  | some condition =>
      intro issue member
      rcases List.mem_append.mp member with member | member
      · rcases List.mem_append.mp member with member | member
        · exact minor issue member
        · obtain ⟨source, _, member⟩ := List.mem_flatMap.mp member
          exact minor_of_selection member
      · obtain ⟨part, _, found⟩ := List.mem_filterMap.mp member
        exact minor_of_part found

theorem minor_of_resolutions {entries : List (String × Resolution)}
    (left : (ofResolutions rule target entries).rule ≠ none) :
    ∀ issue ∈ (ofResolutions rule target entries).issues, issue.IsMinor := by
  refine minor_of_fields ?_ left
  intro issue member
  obtain ⟨entry, _, found⟩ := List.mem_filterMap.mp member
  exact Resolution.minor_of_issue found

end Adaptation

namespace FieldResolver

variable {World : Type} {invariant : World → Prop}

/-- The advisor, if there is one, keeps the invariant whatever it is asked. -/
def Respects (resolver : FieldResolver World) (invariant : World → Prop) : Prop :=
  ∀ advisor ∈ resolver.advisor, ∀ question,
    (advisor question).Guarantees invariant fun _ => True

variable {resolver : FieldResolver World}

theorem guarantees_resolve (respects : resolver.Respects invariant) (rule : Rule) (target : Format)
    (field : String) :
    (resolver.resolve rule target field).Guarantees invariant fun _ => True := by
  rw [resolve]
  cases Catalog.translate? rule.dialect target field with
  | some native => exact guarantees_pure trivial
  | none =>
      cases has : resolver.advisor with
      | none => exact guarantees_pure trivial
      | some advisor =>
          refine guarantees_next (@RetryPolicy.guarantees_run _ _ _ invariant (fun _ => True) _ _
            fun number => ?_) fun _ => guarantees_pure trivial
          exact guarantees_next (guarantees_within (respects advisor has _) _) fun _ => trivial

theorem guarantees_resolve_all (respects : resolver.Respects invariant) (rule : Rule)
    (target : Format) (fields : List String) :
    (resolver.resolveAll rule target fields).Guarantees invariant fun _ => True := by
  induction fields with
  | nil => exact guarantees_pure trivial
  | cons field rest induction =>
      refine guarantees_next (guarantees_resolve respects rule target field) fun _ => ?_
      exact guarantees_next induction fun _ => guarantees_pure trivial

theorem guarantees_adapt (respects : resolver.Respects invariant) (rule : Rule) (target : Format) :
    (resolver.adapt rule target).Guarantees invariant fun adaptation =>
      adaptation.rule ≠ none → ∀ issue ∈ adaptation.issues, issue.IsMinor := by
  refine guarantees_next (guarantees_resolve_all respects rule target _) fun entries => ?_
  exact guarantees_pure Adaptation.minor_of_resolutions

end FieldResolver

/-- The job apart from when it ended and how often it was tried. -/
def Job.timeless (job : Job) : Job := { job with attempts := 0, completedAt := none }

namespace Engine

variable {Notes : Type}

/-- The job of a request that comes to an outcome. -/
def settled (request : TranslationRequest) : Except JobError CachedTranslation → Job
  | .ok value =>
      (completed 0 request value ((Job.ofRequest request).advance 0 .processing)).timeless
  | .error error => (((Job.ofRequest request).advance 0 .processing).fail 0 error).timeless

theorem timeless_completed (request : TranslationRequest) (value : CachedTranslation)
    (start now attempts : Nat) :
    (completed now request value
      { (Job.ofRequest request).advance start .processing with attempts }).timeless =
      settled request (.ok value) := by
  cases validates : request.validates <;>
    simp [settled, completed, validates, Job.timeless, Job.advance, Job.ofRequest,
      JobStatus.canBecome, JobStatus.isTerminal]

theorem timeless_failed (request : TranslationRequest) (error : JobError)
    (start now attempts : Nat) :
    (({ (Job.ofRequest request).advance start .processing with attempts } : Job).fail
      now error).timeless = settled request (.error error) := by
  by_cases cancelled : error = .cancelled <;>
    simp [settled, cancelled, Job.timeless, Job.fail, Job.advance, Job.ofRequest,
      JobStatus.canBecome, JobStatus.isTerminal]

theorem status_settled_ok (request : TranslationRequest) (value : CachedTranslation) :
    (settled request (.ok value)).status = .completed := by
  cases validates : request.validates <;>
    simp [settled, completed, validates, Job.timeless, Job.advance, Job.ofRequest,
      JobStatus.canBecome]

theorem status_settled_error (request : TranslationRequest) {error : JobError}
    (ownReason : error ≠ .cancelled) : (settled request (.error error)).status = .failed := by
  simp [settled, ownReason, Job.timeless, Job.fail, Job.advance, Job.ofRequest,
    JobStatus.canBecome]

theorem ended_of_settled {request : TranslationRequest}
    {outcome : Except JobError CachedTranslation} {job : Job}
    (ownReason : ∀ error, outcome = .error error → error ≠ .cancelled)
    (same : job.timeless = settled request outcome) :
    job.status = .completed ∨ job.status = .failed := by
  have status : job.timeless.status = _ := congrArg Job.status same
  cases outcome with
  | ok value => exact .inl (status.trans (status_settled_ok request value))
  | error error => exact .inr (status.trans (status_settled_error request (ownReason error rfl)))

theorem content_settled (request : TranslationRequest)
    (outcome : Except JobError CachedTranslation) :
    (settled request outcome).content = request.content := by
  cases outcome with
  | ok value =>
      cases validates : request.validates <;>
        simp [settled, completed, validates, Job.timeless, Job.advance, Job.ofRequest,
          JobStatus.canBecome]
  | error error =>
      by_cases cancelled : error = .cancelled <;>
        simp [settled, cancelled, Job.timeless, Job.fail, Job.advance, Job.ofRequest,
          JobStatus.canBecome]

/-- What an attempt may come to: an error that is not the job's cancellation, or a translation
without severe issues. -/
def Attempted : Except JobError Translated → Prop
  | .error error => error ≠ .cancelled
  | .ok translated => ∀ issue ∈ translated.issues, issue.IsMinor

variable {engine : Engine Notes} {request : TranslationRequest}
  {invariant : EngineState Notes → Prop}

theorem respects_resolver (free : ∀ state notes, invariant state → invariant { state with notes }) :
    engine.resolver.Respects invariant := by
  intro advisor has question
  obtain ⟨given, _, rfl⟩ := Option.map_eq_some_iff.mp has
  exact guarantees_focus (fun part state holds => free state part holds) _

theorem guarantees_attempt
    (free : ∀ state notes, invariant state → invariant { state with notes }) :
    (engine.attempt request).Guarantees invariant Attempted := by
  rw [attempt]
  cases request.source.read request.content with
  | error error => exact guarantees_pure nofun
  | ok source =>
      have respects : engine.resolver.Respects invariant := respects_resolver free
      have adapted := FieldResolver.guarantees_adapt respects source request.target
      refine guarantees_bind adapted fun adaptation minor => ?_
      cases left : adaptation.rule with
      | none => exact guarantees_pure nofun
      | some rule =>
          simp only
          cases request.target.write rule with
          | error error => exact guarantees_pure nofun
          | ok text => exact guarantees_pure (minor (by simp [left]))

theorem guarantees_timed_attempt
    (free : ∀ state notes, invariant state → invariant { state with notes }) :
    (engine.timedAttempt request).Guarantees invariant Attempted := by
  refine guarantees_bind (guarantees_within (guarantees_attempt free) _) fun outcome attempted => ?_
  cases outcome with
  | none => exact guarantees_pure nofun
  | some outcome => exact guarantees_pure (attempted outcome rfl)

def begun (request : TranslationRequest) : Job := (Job.ofRequest request).advance 0 .processing

/-- The job is as it was at the beginning, or when the work on it began, or it is a job that may be
handed out. Nothing is written down in between. -/
def IsDraft (request : TranslationRequest) (ended : Job → Prop) (job : Job) : Prop :=
  job = Job.ofRequest request ∨ job = begun request ∨ ended job

/-- What translations come to, if attempts and the cache come to what has a property. -/
theorem keeps_process {property : Except JobError CachedTranslation → Prop} {ended : Job → Prop}
    (found : (engine.lookUp request).Guarantees invariant fun found =>
      ∀ value ∈ found, property (.ok value))
    (attempts : (engine.timedAttempt request).Guarantees invariant fun outcome =>
      property (outcome.map (engine.assess request)))
    (kept : ∀ value, property (.ok value) →
      (engine.keep request value).Guarantees invariant fun _ => True)
    (completes : ∀ now value, property (.ok value) →
      ∀ attempts ≤ max 1 engine.config.retry.maxAttempts.toNat,
        ended (completed now request value { begun request with attempts }))
    (fails : ∀ now error, property (.error error) →
      ∀ attempts ≤ max 1 engine.config.retry.maxAttempts.toNat,
        ended ({ begun request with attempts }.fail now error)) :
    (engine.process request).Keeps invariant (IsDraft request ended) (fun _ => ended)
      (Job.ofRequest request) := by
  have atStart : IsDraft request ended (Job.ofRequest request) := .inl rfl
  have atWork : IsDraft request ended (begun request) := .inr (.inl rfl)
  have begins : (Activity.rewrite fun now job => job.advance now .processing).Keeps invariant
      (IsDraft request ended) (fun _ job => job = begun request) (Job.ofRequest request) :=
    keeps_rewrite atStart fun _ => ⟨atWork, rfl⟩
  have isLast {job : Job} (done : ended job) : IsDraft request ended job ∧ ended job :=
    ⟨.inr (.inr done), done⟩
  refine keeps_bind begins fun _ job _ start => ?_
  subst start
  refine keeps_bind (keeps_shared found atWork) fun earlier job _ same => ?_
  obtain ⟨fits, rfl⟩ := same
  cases earlier with
  | some value =>
      exact keeps_rewrite atWork fun now =>
        isLast (completes now value (fits value rfl) 0 (Nat.zero_le _))
  | none =>
      have each := RetryPolicy.guarantees_run engine.config.retry.jobPolicy fun _ => attempts
      refine keeps_bind (keeps_shared each atWork) fun outcome job _ same => ?_
      obtain ⟨outcome, attempts⟩ := outcome
      obtain ⟨⟨holds, bounded⟩, rfl⟩ := same
      cases outcome with
      | error error =>
          exact keeps_rewrite atWork fun now => isLast (fails now error holds attempts bounded)
      | ok translated =>
          have written : (Activity.rewrite fun now job =>
              completed now request (engine.assess request translated) { job with attempts }).Keeps
              invariant (IsDraft request ended) (fun _ => ended) (begun request) :=
            keeps_rewrite atWork fun now => isLast (completes now _ holds attempts bounded)
          refine keeps_bind written fun _ job isDraft done => ?_
          refine keeps_bind (keeps_shared (kept _ holds) isDraft) fun _ left _ same => ?_
          obtain ⟨_, rfl⟩ := same
          exact keeps_pure isDraft done

theorem guarantees_translate {property : Except JobError CachedTranslation → Prop}
    (found : (engine.lookUp request).Guarantees invariant fun found =>
      ∀ value ∈ found, property (.ok value))
    (attempts : (engine.timedAttempt request).Guarantees invariant fun outcome =>
      property (outcome.map (engine.assess request)))
    (kept : ∀ value, property (.ok value) →
      (engine.keep request value).Guarantees invariant fun _ => True) :
    (engine.translate request).Guarantees invariant fun job =>
      ∃ outcome, property outcome ∧ job.timeless = settled request outcome := by
  have keeps : (engine.process request).Keeps invariant (IsDraft request _)
      (fun _ job => ∃ outcome, property outcome ∧ job.timeless = settled request outcome)
      (Job.ofRequest request) :=
    keeps_process found attempts kept
      (fun now value holds attempts _ =>
        ⟨.ok value, holds, timeless_completed request value 0 now attempts⟩)
      fun now error holds attempts _ =>
        ⟨.error error, holds, timeless_failed request error 0 now attempts⟩
  exact guarantees_bind (guarantees_owning keeps) fun _ holds => guarantees_pure holds.2

end Engine

end DetectionRules
