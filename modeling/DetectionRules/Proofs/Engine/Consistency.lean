import DetectionRules.Proofs.Engine.Use

/-!
How jobs end. A job is written down as the work on it goes on, and the work may
be cancelled between any two of its steps. It is then handed out as it is, once
it has been failed. No step leaves a job half written: until it ends there is
nothing in it but its request, and then everything is written at once; and a job
that has ended cannot be failed any more.
-/

namespace DetectionRules

open Activity (guarantees_pure guarantees_bind guarantees_mono guarantees_nothing guarantees_owning
  keeps_pure keeps_bind keeps_rewrite keeps_within)

theorem JobError.code_eq_cancelled_iff (error : JobError) :
    error.code = "CANCELLED" ↔ error = .cancelled := by
  cases error with
  | rule error => cases error <;> simp [code]
  | _ => simp [code]

namespace Job

/-- A job that has ended, with everything in it as its status has it. -/
structure IsConsistent (job : Job) (maxAttempts : Nat) : Prop where
  ended : job.status = .completed ∨ job.status = .failed ∨ job.status = .cancelled
  completed : job.status = .completed →
    job.translation.isSome ∧ job.confidence.isSome ∧ job.error = none
  failed : job.status ≠ .completed →
    job.error.isSome ∧ job.translation = none ∧ job.confidence = none ∧ job.validation = none
  code : job.errorCode? = some "CANCELLED" ↔ job.status = .cancelled
  timed : job.completedAt.isSome
  tried : job.attempts ≤ max 1 maxAttempts

/-- If the job is completed, there is a validation exactly if the request asked for one. -/
def IsValidatedFor (job : Job) (request : TranslationRequest) : Prop :=
  job.status = .completed → (job.validation.isSome ↔ request.validates)

/-- A job that has not ended, with nothing in it that work on it comes to. -/
structure IsBlank (job : Job) (maxAttempts : Nat) : Prop where
  isOpen : job.status = .pending ∨ job.status = .processing
  translation : job.translation = none
  confidence : job.confidence = none
  validation : job.validation = none
  tried : job.attempts ≤ max 1 maxAttempts

variable {job : Job} {maxAttempts : Nat} {now : Nat} {error : JobError}

theorem fail_blank (blank : job.IsBlank maxAttempts) :
    job.fail now error = { job with
      status := if error = .cancelled then .cancelled else .failed
      error := some error.report
      completedAt := some now } := by
  rcases blank.isOpen with status | status <;> by_cases cancelled : error = .cancelled <;>
    simp [fail, advance, status, cancelled, JobStatus.canBecome, JobStatus.isTerminal]

theorem is_consistent_fail (blank : job.IsBlank maxAttempts) :
    (job.fail now error).IsConsistent maxAttempts := by
  rw [fail_blank blank]
  have code : some error.report.code = some "CANCELLED" ↔ error = .cancelled := by
    rw [Option.some.injEq]
    exact error.code_eq_cancelled_iff
  refine ⟨?_, ?_, ?_, ?_, rfl, blank.tried⟩
  · by_cases cancelled : error = .cancelled <;> simp [cancelled]
  · by_cases cancelled : error = .cancelled <;> simp [cancelled]
  · exact fun _ => ⟨rfl, blank.translation, blank.confidence, blank.validation⟩
  · refine code.trans ?_
    by_cases cancelled : error = .cancelled <;> simp [cancelled]

theorem fail_ended (consistent : job.IsConsistent maxAttempts) : job.fail now error = job := by
  rcases consistent.ended with status | status | status <;>
    simp [fail, status, JobStatus.canBecome]

theorem is_validated_for_fail (request : TranslationRequest) (blank : job.IsBlank maxAttempts) :
    (job.fail now error).IsValidatedFor request := by
  rw [fail_blank blank]
  intro status
  by_cases cancelled : error = .cancelled <;> simp [cancelled] at status

end Job

namespace Engine

variable {Notes : Type} {engine : Engine Notes} {requests : Set TranslationRequest}
  {request : TranslationRequest} {maxAttempts : Nat}

theorem is_blank_of_request (request : TranslationRequest) (maxAttempts : Nat) :
    (Job.ofRequest request).IsBlank maxAttempts :=
  ⟨.inl rfl, rfl, rfl, rfl, Nat.zero_le _⟩

theorem is_blank_begun (request : TranslationRequest) {attempts : Nat}
    (bounded : attempts ≤ max 1 maxAttempts) :
    ({ begun request with attempts } : Job).IsBlank maxAttempts :=
  ⟨.inr rfl, rfl, rfl, rfl, bounded⟩

theorem completed_begun (now : Nat) (request : TranslationRequest) (value : CachedTranslation)
    (attempts : Nat) :
    completed now request value { begun request with attempts } =
      { Job.ofRequest request with
        status := .completed
        attempts
        translation := some value.text
        confidence := some value.confidence
        validation := if request.validates then value.validation else none
        completedAt := some now } := by
  cases validates : request.validates <;>
    simp [completed, begun, validates, Job.advance, Job.ofRequest, JobStatus.canBecome,
      JobStatus.isTerminal]

theorem is_consistent_completed (now : Nat) (request : TranslationRequest)
    (value : CachedTranslation) {attempts : Nat} (bounded : attempts ≤ max 1 maxAttempts) :
    (completed now request value { begun request with attempts }).IsConsistent maxAttempts := by
  rw [completed_begun]
  exact ⟨.inl rfl, fun _ => ⟨rfl, rfl, rfl⟩, fun other => absurd rfl other,
    by simp [Job.errorCode?, Job.ofRequest], rfl, bounded⟩

def HasAsked (request : TranslationRequest) (value : CachedTranslation) : Prop :=
  request.validates = true → value.validation.isSome

theorem has_asked_assess (translated : Translated) :
    HasAsked request (engine.assess request translated) := by
  intro validates
  rw [assess, if_pos validates]
  rfl

theorem is_validated_for_completed (now attempts : Nat) {value : CachedTranslation}
    (asked : HasAsked request value) :
    (completed now request value { begun request with attempts }).IsValidatedFor request := by
  rw [completed_begun]
  intro _
  cases validates : request.validates with
  | false => simp
  | true => simpa using asked validates

/-- A translation that was asked for. -/
structure Assignment (Notes : Type) where
  request : TranslationRequest
  job : Job
  rest : Activity (Job × EngineState Notes) Unit

/-- An engine that was asked for translations, which go on by single steps in any order. Each may be
cancelled between any two steps. -/
inductive Serves (engine : Engine Notes) (requests : Set TranslationRequest) :
    List (Assignment Notes) → EngineState Notes → Prop where
  | fresh (notes : Notes) : Serves engine requests [] (engine.initialState notes)
  | accept {all state request} (serves : Serves engine requests all state)
      (asked : request ∈ requests) :
      Serves engine requests (⟨request, .ofRequest request, engine.process request⟩ :: all) state
  | act {before after request job effect next state} (now : Nat)
      (serves : Serves engine requests (before ++ ⟨request, job, .act effect next⟩ :: after) state) :
      Serves engine requests
        (before ++ ⟨request, (effect now (job, state)).1, next now (job, state)⟩ :: after)
        (effect now (job, state)).2
  | wait {before after request job duration next state}
      (serves : Serves engine requests
        (before ++ ⟨request, job, .wait duration next⟩ :: after) state) :
      Serves engine requests (before ++ ⟨request, job, next⟩ :: after) state
  | cancel {before after request job rest state} (now : Nat)
      (serves : Serves engine requests (before ++ ⟨request, job, rest⟩ :: after) state) :
      Serves engine requests
        (before ++ ⟨request, job.fail now .cancelled, .done ()⟩ :: after) state
  | leave {before after assignment state}
      (serves : Serves engine requests (before ++ assignment :: after) state) :
      Serves engine requests (before ++ after) state
  | clear {all state} (serves : Serves engine requests all state) :
      Serves engine requests all { state with cache := state.cache.clear }

theorem Serves.run {rest : Activity (Job × EngineState Notes) Unit} {job : Job}
    {all : List (Assignment Notes)} {state : EngineState Notes}
    (serves : engine.Serves requests (⟨request, job, rest⟩ :: all) state) (now : Nat) :
    engine.Serves requests
      (⟨request, (rest.run ⟨now, (job, state)⟩).2.world.1, .done ()⟩ :: all)
      (rest.run ⟨now, (job, state)⟩).2.world.2 := by
  induction rest generalizing job state now with
  | done result => exact serves
  | wait duration next induction =>
      have waited := @Serves.wait _ engine requests [] all _ _ _ _ _ serves
      exact induction waited _
  | act effect next induction =>
      have acted := @Serves.act _ engine requests [] all _ _ _ _ _ now serves
      exact induction now (job, state) acted now

section Invariant

variable {invariant : EngineState Notes → Prop} {ended : TranslationRequest → Job → Prop}

/-- The work on a request leaves a draft at every step, and in the end what may be handed out. -/
def Drafts (invariant : EngineState Notes → Prop) (ended : TranslationRequest → Job → Prop)
    (assignment : Assignment Notes) : Prop :=
  assignment.rest.Keeps invariant (IsDraft assignment.request (ended assignment.request))
    (fun _ => ended assignment.request) assignment.job

/-- What is true of every translation by itself is true of it among others, cancelled or not, if
drafts may be handed out once they have been cancelled. -/
theorem drafts_of_serves (initial : ∀ notes, invariant (engine.initialState notes))
    (cleared : ∀ state, invariant state → invariant { state with cache := state.cache.clear })
    (cancels : ∀ request job now, IsDraft request (ended request) job →
      ended request (job.fail now .cancelled))
    (each : ∀ request ∈ requests,
      Drafts invariant ended ⟨request, .ofRequest request, engine.process request⟩)
    {all : List (Assignment Notes)} {state : EngineState Notes}
    (serves : engine.Serves requests all state) :
    invariant state ∧ ∀ assignment ∈ all, Drafts invariant ended assignment := by
  induction serves with
  | fresh notes => exact ⟨initial notes, fun _ impossible => absurd impossible List.not_mem_nil⟩
  | accept serves asked induction =>
      have begins := each _ asked
      exact ⟨induction.1, List.forall_mem_cons.mpr ⟨begins, induction.2⟩⟩
  | clear serves induction => exact ⟨cleared _ induction.1, induction.2⟩
  | act now serves induction =>
      simp only [List.forall_mem_append, List.forall_mem_cons] at induction ⊢
      obtain ⟨holds, earlier, current, later⟩ := induction
      obtain ⟨kept, rest⟩ := current.2 now _ holds
      exact ⟨kept, earlier, rest, later⟩
  | wait serves induction =>
      simp only [List.forall_mem_append, List.forall_mem_cons] at induction ⊢
      obtain ⟨holds, earlier, current, later⟩ := induction
      exact ⟨holds, earlier, current.2, later⟩
  | cancel now serves induction =>
      simp only [List.forall_mem_append, List.forall_mem_cons] at induction ⊢
      obtain ⟨holds, earlier, current, later⟩ := induction
      have handedOut := cancels _ _ now (Activity.always_of_keeps current)
      exact ⟨holds, earlier, ⟨.inr (.inr handedOut), handedOut⟩, later⟩
  | leave serves induction =>
      simp only [List.forall_mem_append, List.forall_mem_cons] at induction ⊢
      obtain ⟨holds, earlier, _, later⟩ := induction
      exact ⟨holds, earlier, later⟩

theorem guarantees_translate_of_drafts
    (drafts : Drafts invariant ended ⟨request, .ofRequest request, engine.process request⟩) :
    (engine.translate request).Guarantees invariant (ended request) :=
  guarantees_bind (guarantees_owning drafts) fun _ holds => guarantees_pure holds.2

theorem guarantees_translate_within
    (cancels : ∀ job now, IsDraft request (ended request) job →
      ended request (job.fail now .cancelled))
    (drafts : Drafts invariant ended ⟨request, .ofRequest request, engine.process request⟩)
    (limit : Nat) : (engine.translateWithin request limit).Guarantees invariant (ended request) := by
  have worked : (if limit = 0 then pure none else (engine.process request).within limit :
      Activity (Job × EngineState Notes) (Option Unit)).Keeps invariant
      (IsDraft request (ended request)) (fun outcome job => ∀ result ∈ outcome, ended request job)
      (Job.ofRequest request) := by
    split
    · exact keeps_pure (.inl rfl) nofun
    · exact keeps_within drafts limit
  have work : (engine.processWithin request limit).Keeps invariant (IsDraft request (ended request))
      (fun _ => ended request) (Job.ofRequest request) := by
    refine keeps_bind worked fun outcome job isDraft done => ?_
    cases outcome with
    | none =>
        have handedOut now := cancels job now isDraft
        exact keeps_rewrite isDraft fun now => ⟨.inr (.inr (handedOut now)), handedOut now⟩
    | some result => exact keeps_pure isDraft (done result rfl)
  exact guarantees_bind (guarantees_owning work) fun _ holds => guarantees_pure holds.2

end Invariant

/-- The job may be handed out: it has ended and is consistent, and it is validated if that was
asked for, as long as no two requests have the same key. -/
def EndsWell (engine : Engine Notes) (requests : Set TranslationRequest)
    (request : TranslationRequest) (job : Job) : Prop :=
  job.IsConsistent engine.config.retry.maxAttempts.toNat ∧
    (engine.CollisionFree requests → job.IsValidatedFor request)

theorem ends_well_fail {job : Job} (now : Nat)
    (isDraft : IsDraft request (engine.EndsWell requests request) job) :
    engine.EndsWell requests request (job.fail now .cancelled) := by
  rcases isDraft with rfl | rfl | endsWell
  · have blank := is_blank_of_request request engine.config.retry.maxAttempts.toNat
    exact ⟨Job.is_consistent_fail blank, fun _ => Job.is_validated_for_fail request blank⟩
  · have blank := is_blank_begun request (Nat.zero_le (max 1 engine.config.retry.maxAttempts.toNat))
    exact ⟨Job.is_consistent_fail blank, fun _ => Job.is_validated_for_fail request blank⟩
  · rw [Job.fail_ended endsWell.1]
    exact endsWell

/-- What is kept for requests that asked for a validation has one, as long as no two requests have
the same key. -/
def RemembersAsked (engine : Engine Notes) (requests : Set TranslationRequest)
    (state : EngineState Notes) : Prop :=
  engine.CollisionFree requests → engine.Remembers requests HasAsked state

theorem remembers_asked_of_free (free : engine.CollisionFree requests) :
    engine.RemembersAsked requests = engine.Remembers requests HasAsked := by
  funext state
  simp [RemembersAsked, free]

theorem remembers_asked_of_not_free (mixed : ¬engine.CollisionFree requests) :
    engine.RemembersAsked requests = fun _ => True := by
  funext state
  simp [RemembersAsked, mixed]

theorem drafts_process (asked : request ∈ requests) :
    Drafts (engine.RemembersAsked requests) (engine.EndsWell requests)
      ⟨request, .ofRequest request, engine.process request⟩ := by
  let property : Except JobError CachedTranslation → Prop := fun outcome =>
    ∀ value, outcome = .ok value → engine.CollisionFree requests → HasAsked request value
  have found : (engine.lookUp request).Guarantees (engine.RemembersAsked requests) fun found =>
      ∀ value ∈ found, property (.ok value) := by
    by_cases free : engine.CollisionFree requests
    · rw [remembers_asked_of_free free]
      refine guarantees_mono (guarantees_look_up free asked) fun found asked value member => ?_
      rintro _ ⟨⟩ _
      exact asked value member
    · rw [remembers_asked_of_not_free free]
      exact guarantees_mono (guarantees_nothing _) fun _ _ _ _ _ _ distinct =>
        absurd distinct free
  have attempts : (engine.timedAttempt request).Guarantees (engine.RemembersAsked requests)
      fun outcome => property (outcome.map (engine.assess request)) := by
    refine guarantees_mono (guarantees_timed_attempt fun state notes remembers free =>
      remembers_notes state notes (remembers free)) fun outcome _ value same _ => ?_
    obtain ⟨translated, _, rfl⟩ := Success.of_map same
    exact has_asked_assess translated
  have kept : ∀ value, property (.ok value) →
      (engine.keep request value).Guarantees (engine.RemembersAsked requests) fun _ => True := by
    intro value holds
    by_cases free : engine.CollisionFree requests
    · rw [remembers_asked_of_free free]
      exact guarantees_keep asked (holds value rfl free)
    · rw [remembers_asked_of_not_free free]
      exact guarantees_nothing _
  refine keeps_process found attempts kept ?_ ?_
  · intro now value holds attempts bounded
    exact ⟨is_consistent_completed now request value bounded,
      fun free => is_validated_for_completed now attempts (holds value rfl free)⟩
  · intro now error _ attempts bounded
    have blank := is_blank_begun request bounded
    exact ⟨Job.is_consistent_fail blank, fun _ => Job.is_validated_for_fail request blank⟩

/-- Every job that is handed out ends well: whatever was asked for, whatever the advisor says and
however long it takes, whichever translations were cancelled at whichever of their steps, and also
if the engine is left to one translation, with or without a time after which that is cancelled. -/
theorem jobs_end_well (engine : Engine Notes) (requests : Set TranslationRequest)
    (all : List (Assignment Notes)) (state : EngineState Notes)
    (serves : engine.Serves requests all state) :
    (∀ assignment ∈ all, assignment.rest = .done () →
      engine.EndsWell requests assignment.request assignment.job) ∧
    ∀ request ∈ requests, ∀ now limit,
      engine.EndsWell requests request ((engine.translate request).run ⟨now, state⟩).1 ∧
      engine.EndsWell requests request ((engine.translateWithin request limit).run ⟨now, state⟩).1 := by
  have cancels : ∀ request job now, IsDraft request (engine.EndsWell requests request) job →
      engine.EndsWell requests request (job.fail now .cancelled) :=
    fun _ _ now isDraft => ends_well_fail now isDraft
  have each : ∀ request ∈ requests, Drafts (engine.RemembersAsked requests)
      (engine.EndsWell requests) ⟨request, .ofRequest request, engine.process request⟩ :=
    fun _ => drafts_process
  obtain ⟨remembers, drafts⟩ := drafts_of_serves (fun notes _ => remembers_initial notes)
    (fun _ remembers free => remembers_of_subset (remembers free) (List.nil_subset _))
    cancels each serves
  refine ⟨fun assignment member done => ?_, fun request asked now limit => ⟨?_, ?_⟩⟩
  · have keeps := drafts assignment member
    rw [Drafts, done] at keeps
    exact keeps.2
  · have translated := guarantees_translate_of_drafts (each request asked)
    exact (Activity.of_guarantees translated remembers).1
  · have translated := guarantees_translate_within (cancels request) (each request asked) limit
    exact (Activity.of_guarantees translated remembers).1

def meetable : TranslationRequest := ⟨.crowdstrike, .crowdstrike, "a=b", true⟩

def unreadable : TranslationRequest := ⟨.crowdstrike, .kql, "", true⟩

/-- A job that is met, one that fails, and one that is cancelled before it could be served from the
cache. -/
theorem mixed_jobs_end_well :
    ∃ all state, plain.Serves {meetable, unreadable} all state ∧
      all.map (·.job.status) = [.cancelled, .failed, .completed] ∧
      plain.CollisionFree {meetable, unreadable} ∧
      ∀ assignment ∈ all, assignment.job.IsConsistent 3 ∧
        assignment.job.IsValidatedFor assignment.request := by
  have free : plain.CollisionFree {meetable, unreadable} := .pair (by decide +kernel)
  have first : meetable ∈ ({meetable, unreadable} : Set TranslationRequest) := .inl rfl
  have second : unreadable ∈ ({meetable, unreadable} : Set TranslationRequest) := .inr rfl
  have fresh : plain.Serves {meetable, unreadable} [] (plain.initialState ()) := .fresh ()
  have met := (fresh.accept first).run 0
  have failed := (met.accept second).run 0
  have again := failed.accept first
  have cancelled := @Serves.cancel _ plain _ [] _ _ _ _ _ 0 again
  obtain ⟨ends, _⟩ := jobs_end_well plain _ _ _ cancelled
  refine ⟨_, _, cancelled, by decide +kernel, free, fun assignment member => ?_⟩
  have done : assignment.rest = .done () := by
    simp only [List.nil_append, List.mem_cons, List.not_mem_nil, or_false] at member
    rcases member with rfl | rfl | rfl <;> rfl
  obtain ⟨consistent, validated⟩ := ends assignment member done
  exact ⟨consistent, validated free⟩

end Engine

end DetectionRules
