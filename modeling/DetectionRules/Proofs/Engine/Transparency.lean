import DetectionRules.Proofs.Engine.Use

/-!
The cache is transparent. Without an advisor an attempt takes no time and comes
to the same outcome whenever it is made, so what is kept for a request is what
another attempt would come to. Whether a job is served from the cache, or worked
on because its entry was never kept, is too old or had to go, shows in nothing
but the number of attempts and the time.
-/

namespace DetectionRules

open Activity (guarantees_bind guarantees_next guarantees_pure guarantees_pause guarantees_mono
  guarantees_access)

theorem FieldResolver.resolve_all_alone {World : Type} {resolver : FieldResolver World}
    (alone : resolver.advisor = none) (rule : Rule) (target : Format) (fields : List String) :
    ∃ entries, resolver.resolveAll rule target fields = .done entries := by
  induction fields with
  | nil => exact ⟨[], rfl⟩
  | cons field rest induction =>
      have first : ∃ resolution, resolver.resolve rule target field = .done resolution := by
        rw [resolve, alone]
        cases Catalog.translate? rule.dialect target field with
        | some native => exact ⟨_, rfl⟩
        | none => exact ⟨_, rfl⟩
      obtain ⟨resolution, found⟩ := first
      obtain ⟨entries, others⟩ := induction
      exact ⟨(field, resolution) :: entries, by rw [resolveAll, found, others]; rfl⟩

namespace Engine

variable {Notes : Type} {engine : Engine Notes} {request : TranslationRequest}

theorem attempt_alone (alone : engine.advisor = none) (request : TranslationRequest) :
    ∃ translated, engine.attempt request = .done translated := by
  have nobody : engine.resolver.advisor = none := by
    rw [resolver, FieldResolver.ofConfig, alone]
    rfl
  rw [attempt]
  cases request.source.read request.content with
  | error error => exact ⟨_, rfl⟩
  | ok source =>
      obtain ⟨entries, resolved⟩ := FieldResolver.resolve_all_alone nobody source request.target
        source.referencedFields
      have adapted : engine.resolver.adapt source request.target =
          .done (.ofResolutions source request.target entries) := by
        rw [FieldResolver.adapt, resolved]
        rfl
      simp only [adapted, bind, Activity.bind]
      cases (Adaptation.ofResolutions source request.target entries).rule with
      | none => exact ⟨_, rfl⟩
      | some rule =>
          simp only
          cases request.target.write rule with
          | error error => exact ⟨_, rfl⟩
          | ok text => exact ⟨_, rfl⟩

/-- What a request comes to by itself. -/
def Answers (engine : Engine Notes) (request : TranslationRequest)
    (outcome : Except JobError CachedTranslation) : Prop :=
  ∃ translated, engine.attempt request = .done translated ∧
    outcome = translated.map (engine.assess request)

theorem Answers.unique {first second : Except JobError CachedTranslation}
    (answers : engine.Answers request first) (again : engine.Answers request second) :
    first = second := by
  obtain ⟨translated, attempted, rfl⟩ := answers
  obtain ⟨other, repeated, rfl⟩ := again
  rw [attempted, Activity.done.injEq] at repeated
  rw [repeated]

theorem Answers.own_reason {error : JobError} (answers : engine.Answers request (.error error)) :
    error ≠ .cancelled := by
  obtain ⟨translated, attempted, same⟩ := answers
  have attempts : (engine.attempt request).Guarantees (fun _ => True) Attempted :=
    guarantees_attempt fun _ _ _ => trivial
  rw [attempted] at attempts
  cases translated with
  | ok translated => cases same
  | error failure =>
      cases same
      exact attempts

theorem guarantees_timed_attempt_alone {invariant : EngineState Notes → Prop}
    (alone : engine.advisor = none) (request : TranslationRequest) :
    (engine.timedAttempt request).Guarantees invariant fun outcome =>
      engine.Answers request (outcome.map (engine.assess request)) := by
  obtain ⟨translated, attempted⟩ := attempt_alone alone request
  rw [timedAttempt, attempted]
  exact ⟨translated, attempted, rfl⟩

/-- The job of the request is what the request comes to by itself, apart from time. -/
def ComesTo (engine : Engine Notes) (request : TranslationRequest) (job : Job) : Prop :=
  ∃ outcome, engine.Answers request outcome ∧ job.timeless = settled request outcome

theorem ComesTo.unique {first second : Job} (one : engine.ComesTo request first)
    (other : engine.ComesTo request second) : first.timeless = second.timeless := by
  obtain ⟨outcome, answers, same⟩ := one
  obtain ⟨outcome', answers', same'⟩ := other
  rw [same, same', answers.unique answers']

theorem ComesTo.content {job : Job} (comes : engine.ComesTo request job) :
    job.content = request.content := by
  obtain ⟨outcome, _, same⟩ := comes
  have content : job.timeless.content = _ := congrArg Job.content same
  exact content.trans (content_settled request outcome)

theorem ComesTo.not_cancelled {job : Job} (comes : engine.ComesTo request job) :
    job.status ≠ .cancelled := by
  obtain ⟨outcome, answers, same⟩ := comes
  have ended := ended_of_settled (fun error failed => Answers.own_reason (failed ▸ answers)) same
  rcases ended with status | status <;> simp [status]

/-- The entries of the cache are right: each is what its request comes to by itself. -/
abbrev Recalls (engine : Engine Notes) (requests : Set TranslationRequest) :
    EngineState Notes → Prop :=
  engine.Remembers requests fun request value => engine.Answers request (.ok value)

theorem guarantees_translate_alone {requests : Set TranslationRequest}
    (free : engine.CollisionFree requests) (alone : engine.advisor = none)
    (asked : request ∈ requests) :
    (engine.translate request).Guarantees (engine.Recalls requests) (engine.ComesTo request) :=
  guarantees_translate (guarantees_look_up free asked)
    (guarantees_timed_attempt_alone alone request)
    fun _ holds => guarantees_keep asked holds

theorem recalls_of_in_use {requests : Set TranslationRequest} (free : engine.CollisionFree requests)
    (alone : engine.advisor = none) {running : List (TranslationRequest × Work Notes Job)}
    {state : EngineState Notes} (used : engine.InUse requests running state) :
    engine.Recalls requests state :=
  (guarantees_of_in_use remembers_initial
    (fun _ remembers => remembers_of_subset remembers (List.nil_subset _))
    (fun _ asked => guarantees_translate_alone free alone asked) used).1

def uncached (engine : Engine Notes) : Engine Notes :=
  { engine with config := { engine.config with
    cache := { engine.config.cache with enabled := false } } }

def IsUncached (engine : Engine Notes) (state : EngineState Notes) : Prop :=
  state.cache.config = engine.uncached.config.cache

theorem is_uncached_initial (notes : Notes) :
    engine.IsUncached (engine.uncached.initialState notes) := rfl

theorem disabled_of_is_uncached {state : EngineState Notes} (off : engine.IsUncached state) :
    state.cache.isEnabled = false := by
  rw [Cache.isEnabled, off]
  rfl

theorem guarantees_translate_uncached (alone : engine.advisor = none)
    (request : TranslationRequest) :
    (engine.uncached.translate request).Guarantees engine.IsUncached (engine.ComesTo request) := by
  have absent : (engine.uncached.lookUp request).Guarantees engine.IsUncached fun found =>
      ∀ value ∈ found, engine.Answers request (.ok value) := by
    have looks : (Activity.access fun now (state : EngineState Notes) =>
        ((state.cache.look now (engine.uncached.key request)).1,
          { state with
            cache := (state.cache.look now (engine.uncached.key request)).2 })).Guarantees
        engine.IsUncached (· = .disabled) := by
      refine guarantees_access fun now state off => ?_
      rw [Cache.look, disabled_of_is_uncached off]
      exact ⟨off, rfl⟩
    refine guarantees_bind looks fun sight none => ?_
    subst none
    refine guarantees_access fun now state off => ⟨off, fun value found => ?_⟩
    cases Cache.hit_of_settle found
  refine guarantees_translate absent (guarantees_timed_attempt_alone alone request) ?_
  intro value _
  refine guarantees_access fun now state off => ⟨?_, trivial⟩
  rw [Cache.insert, Cache.isAcceptable, disabled_of_is_uncached off]
  exact off

def translateAll (engine : Engine Notes) :
    List (Nat × TranslationRequest) → Work Notes (List Job)
  | [] => return []
  | (delay, request) :: rest => do
      Activity.pause delay
      let job ← engine.translate request
      let jobs ← engine.translateAll rest
      return job :: jobs

theorem guarantees_translate_all {invariant : EngineState Notes → Prop}
    {property : TranslationRequest → Job → Prop} {requests : List (Nat × TranslationRequest)}
    (each : ∀ entry ∈ requests,
      (engine.translate entry.2).Guarantees invariant (property entry.2)) :
    (engine.translateAll requests).Guarantees invariant fun jobs =>
      List.Forall₂ (fun entry job => property entry.2 job) requests jobs := by
  induction requests with
  | nil => exact guarantees_pure .nil
  | cons entry rest induction =>
      refine guarantees_next (guarantees_pause _) fun _ => ?_
      refine guarantees_bind (each entry List.mem_cons_self) fun job holds => ?_
      have others := induction fun later member => each later (List.mem_cons_of_mem _ member)
      exact guarantees_bind others fun jobs all => guarantees_pure (.cons holds all)

/-- Whatever was asked before and whenever, every job is the one that an engine without a cache
would give, apart from the number of attempts and the time; and no two requests share a key. -/
theorem cache_transparent (engine : Engine Notes) (alone : engine.advisor = none) (notes : Notes)
    (start : Nat) (requests : List (Nat × TranslationRequest))
    (free : engine.CollisionFree { request | request ∈ requests.map (·.2) }) :
    (∀ moment : Activity.Moment (EngineState Notes), engine.IsUncached moment.world →
      ((engine.translateAll requests).run ⟨start, engine.initialState notes⟩).1.map Job.timeless =
        requests.map fun entry => ((engine.uncached.translate entry.2).run moment).1.timeless) ∧
    ∀ first second, engine.CollisionFree {first, second} → engine.key first = engine.key second →
      first = second := by
  constructor
  · intro moment off
    have all : (engine.translateAll requests).Guarantees
        (engine.Recalls { request | request ∈ requests.map (·.2) })
        (List.Forall₂ (fun entry job => engine.ComesTo entry.2 job) requests) :=
      guarantees_translate_all fun entry member =>
        guarantees_translate_alone free alone (List.mem_map.mpr ⟨entry, member, rfl⟩)
    have recalls : engine.Recalls { request | request ∈ requests.map (·.2) }
        (engine.initialState notes) := remembers_initial notes
    have jobs := (@Activity.of_guarantees _ _ _ _ _ ⟨start, _⟩ all recalls).1
    rw [← List.forall₂_eq_eq_eq, List.forall₂_map_left_iff, List.forall₂_map_right_iff]
    refine jobs.flip.imp fun job entry found => ?_
    have other := (Activity.of_guarantees (guarantees_translate_uncached alone entry.2) off).1
    exact ComesTo.unique found other
  · intro first second distinct same
    exact distinct.key_injective (by simp) (by simp) same

def twins : TranslationRequest × TranslationRequest :=
  (⟨.crowdstrike, .kql, "a=1", true⟩, ⟨.crowdstrike, .kql, "a=1", false⟩)

/-- A request that is made three times, the last time when its entry is too old, and its twin. -/
def repeatedRequests : List (Nat × TranslationRequest) :=
  [(0, twins.1), (5, twins.1), (7200000, twins.1), (1, twins.2)]

theorem collision_free_repeated :
    plain.CollisionFree { request | request ∈ repeatedRequests.map (·.2) } := by
  have different : plain.digest twins.1.keyText ≠ plain.digest twins.2.keyText := by decide +kernel
  refine (CollisionFree.pair different).mono fun request member => ?_
  simpa [repeatedRequests] using member

theorem repeated_requests_transparent :
    plain.CollisionFree { request | request ∈ repeatedRequests.map (·.2) } ∧
    ((plain.translateAll repeatedRequests).run ⟨0, plain.initialState ()⟩).1.map Job.timeless =
      repeatedRequests.map fun entry =>
        ((plain.uncached.translate entry.2).run ⟨0, plain.uncached.initialState ()⟩).1.timeless :=
  ⟨collision_free_repeated,
    (cache_transparent plain rfl () 0 repeatedRequests collision_free_repeated).1
      ⟨0, plain.uncached.initialState ()⟩ (is_uncached_initial ())⟩

end Engine

end DetectionRules
