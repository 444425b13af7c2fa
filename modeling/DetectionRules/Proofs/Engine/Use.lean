import DetectionRules.Proofs.Cache.Access
import DetectionRules.Proofs.Engine.Translation

/-!
Engines in use. Translations are accepted, go on by single steps in any order,
are given up or end, and leave in the cache what later ones find there. What is
known of every entry of the cache holds again for whatever is served from it, as
long as no two requests have the same key.
-/

namespace DetectionRules

open Activity (guarantees_bind guarantees_access)

theorem Format.name_injective : Function.Injective name := by
  intro first second same
  have found := of_name_name first
  rw [same, of_name_name] at found
  exact (Option.some.inj found).symm

theorem Format.separator_not_mem_name (format : Format) : '\x00' ∉ format.name.toList := by
  cases format <;> decide

theorem parts_of_separated {separator : Char} {before others after rest : List Char}
    (absent : separator ∉ before) (absentToo : separator ∉ others)
    (same : before ++ separator :: after = others ++ separator :: rest) :
    before = others ∧ after = rest := by
  induction before generalizing others with
  | nil =>
      cases others with
      | nil => simpa using same
      | cons other others =>
          obtain rfl : separator = other := (List.cons.inj same).1
          simp at absentToo
  | cons first before induction =>
      cases others with
      | nil =>
          obtain rfl : first = separator := (List.cons.inj same).1
          simp at absent
      | cons other others =>
          obtain ⟨rfl, later⟩ := List.cons.inj same
          rw [List.mem_cons, not_or] at absent absentToo
          obtain ⟨rfl, rfl⟩ := induction absent.2 absentToo.2 later
          exact ⟨rfl, rfl⟩

/-- What a key stands for tells everything about the request. -/
theorem TranslationRequest.key_text_injective : Function.Injective keyText := by
  have parts : ∀ request : TranslationRequest, request.keyText.toList =
      request.source.name.toList ++ '\x00' :: (request.target.name.toList ++ '\x00' ::
        ((if request.validates then 'v' else 'n') :: '\x00' :: request.content.toList)) := by
    intro request
    cases validates : request.validates <;> simp [keyText, validates]
  rintro ⟨source, target, content, validates⟩ ⟨otherSource, otherTarget, otherContent, others⟩ same
  have texts := congrArg String.toList same
  rw [parts, parts] at texts
  obtain ⟨sources, texts⟩ := parts_of_separated
    (Format.separator_not_mem_name _) (Format.separator_not_mem_name _) texts
  obtain ⟨targets, texts⟩ := parts_of_separated
    (Format.separator_not_mem_name _) (Format.separator_not_mem_name _) texts
  obtain rfl := Format.name_injective (String.toList_injective sources)
  obtain rfl := Format.name_injective (String.toList_injective targets)
  simp only [List.cons.injEq, true_and] at texts
  obtain rfl := String.toList_injective texts.2
  obtain rfl : validates = others := by
    have flags := texts.1
    cases validates <;> cases others <;> simp_all
  rfl

namespace Engine

variable {Notes : Type}

/-- The digest tells the requests apart. -/
def CollisionFree (engine : Engine Notes) (requests : Set TranslationRequest) : Prop :=
  ∀ first ∈ requests, ∀ second ∈ requests,
    engine.digest first.keyText = engine.digest second.keyText → first.keyText = second.keyText

theorem CollisionFree.key_injective {engine : Engine Notes} {requests : Set TranslationRequest}
    (free : engine.CollisionFree requests) : Set.InjOn engine.key requests :=
  fun _ first _ second same =>
    TranslationRequest.key_text_injective (free _ first _ second same)

theorem CollisionFree.mono {engine : Engine Notes} {requests fewer : Set TranslationRequest}
    (free : engine.CollisionFree requests) (subset : fewer ⊆ requests) :
    engine.CollisionFree fewer :=
  fun _ first _ second => free _ (subset first) _ (subset second)

theorem CollisionFree.pair {engine : Engine Notes} {first second : TranslationRequest}
    (different : engine.digest first.keyText ≠ engine.digest second.keyText) :
    engine.CollisionFree {first, second} := by
  rintro _ (rfl | rfl) _ (rfl | rfl) same
  · rfl
  · exact absurd same different
  · exact absurd same.symm different
  · rfl

/-- Every entry was kept for a request, and is right for it. -/
def Remembers (engine : Engine Notes) (requests : Set TranslationRequest)
    (right : TranslationRequest → CachedTranslation → Prop) (state : EngineState Notes) : Prop :=
  ∀ entry ∈ state.cache.entries, ∃ request ∈ requests,
    entry.key = engine.key request ∧ right request entry.value

variable {engine : Engine Notes} {requests : Set TranslationRequest}
  {right : TranslationRequest → CachedTranslation → Prop} {request : TranslationRequest}

theorem remembers_initial (notes : Notes) :
    engine.Remembers requests right (engine.initialState notes) :=
  fun _ impossible => absurd impossible List.not_mem_nil

theorem remembers_notes (state : EngineState Notes) (notes : Notes)
    (remembers : engine.Remembers requests right state) :
    engine.Remembers requests right { state with notes } := remembers

theorem remembers_of_subset {state : EngineState Notes} {cache : Cache}
    (remembers : engine.Remembers requests right state)
    (subset : cache.entries ⊆ state.cache.entries) :
    engine.Remembers requests right { state with cache } :=
  fun entry member => remembers entry (subset member)

theorem guarantees_look_up (free : engine.CollisionFree requests) (asked : request ∈ requests) :
    (engine.lookUp request).Guarantees (engine.Remembers requests right) fun found =>
      ∀ value ∈ found, right request value := by
  have looks : (Activity.access fun now (state : EngineState Notes) =>
      ((state.cache.look now (engine.key request)).1,
        { state with cache := (state.cache.look now (engine.key request)).2 })).Guarantees
      (engine.Remembers requests right) fun sight =>
        ∀ value, sight = .hit value → right request value := by
    refine guarantees_access fun now state remembers => ⟨?_, ?_⟩
    · exact remembers_of_subset remembers (by simp)
    · intro value hit
      obtain ⟨entry, member, key, rfl, _⟩ := Cache.entry_of_hit hit
      obtain ⟨other, known, sameKey, holds⟩ := remembers entry member
      have same := free.key_injective known asked (sameKey.symm.trans key)
      exact same ▸ holds
  refine guarantees_bind looks fun sight fits => ?_
  refine guarantees_access fun now state remembers => ⟨?_, ?_⟩
  · exact remembers_of_subset remembers (Cache.entries_settle_sublist sight).subset
  · exact fun value found => fits value (Cache.hit_of_settle found)

theorem guarantees_keep (asked : request ∈ requests) {value : CachedTranslation}
    (holds : right request value) :
    (engine.keep request value).Guarantees (engine.Remembers requests right) fun _ => True := by
  refine guarantees_access fun now state remembers => ⟨?_, trivial⟩
  intro entry member
  rcases Cache.mem_insert member with before | rfl
  · exact remembers entry before
  · exact ⟨request, asked, rfl, holds⟩

/-- An engine that was asked for translations. With each of those under way, or just ended, stands
what is left of it to do. -/
inductive InUse (engine : Engine Notes) (requests : Set TranslationRequest) :
    List (TranslationRequest × Work Notes Job) → EngineState Notes → Prop where
  | fresh (notes : Notes) : InUse engine requests [] (engine.initialState notes)
  | accept {running state request} (used : InUse engine requests running state)
      (asked : request ∈ requests) :
      InUse engine requests ((request, engine.translate request) :: running) state
  | act {before after request effect next state} (now : Nat)
      (used : InUse engine requests (before ++ (request, .act effect next) :: after) state) :
      InUse engine requests (before ++ (request, next now state) :: after) (effect now state)
  | wait {before after request duration next state}
      (used : InUse engine requests (before ++ (request, .wait duration next) :: after) state) :
      InUse engine requests (before ++ (request, next) :: after) state
  | leave {before after entry state}
      (used : InUse engine requests (before ++ entry :: after) state) :
      InUse engine requests (before ++ after) state
  | clear {running state} (used : InUse engine requests running state) :
      InUse engine requests running { state with cache := state.cache.clear }

/-- What every translation guarantees for itself, it guarantees among others. -/
theorem guarantees_of_in_use {invariant : EngineState Notes → Prop}
    {property : TranslationRequest → Job → Prop}
    {running : List (TranslationRequest × Work Notes Job)} {state : EngineState Notes}
    (initial : ∀ notes, invariant (engine.initialState notes))
    (cleared : ∀ state, invariant state → invariant { state with cache := state.cache.clear })
    (each : ∀ request ∈ requests,
      (engine.translate request).Guarantees invariant (property request))
    (used : engine.InUse requests running state) :
    invariant state ∧
      ∀ entry ∈ running, entry.2.Guarantees invariant (property entry.1) := by
  induction used with
  | fresh notes => exact ⟨initial notes, nofun⟩
  | accept used asked induction =>
      exact ⟨induction.1, List.forall_mem_cons.mpr ⟨each _ asked, induction.2⟩⟩
  | act now used induction =>
      simp only [List.forall_mem_append, List.forall_mem_cons] at induction ⊢
      obtain ⟨holds, earlier, current, later⟩ := induction
      obtain ⟨kept, rest⟩ := current now _ holds
      exact ⟨kept, earlier, rest, later⟩
  | wait used induction =>
      simp only [List.forall_mem_append, List.forall_mem_cons] at induction ⊢
      exact induction
  | leave used induction =>
      simp only [List.forall_mem_append, List.forall_mem_cons] at induction ⊢
      obtain ⟨holds, earlier, _, later⟩ := induction
      exact ⟨holds, earlier, later⟩
  | clear used induction => exact ⟨cleared _ induction.1, induction.2⟩

theorem InUse.run {activity : Work Notes Job}
    {running : List (TranslationRequest × Work Notes Job)} {state : EngineState Notes}
    (used : engine.InUse requests ((request, activity) :: running) state) (now : Nat) :
    engine.InUse requests ((request, .done (activity.run ⟨now, state⟩).1) :: running)
      (activity.run ⟨now, state⟩).2.world := by
  induction activity generalizing now state with
  | done job => exact used
  | wait duration next induction =>
      have waited := @InUse.wait _ engine requests [] running _ _ _ _ used
      exact induction waited _
  | act effect next induction =>
      have acted := @InUse.act _ engine requests [] running _ _ _ _ now used
      exact induction now state acted now

def plain : Engine Unit := { config := {}, advisor := none }

end Engine

end DetectionRules
