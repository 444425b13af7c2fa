import DetectionRules.Cache.Store
import Mathlib.Data.List.Induction
import Mathlib.Data.List.Nodup

/-!
Single accesses to a cache. A look-up takes two of them, one that looks and one
that settles what was seen. An insertion drops what is too old, and of a full
cache the oldest entry, and puts the new entry behind those that stay.
-/

namespace DetectionRules.Cache

/-- What is done to a cache in one go. -/
inductive Access where
  | look (key : String)
  | settle (key : String) (sight : Sight)
  | insert (key : String) (value : CachedTranslation)
  | clear

namespace Access

def key? : Access → Option String
  | look key | settle key _ | insert key _ => some key
  | clear => none

def isLook : Access → Bool
  | look _ => true
  | _ => false

def apply (cache : Cache) (now : Nat) : Access → Cache
  | look key => (cache.look now key).2
  | settle key sight => (cache.settle key sight).2
  | insert key value => (cache.insert now key value).2
  | clear => cache.clear

end Access

def Sight.isMiss : Sight → Bool
  | hit _ => false
  | disabled | expired | absent => true

variable {cache : Cache} {now : Nat} {key : String} {value : CachedTranslation}

/-- A look may count a hit and changes nothing else. -/
theorem look_eq : (cache.look now key).2 = { cache with hits := (cache.look now key).2.hits } := by
  rw [look]
  split
  · rfl
  · split
    · split <;> rfl
    · rfl

@[simp]
theorem entries_look : (cache.look now key).2.entries = cache.entries := by rw [look_eq]

@[simp]
theorem config_look : (cache.look now key).2.config = cache.config := by rw [look_eq]

@[simp]
theorem config_settle (sight : Sight) : (cache.settle key sight).2.config = cache.config := by
  cases sight <;> rfl

@[simp]
theorem config_insert : (cache.insert now key value).2.config = cache.config := by
  rw [insert]
  split <;> rfl

theorem entry_of_hit (hit : (cache.look now key).1 = .hit value) :
    ∃ entry ∈ cache.entries, entry.key = key ∧ entry.value = value ∧ cache.isFresh now entry = true := by
  rw [look] at hit
  split at hit
  · cases hit
  · split at hit
    · rename_i entry found
      split at hit
      · rename_i fresh
        cases hit
        exact ⟨entry, List.mem_of_find?_eq_some found, by simpa using List.find?_some found, rfl, fresh⟩
      · cases hit
    · cases hit

theorem hit_of_settle {sight : Sight} (found : (cache.settle key sight).1 = some value) :
    sight = .hit value := by
  cases sight with
  | hit known =>
      cases found
      rfl
  | disabled | expired | absent => cases found

theorem entries_settle_sublist (sight : Sight) :
    (cache.settle key sight).2.entries.Sublist cache.entries := by
  cases sight with
  | disabled | hit value | absent => exact List.Sublist.refl _
  | expired => exact List.filter_sublist

theorem mem_settle {sight : Sight} {entry : CacheEntry} (member : entry ∈ cache.entries)
    (other : key ≠ entry.key) : entry ∈ (cache.settle key sight).2.entries := by
  cases sight with
  | disabled | hit value | absent => exact member
  | expired => exact List.mem_filter.mpr ⟨member, by simpa using Ne.symm other⟩

theorem counts_look (enabled : cache.isEnabled = true) :
    (cache.look now key).1 ≠ .disabled ∧
      (cache.look now key).2.hits + (cache.look now key).2.misses +
        (if (cache.look now key).1.isMiss then 1 else 0) = cache.hits + cache.misses + 1 := by
  rw [look, enabled]
  simp only [Bool.not_true, Bool.false_eq_true, if_false]
  split
  · split
    · exact ⟨nofun, Nat.add_right_comm cache.hits 1 cache.misses⟩
    · exact ⟨nofun, rfl⟩
  · exact ⟨nofun, rfl⟩

theorem counts_settle {sight : Sight} (seen : sight ≠ .disabled) :
    (cache.settle key sight).2.hits + (cache.settle key sight).2.misses =
      cache.hits + cache.misses + if sight.isMiss then 1 else 0 := by
  cases sight with
  | disabled => exact absurd rfl seen
  | hit value | expired | absent => rfl

theorem counts_insert : (cache.insert now key value).2.hits = cache.hits ∧
    (cache.insert now key value).2.misses = cache.misses := by
  rw [insert]
  split <;> exact ⟨rfl, rfl⟩

def Distinct (entries : List CacheEntry) : Prop := (entries.map (·.key)).Nodup

def Knows (cache : Cache) (key : String) : Prop := ∃ entry ∈ cache.entries, entry.key = key

/-- No entry could be dropped for its age to make room for another. -/
structure IsFull (cache : Cache) (now : Nat) : Prop where
  length : cache.entries.length = cache.config.maxEntries.toNat
  fresh : ∀ entry ∈ cache.entries, cache.isFresh now entry = true

theorem without_of_mem {entries : List CacheEntry} (distinct : Distinct entries) {entry : CacheEntry}
    (member : entry ∈ entries) : ∃ before after, entries = before ++ entry :: after ∧
      without entries entry.key = before ++ after := by
  obtain ⟨before, after, rfl⟩ := List.append_of_mem member
  refine ⟨before, after, rfl, ?_⟩
  rw [Distinct, List.map_append, List.map_cons, List.nodup_middle, List.nodup_cons] at distinct
  have others : ∀ other ∈ before ++ after, other.key ≠ entry.key := by
    intro other inside same
    refine distinct.1 ?_
    rw [← List.map_append, ← same]
    exact List.mem_map_of_mem inside
  rw [List.forall_mem_append] at others
  rw [without, List.filter_append, List.filter_cons_of_neg (by simp),
    List.filter_eq_self.mpr (by simpa using others.1), List.filter_eq_self.mpr (by simpa using others.2)]

theorem without_of_unknown {entries : List CacheEntry} (unknown : ∀ entry ∈ entries, entry.key ≠ key) :
    without entries key = entries :=
  List.filter_eq_self.mpr (by simpa using unknown)

/-- The older of two entries; of two that are equally old, the one that was looked at before. -/
def older (oldest : Option CacheEntry) (entry : CacheEntry) : Option CacheEntry :=
  match oldest with
  | some other => if entry.inserted < other.inserted then some entry else some other
  | none => some entry

theorem oldest_of_fold {entries : List CacheEntry} (filled : entries ≠ []) : ∃ oldest ∈ entries,
    entries.foldl older none = some oldest ∧ ∀ entry ∈ entries, oldest.inserted ≤ entry.inserted := by
  induction entries using List.reverseRecOn with
  | nil => exact absurd rfl filled
  | append_singleton front last induction =>
      rw [List.foldl_append, List.foldl_cons, List.foldl_nil]
      by_cases empty : front = []
      · subst empty
        exact ⟨last, by simp, rfl, by simp⟩
      · obtain ⟨oldest, member, found, least⟩ := induction empty
        rw [found, older]
        split
        · rename_i younger
          refine ⟨last, by simp, rfl, List.forall_mem_append.mpr ⟨fun entry inside => ?_, by simp⟩⟩
          exact Nat.le_trans (Nat.le_of_lt younger) (least entry inside)
        · rename_i notYounger
          refine ⟨oldest, by simp [member], rfl, List.forall_mem_append.mpr ⟨least, ?_⟩⟩
          simpa using notYounger

theorem oldest_spec {entries : List CacheEntry} (filled : entries ≠ []) : ∃ oldest ∈ entries,
    oldest? entries = some oldest.key ∧ ∀ entry ∈ entries, oldest.inserted ≤ entry.inserted := by
  obtain ⟨oldest, member, found, least⟩ := oldest_of_fold filled
  exact ⟨oldest, member, congrArg (Option.map CacheEntry.key) found, least⟩

/-- What is not kept: translations with errors, and those that are not sure enough. -/
def Refuses (config : CacheConfig) (value : CachedTranslation) : Prop :=
  (∃ result ∈ value.validation, result.verdict = .error) ∨
    (Binary64.finite value.confidence).isBelow config.minConfidence = true

theorem acceptable_eq_false_iff (enabled : cache.isEnabled = true) :
    cache.isAcceptable value = false ↔ Refuses cache.config value := by
  cases found : value.validation with
  | none => simp [isAcceptable, Refuses, enabled, found]
  | some result => simp [isAcceptable, Refuses, enabled, found, Classical.or_iff_not_imp_left]

theorem insert_refused (refused : cache.isAcceptable value = false) :
    cache.insert now key value = (false, cache) := by
  rw [insert, refused]
  rfl

theorem inserts_iff : (cache.insert now key value).1 = true ↔ cache.isAcceptable value = true := by
  rw [insert]
  cases cache.isAcceptable value <;> simp

/-- The entries that stay when one is inserted under a key. -/
def others (cache : Cache) (now : Nat) (key : String) : List CacheEntry :=
  without (cache.evict key (cache.entries.filter (cache.isFresh now))) key

theorem entries_inserted (accepted : cache.isAcceptable value = true) :
    (cache.insert now key value).2.entries = cache.others now key ++ [⟨key, value, now⟩] := by
  rw [insert, accepted]
  rfl

theorem evict_sublist (entries : List CacheEntry) : (cache.evict key entries).Sublist entries := by
  rw [evict]
  split
  · exact List.Sublist.refl _
  · cases oldest? entries with
    | none => exact List.Sublist.refl _
    | some oldest => exact List.filter_sublist

theorem others_sublist : (cache.others now key).Sublist (cache.entries.filter (cache.isFresh now)) :=
  List.filter_sublist.trans (evict_sublist _)

theorem key_of_others : ∀ entry ∈ cache.others now key, entry.key ≠ key := by
  intro entry member
  simpa using (List.mem_filter.mp member).2

theorem mem_insert {entry : CacheEntry} (member : entry ∈ (cache.insert now key value).2.entries) :
    entry ∈ cache.entries ∨ entry = ⟨key, value, now⟩ := by
  cases accepted : cache.isAcceptable value with
  | false =>
      rw [insert_refused accepted] at member
      exact .inl member
  | true =>
      rw [entries_inserted accepted, List.mem_append, List.mem_singleton] at member
      exact member.imp_left fun stays => List.mem_of_mem_filter (others_sublist.subset stays)

/-- A full cache that does not know the key gives up its oldest entry and no other. -/
theorem inserted_full (distinct : Distinct cache.entries) (room : cache.config.maxEntries.toNat ≠ 0)
    (accepted : cache.isAcceptable value = true) (unknown : ¬ cache.Knows key) (full : cache.IsFull now) :
    ∃ before oldest after, cache.entries = before ++ oldest :: after ∧
      (∀ entry ∈ cache.entries, oldest.inserted ≤ entry.inserted) ∧
      (cache.insert now key value).2.entries = before ++ after ++ [⟨key, value, now⟩] := by
  have strange : ∀ entry ∈ cache.entries, entry.key ≠ key := fun entry member same =>
    unknown ⟨entry, member, same⟩
  have filled : cache.entries ≠ [] := by
    intro empty
    exact room (by rw [← full.length, empty, List.length_nil])
  obtain ⟨oldest, member, found, least⟩ := oldest_spec filled
  obtain ⟨before, after, split, rest⟩ := without_of_mem distinct member
  refine ⟨before, oldest, after, split, least, ?_⟩
  have evicted : cache.evict key cache.entries = before ++ after := by
    rw [evict, if_neg, found, Option.map_some, Option.getD_some, rest]
    simpa [full.length] using strange
  rw [entries_inserted accepted, others, List.filter_eq_self.mpr full.fresh, evicted,
    without_of_unknown]
  intro entry inside
  refine strange entry ?_
  rw [split]
  exact (List.sublist_cons_self oldest after).append_left before |>.subset inside

theorem mem_insert_of_fresh (bound : cache.entries.length ≤ cache.config.maxEntries.toNat) {entry : CacheEntry}
    (member : entry ∈ cache.entries) (fresh : cache.isFresh now entry = true) (other : key ≠ entry.key)
    (spared : cache.isAcceptable value = true → ¬ cache.Knows key → ¬ cache.IsFull now) :
    entry ∈ (cache.insert now key value).2.entries := by
  cases accepted : cache.isAcceptable value with
  | false => rwa [insert_refused accepted]
  | true =>
      have stays : entry ∈ cache.entries.filter (cache.isFresh now) := List.mem_filter.mpr ⟨member, fresh⟩
      have kept : cache.evict key (cache.entries.filter (cache.isFresh now)) =
          cache.entries.filter (cache.isFresh now) := by
        rw [evict, if_pos]
        by_cases known : ∃ entry ∈ cache.entries.filter (cache.isFresh now), entry.key = key
        · obtain ⟨found, inside, same⟩ := known
          rw [Bool.or_eq_true, List.any_eq_true]
          exact .inl ⟨found, inside, by simpa using same⟩
        · rw [Bool.or_eq_true, decide_eq_true_eq]
          refine .inr (Nat.lt_of_not_le fun crowded => ?_)
          -- Nothing was dropped for its age, so the cache was full before.
          have same := List.filter_sublist.eq_of_length_le (Nat.le_trans bound crowded)
          rw [same] at known crowded
          exact spared accepted known ⟨Nat.le_antisymm bound crowded, List.filter_eq_self.mp same⟩
      rw [entries_inserted accepted, others, kept]
      exact List.mem_append_left _ (List.mem_filter.mpr ⟨stays, by simpa using Ne.symm other⟩)

theorem length_without_lt {entries : List CacheEntry} (known : ∃ entry ∈ entries, entry.key = key) :
    (without entries key).length < entries.length :=
  List.length_filter_lt_length_iff_exists.mpr (by simpa using known)

theorem length_others_lt (room : cache.config.maxEntries.toNat ≠ 0)
    (bound : cache.entries.length ≤ cache.config.maxEntries.toNat) :
    (cache.others now key).length < cache.config.maxEntries.toNat := by
  have freshBound := Nat.le_trans (List.length_filter_le (cache.isFresh now) cache.entries) bound
  rw [others, evict]
  generalize cache.entries.filter (cache.isFresh now) = entries at freshBound
  split
  · rename_i spare
    rw [Bool.or_eq_true, List.any_eq_true, decide_eq_true_eq] at spare
    rcases spare with known | spare
    · exact Nat.lt_of_lt_of_le (length_without_lt (by simpa using known)) freshBound
    · exact Nat.lt_of_le_of_lt (List.length_filter_le _ _) spare
  · rename_i crowded
    rw [Bool.or_eq_true, not_or, decide_eq_true_eq, Nat.not_lt] at crowded
    have filled : entries ≠ [] := by
      rintro rfl
      exact room (Nat.le_zero.mp crowded.2)
    obtain ⟨oldest, member, found, _⟩ := oldest_spec filled
    rw [found, Option.map_some, Option.getD_some]
    refine Nat.lt_of_le_of_lt (List.length_filter_le _ _) ?_
    exact Nat.lt_of_lt_of_le (length_without_lt ⟨oldest, member, rfl⟩) freshBound

/-- An access that may drop what could still be served under another key: one that keeps something new
although there is no room for it. -/
def Access.GivesUpOldest (cache : Cache) (now : Nat) : Access → Prop
  | insert key value => cache.isAcceptable value = true ∧ ¬ cache.Knows key ∧ cache.IsFull now
  | look _ | settle _ _ | clear => False

theorem mem_apply (bound : cache.entries.length ≤ cache.config.maxEntries.toNat) {access : Access}
    {entry : CacheEntry} (member : entry ∈ cache.entries) (fresh : cache.isFresh now entry = true)
    (other : access.key? ≠ some entry.key) (kept : access ≠ .clear)
    (spared : ¬ access.GivesUpOldest cache now) : entry ∈ (access.apply cache now).entries := by
  cases access with
  | look key =>
      rw [Access.apply, entries_look]
      exact member
  | settle key sight => exact mem_settle member fun same => other (congrArg some same)
  | insert key value =>
      exact mem_insert_of_fresh bound member fresh (fun same => other (congrArg some same))
        fun accepted unknown full => spared ⟨accepted, unknown, full⟩
  | clear => exact absurd rfl kept

end DetectionRules.Cache
