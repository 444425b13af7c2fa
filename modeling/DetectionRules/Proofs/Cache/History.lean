import DetectionRules.Proofs.Cache.Access

/-!
Caches in use. Between the two accesses of a look-up others may come. However
accesses follow each other, a cache never holds more than it has room for, never
serves what is too old or was replaced, and gives up an entry that could still be
served only for a new one, and then the oldest.
-/

namespace DetectionRules.Cache

structure Event where
  time : Nat
  access : Access

/-- A cache after the accesses of a history, none of which was made before those in front of it, with
the look-ups that are not settled yet. -/
inductive Used (config : CacheConfig) : List Event → List (String × Sight) → Cache → Prop where
  | fresh : Used config [] [] { config }
  | look {history pending cache} (now : Nat) (key : String) (used : Used config history pending cache)
      (later : ∀ event ∈ history, event.time ≤ now) :
      Used config (history ++ [⟨now, .look key⟩]) ((key, (cache.look now key).1) :: pending)
        (cache.look now key).2
  | settle {history before key sight after cache} (now : Nat)
      (used : Used config history (before ++ (key, sight) :: after) cache)
      (later : ∀ event ∈ history, event.time ≤ now) :
      Used config (history ++ [⟨now, .settle key sight⟩]) (before ++ after) (cache.settle key sight).2
  | insert {history pending cache} (now : Nat) (key : String) (value : CachedTranslation)
      (used : Used config history pending cache) (later : ∀ event ∈ history, event.time ≤ now) :
      Used config (history ++ [⟨now, .insert key value⟩]) pending (cache.insert now key value).2
  | clear {history pending cache} (now : Nat) (used : Used config history pending cache)
      (later : ∀ event ∈ history, event.time ≤ now) :
      Used config (history ++ [⟨now, .clear⟩]) pending cache.clear

theorem Used.get {config : CacheConfig} {history : List Event} {pending : List (String × Sight)}
    {cache : Cache} (now : Nat) (key : String) (used : Used config history pending cache)
    (later : ∀ event ∈ history, event.time ≤ now) :
    Used config (history ++ [⟨now, .look key⟩] ++ [⟨now, .settle key (cache.look now key).1⟩]) pending
      (cache.get now key).2 := by
  refine @Used.settle config _ [] key _ pending _ now (.look now key used later) fun event member => ?_
  rcases List.mem_append.mp member with earlier | last
  · exact later event earlier
  · exact Nat.le_of_eq (congrArg Event.time (List.mem_singleton.mp last))

variable {config : CacheConfig} {cache : Cache} {now : Nat} {key : String} {value : CachedTranslation}

/-- After such an access a key no longer stands for what was kept under it before. -/
def Access.Supersedes (config : CacheConfig) (key : String) : Access → Prop
  | insert other value => other = key ∧ isAcceptable { config } value = true
  | clear => True
  | look _ | settle _ _ => False

/-- A value was kept by the last insertion under a key that was accepted, and nothing was cleared
after it. -/
def KeptLast (config : CacheConfig) (history : List Event) (time : Nat) (key : String)
    (value : CachedTranslation) : Prop :=
  isAcceptable { config } value = true ∧ ∃ before after,
    history = before ++ ⟨time, .insert key value⟩ :: after ∧
      ∀ event ∈ after, ¬ event.access.Supersedes config key

/-- What may be served at a time. -/
def Current (config : CacheConfig) (history : List Event) (now : Nat) (key : String)
    (value : CachedTranslation) : Prop :=
  ∃ time ≤ now, now - time < config.ttlSeconds.toNat * 1000 ∧ KeptLast config history time key value

variable {history : List Event} {pending : List (String × Sight)} {event : Event}

theorem KeptLast.later {time : Nat} (kept : KeptLast config history time key value)
    (spared : ¬ event.access.Supersedes config key) :
    KeptLast config (history ++ [event]) time key value := by
  obtain ⟨accepted, before, after, rfl, others⟩ := kept
  refine ⟨accepted, before, after ++ [event], by simp, List.forall_mem_append.mpr ⟨others, ?_⟩⟩
  simpa using spared

theorem KeptLast.mem {time : Nat} (kept : KeptLast config history time key value) :
    ⟨time, .insert key value⟩ ∈ history := by
  obtain ⟨_, before, after, rfl, _⟩ := kept
  simp

theorem kept_last_inserted (accepted : isAcceptable { config } value = true) :
    KeptLast config (history ++ [⟨now, .insert key value⟩]) now key value :=
  ⟨accepted, history, [], rfl, by simp⟩

/-- Each key stands for one entry, which its last insertion made. -/
structure Holds (config : CacheConfig) (history : List Event) (entries : List CacheEntry) : Prop where
  distinct : Distinct entries
  bound : entries.length ≤ config.maxEntries.toNat
  origin : ∀ entry ∈ entries, KeptLast config history entry.inserted entry.key entry.value

theorem Holds.of_sublist {entries left : List CacheEntry} (holds : Holds config history entries)
    (sublist : left.Sublist entries)
    (spared : ∀ entry ∈ left, ¬ event.access.Supersedes config entry.key) :
    Holds config (history ++ [event]) left where
  distinct := holds.distinct.sublist (sublist.map _)
  bound := Nat.le_trans sublist.length_le holds.bound
  origin entry member := (holds.origin entry (sublist.subset member)).later (spared entry member)

theorem Holds.inserted (holds : Holds cache.config history cache.entries)
    (room : cache.config.maxEntries.toNat ≠ 0) :
    Holds cache.config (history ++ [⟨now, .insert key value⟩]) (cache.insert now key value).2.entries := by
  cases accepted : cache.isAcceptable value with
  | false =>
      rw [insert_refused accepted]
      refine holds.of_sublist (List.Sublist.refl _) fun entry _ superseded => ?_
      exact absurd (accepted.symm.trans superseded.2) Bool.false_ne_true
  | true =>
      have left : Holds cache.config (history ++ [⟨now, .insert key value⟩]) (cache.others now key) :=
        holds.of_sublist (others_sublist.trans List.filter_sublist) fun entry member superseded =>
          key_of_others entry member superseded.1.symm
      have last : KeptLast cache.config (history ++ [⟨now, .insert key value⟩]) now key value :=
        kept_last_inserted accepted
      rw [entries_inserted accepted]
      refine ⟨?_, ?_, List.forall_mem_append.mpr ⟨left.origin, by simpa using last⟩⟩
      · rw [Distinct, List.map_append, List.map_singleton, List.nodup_append_comm, List.singleton_append,
          List.nodup_cons]
        refine ⟨fun taken => ?_, left.distinct⟩
        obtain ⟨entry, member, same⟩ := List.mem_map.mp taken
        exact key_of_others entry member same
      · rw [List.length_append, List.length_singleton]
        exact length_others_lt room holds.bound

theorem Used.config_eq (used : Used config history pending cache) : cache.config = config := by
  induction used with
  | fresh => rfl
  | look now key used later induction => rwa [config_look]
  | settle now used later induction => rwa [config_settle]
  | insert now key value used later induction => rwa [config_insert]
  | clear now used later induction => exact induction

theorem Used.holds (used : Used config history pending cache) (room : config.maxEntries.toNat ≠ 0) :
    Holds config history cache.entries := by
  induction used with
  | fresh => exact ⟨List.nodup_nil, Nat.zero_le _, List.forall_mem_nil _⟩
  | look now key used later induction =>
      rw [entries_look]
      exact induction.of_sublist (List.Sublist.refl _) fun _ _ => id
  | settle now used later induction =>
      exact induction.of_sublist (entries_settle_sublist _) fun _ _ => id
  | insert now key value used later induction =>
      obtain rfl := used.config_eq
      exact induction.inserted room
  | clear now used later induction => exact induction.of_sublist (List.nil_sublist _) (List.forall_mem_nil _)

/-- Whatever a look-up sees may be served. -/
theorem Used.current_of_look (used : Used config history pending cache)
    (room : config.maxEntries.toNat ≠ 0) (later : ∀ event ∈ history, event.time ≤ now)
    (hit : (cache.look now key).1 = .hit value) : Current config history now key value := by
  obtain ⟨entry, member, rfl, rfl, fresh⟩ := entry_of_hit hit
  have origin := (used.holds room).origin entry member
  obtain rfl := used.config_eq
  exact ⟨entry.inserted, later _ origin.mem, of_decide_eq_true fresh, origin⟩

/-- A look-up that is not settled yet, with what it saw when it looked. -/
def Saw (config : CacheConfig) (history : List Event) (key : String) (value : CachedTranslation) : Prop :=
  ∃ past now later, history = past ++ ⟨now, .look key⟩ :: later ∧ Current config past now key value

theorem Saw.later (saw : Saw config history key value) : Saw config (history ++ [event]) key value := by
  obtain ⟨past, now, later, rfl, current⟩ := saw
  exact ⟨past, now, later ++ [event], by simp, current⟩

theorem Used.saw (used : Used config history pending cache) (room : config.maxEntries.toNat ≠ 0) :
    ∀ seen ∈ pending, ∀ value, seen.2 = .hit value → Saw config history seen.1 value := by
  induction used with
  | fresh => exact List.forall_mem_nil _
  | look now key used later induction =>
      refine List.forall_mem_cons.mpr ⟨fun value hit => ?_, fun seen member value hit => ?_⟩
      · exact ⟨_, _, [], rfl, used.current_of_look room later hit⟩
      · exact (induction seen member value hit).later
  | settle now used later induction =>
      intro seen member value hit
      refine (induction seen ?_ value hit).later
      rcases List.mem_append.mp member with inside | inside
      · exact List.mem_append_left _ inside
      · exact List.mem_append_right _ (List.mem_cons_of_mem _ inside)
  | insert now key value used later induction | clear now used later induction =>
      exact fun seen member value hit => (induction seen member value hit).later

theorem is_enabled_of_config (enabled : cache.config.enabled = true)
    (room : cache.config.maxEntries.toNat ≠ 0) : cache.isEnabled = true := by
  rw [isEnabled, enabled, Bool.true_and, bne_iff_ne]
  exact fun none => room (congrArg UInt64.toNat none)

/-- Every look-up counts once, as soon as it is a hit or is settled. -/
theorem Used.counts (used : Used config history pending cache) (enabled : config.enabled = true)
    (room : config.maxEntries.toNat ≠ 0) : (∀ seen ∈ pending, seen.2 ≠ .disabled) ∧
      cache.hits + cache.misses + pending.countP (·.2.isMiss) = history.countP (·.access.isLook) := by
  induction used with
  | fresh => exact ⟨List.forall_mem_nil _, rfl⟩
  | @look history pending cache now key used later induction =>
      obtain rfl := used.config_eq
      obtain ⟨seen, counted⟩ := @counts_look cache now key (is_enabled_of_config enabled room)
      refine ⟨List.forall_mem_cons.mpr ⟨seen, induction.1⟩, ?_⟩
      rw [List.countP_append, ← induction.2, List.countP_cons]
      simp only [List.countP_singleton, Access.isLook, if_true]
      omega
  | @settle history before key sight after cache now used later induction =>
      rw [List.forall_mem_append, List.forall_mem_cons] at induction
      obtain ⟨⟨front, seen, back⟩, counted⟩ := induction
      refine ⟨List.forall_mem_append.mpr ⟨front, back⟩, ?_⟩
      rw [List.countP_append, List.countP_cons] at counted
      rw [counts_settle seen, List.countP_append, List.countP_append, ← counted]
      simp only [List.countP_singleton, Access.isLook, Bool.false_eq_true, if_false]
      omega
  | @insert history pending cache now key value used later induction =>
      obtain ⟨hits, misses⟩ := @counts_insert cache now key value
      rw [hits, misses, List.countP_append]
      exact induction
  | clear now used later induction =>
      rw [List.countP_append]
      exact induction

structure Bounded (config : CacheConfig) (history : List Event) (pending : List (String × Sight))
    (cache : Cache) : Prop where
  size : cache.entries.length ≤ config.maxEntries.toNat
  /-- A look-up that is settled at once finds what may be served then. -/
  found : ∀ now key value, (∀ event ∈ history, event.time ≤ now) →
    (cache.get now key).1 = some value → Current config history now key value
  /-- A look-up that is settled later finds what could be served when it looked. -/
  answered : ∀ key sight value, (key, sight) ∈ pending → (cache.settle key sight).1 = some value →
    Saw config history key value
  /-- A full cache makes room for a new key by giving up one entry, the oldest. -/
  oldest : ∀ now key value, (cache.insert now key value).1 = true → ¬ cache.Knows key →
    cache.IsFull now → ∃ before oldest after, cache.entries = before ++ oldest :: after ∧
      (∀ entry ∈ cache.entries, oldest.inserted ≤ entry.inserted) ∧
      (cache.insert now key value).2.entries = before ++ after ++ [⟨key, value, now⟩]
  /-- Nothing else that could still be served is lost, unless all is. -/
  others : ∀ (now : Nat) (access : Access) (entry : CacheEntry), entry ∈ cache.entries → cache.isFresh now entry = true →
    access.key? ≠ some entry.key → access ≠ .clear →
      entry ∈ (access.apply cache now).entries ∨ access.GivesUpOldest cache now
  refused : ∀ now key value, Refuses config value → cache.insert now key value = (false, cache)
  accepted : ∀ now key value, ¬ Refuses config value →
    (cache.insert now key value).1 = true ∧ ⟨key, value, now⟩ ∈ (cache.insert now key value).2.entries
  counted : cache.hits + cache.misses + pending.countP (·.2.isMiss) =
    history.countP (·.access.isLook)

/-- However an enabled cache is looked up in, added to and cleared, it keeps its bounds. -/
theorem bounded_of_used (enabled : config.enabled = true) (room : 1 ≤ config.maxEntries)
    (used : Used config history pending cache) : Bounded config history pending cache := by
  have capacity : config.maxEntries.toNat ≠ 0 := by
    have least := UInt64.le_iff_toNat_le.mp room
    exact Nat.ne_of_gt least
  have holds := used.holds capacity
  obtain rfl := used.config_eq
  have isEnabled := is_enabled_of_config enabled capacity
  constructor
  case size =>
    exact holds.bound
  case found =>
    intro now key value later found
    exact used.current_of_look capacity later (hit_of_settle found)
  case answered =>
    intro key sight value member found
    exact used.saw capacity _ member value (hit_of_settle found)
  case oldest =>
    intro now key value kept unknown full
    exact inserted_full holds.distinct capacity (inserts_iff.mp kept) unknown full
  case others =>
    intro now access entry member fresh other kept
    exact or_iff_not_imp_right.mpr (mem_apply holds.bound member fresh other kept)
  case refused =>
    intro now key value refuses
    exact insert_refused ((acceptable_eq_false_iff isEnabled).mpr refuses)
  case accepted =>
    intro now key value admitted
    have accepted : cache.isAcceptable value = true := by
      rw [← Bool.not_eq_false, acceptable_eq_false_iff isEnabled]
      exact admitted
    refine ⟨inserts_iff.mpr accepted, ?_⟩
    rw [entries_inserted accepted]
    simp
  case counted =>
    exact (used.counts enabled capacity).2

def small : CacheConfig := { ttlSeconds := 1, maxEntries := 2 }

def sure : CachedTranslation := ⟨"EventID: 4625", 99, none⟩

def busyHistory (sight settled : Sight) : List Event :=
  [⟨0, .insert "a" sure⟩, ⟨5, .insert "b" sure⟩, ⟨1000, .look "a"⟩, ⟨1002, .look "b"⟩,
    ⟨1002, .settle "b" settled⟩, ⟨1003, .insert "a" sure⟩, ⟨1004, .settle "a" sight⟩, ⟨2000, .clear⟩,
    ⟨2000, .insert "c" sure⟩]

theorem small_cache_bounded : small.enabled = true ∧ 1 ≤ small.maxEntries ∧
    ∃ sight settled cache, Used small (busyHistory sight settled) [] cache ∧
      Bounded small (busyHistory sight settled) [] cache := by
  have empty : Used small [] [] { config := small } := .fresh
  have filled := (empty.insert 0 "a" sure (by simp)).insert 5 "b" sure (by simp)
  have looked := ((filled.look 1000 "a" (by simp)).get 1002 "b" (by simp)).insert 1003 "a" sure (by simp)
  have settled := @Used.settle small _ [] _ _ _ _ 1004 looked (by simp)
  have used := (settled.clear 2000 (by simp)).insert 2000 "c" sure (by simp)
  exact ⟨rfl, by decide, _, _, _, used, bounded_of_used rfl (by decide) used⟩

end DetectionRules.Cache
