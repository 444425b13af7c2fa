import DetectionRules.Config.Basic
import DetectionRules.Validation.Result

/-!
The hash function SHA-256 on bytes: the message is padded to whole blocks of
sixteen words, and each block takes sixty-four rounds on eight words.

Translations that were made before. An entry lasts for a fixed time, and a full
cache gives up its oldest entry for a new one. Only translations that are sure
enough and without errors are kept. Times are milliseconds.
-/

namespace DetectionRules.Sha256

def roundConstants : Array UInt32 := #[
  0x428a2f98, 0x71374491, 0xb5c0fbcf, 0xe9b5dba5, 0x3956c25b, 0x59f111f1, 0x923f82a4, 0xab1c5ed5,
  0xd807aa98, 0x12835b01, 0x243185be, 0x550c7dc3, 0x72be5d74, 0x80deb1fe, 0x9bdc06a7, 0xc19bf174,
  0xe49b69c1, 0xefbe4786, 0x0fc19dc6, 0x240ca1cc, 0x2de92c6f, 0x4a7484aa, 0x5cb0a9dc, 0x76f988da,
  0x983e5152, 0xa831c66d, 0xb00327c8, 0xbf597fc7, 0xc6e00bf3, 0xd5a79147, 0x06ca6351, 0x14292967,
  0x27b70a85, 0x2e1b2138, 0x4d2c6dfc, 0x53380d13, 0x650a7354, 0x766a0abb, 0x81c2c92e, 0x92722c85,
  0xa2bfe8a1, 0xa81a664b, 0xc24b8b70, 0xc76c51a3, 0xd192e819, 0xd6990624, 0xf40e3585, 0x106aa070,
  0x19a4c116, 0x1e376c08, 0x2748774c, 0x34b0bcb5, 0x391c0cb3, 0x4ed8aa4a, 0x5b9cca4f, 0x682e6ff3,
  0x748f82ee, 0x78a5636f, 0x84c87814, 0x8cc70208, 0x90befffa, 0xa4506ceb, 0xbef9a3f7, 0xc67178f2]

/-- The eight words that a block changes. -/
structure State where
  a : UInt32
  b : UInt32
  c : UInt32
  d : UInt32
  e : UInt32
  f : UInt32
  g : UInt32
  h : UInt32

def initial : State :=
  ⟨0x6a09e667, 0xbb67ae85, 0x3c6ef372, 0xa54ff53a, 0x510e527f, 0x9b05688c, 0x1f83d9ab, 0x5be0cd19⟩

def rotateRight (word amount : UInt32) : UInt32 := (word >>> amount) ||| (word <<< (32 - amount))

def smallSigma0 (word : UInt32) : UInt32 :=
  rotateRight word 7 ^^^ rotateRight word 18 ^^^ (word >>> 3)

def smallSigma1 (word : UInt32) : UInt32 :=
  rotateRight word 17 ^^^ rotateRight word 19 ^^^ (word >>> 10)

def largeSigma0 (word : UInt32) : UInt32 :=
  rotateRight word 2 ^^^ rotateRight word 13 ^^^ rotateRight word 22

def largeSigma1 (word : UInt32) : UInt32 :=
  rotateRight word 6 ^^^ rotateRight word 11 ^^^ rotateRight word 25

def choose (e f g : UInt32) : UInt32 := (e &&& f) ^^^ (~~~e &&& g)

def majority (a b c : UInt32) : UInt32 := (a &&& b) ^^^ (a &&& c) ^^^ (b &&& c)

/-- The words of a block followed by those worked out from them, sixty-four in all. -/
def schedule (block : Array UInt32) : Array UInt32 :=
  (List.range 48).foldl (fun words index =>
    words.push (smallSigma1 (words.getD (index + 14) 0) + words.getD (index + 9) 0
      + smallSigma0 (words.getD (index + 1) 0) + words.getD index 0)) block

def round (state : State) (constant word : UInt32) : State :=
  let first := state.h + largeSigma1 state.e + choose state.e state.f state.g + constant + word
  let second := largeSigma0 state.a + majority state.a state.b state.c
  ⟨first + second, state.a, state.b, state.c, state.d + first, state.e, state.f, state.g⟩

def compress (state : State) (block : Array UInt32) : State :=
  let words := schedule block
  let last := (List.range 64).foldl (fun state index =>
    round state (roundConstants.getD index 0) (words.getD index 0)) state
  ⟨state.a + last.a, state.b + last.b, state.c + last.c, state.d + last.d, state.e + last.e,
    state.f + last.f, state.g + last.g, state.h + last.h⟩

/-- A number in eight bytes, the highest first. -/
def eightBytes (number : Nat) : List UInt8 :=
  (List.range 8).map fun index => UInt8.ofNat (number >>> (8 * (7 - index)))

/-- The message, a single bit, zeros up to a whole block, and the number of bits. -/
def padded (message : List UInt8) : List UInt8 :=
  let zeros := (119 - message.length % 64) % 64
  message ++ 0x80 :: (List.replicate zeros 0 ++ eightBytes (message.length * 8))

def words : List UInt8 → List UInt32
  | a :: b :: c :: d :: rest =>
      ((a.toUInt32 <<< 24) ||| (b.toUInt32 <<< 16) ||| (c.toUInt32 <<< 8) ||| d.toUInt32) ::
        words rest
  | _ => []

def blocks (words : List UInt32) : List (Array UInt32) :=
  match words with
  | [] => []
  | word :: rest => (word :: rest.take 15).toArray :: blocks (rest.drop 15)
termination_by words.length

def hexWord (word : UInt32) : List Char :=
  let digits := Nat.toDigits 16 word.toNat
  List.replicate (8 - digits.length) '0' ++ digits

def hex (message : List UInt8) : String :=
  let state := (blocks (words (padded message))).foldl compress initial
  String.ofList ([state.a, state.b, state.c, state.d, state.e, state.f, state.g, state.h].flatMap
    hexWord)

end DetectionRules.Sha256

namespace DetectionRules

structure CachedTranslation where
  text : String
  confidence : Rat
  validation : Option ValidationResult

structure CacheEntry where
  key : String
  value : CachedTranslation
  inserted : Nat

structure Cache where
  config : CacheConfig
  /-- In the order of their insertion. -/
  entries : List CacheEntry := []
  hits : Nat := 0
  misses : Nat := 0

namespace Cache

def isEnabled (cache : Cache) : Bool := cache.config.enabled && cache.config.maxEntries != 0

def isFresh (cache : Cache) (now : Nat) (entry : CacheEntry) : Bool :=
  now - entry.inserted < cache.config.ttlSeconds.toNat * 1000

def find? (cache : Cache) (key : String) : Option CacheEntry := cache.entries.find? (·.key == key)

def without (entries : List CacheEntry) (key : String) : List CacheEntry :=
  entries.filter (·.key != key)

inductive Sight where
  | disabled
  | hit (value : CachedTranslation)
  | expired
  | absent

/-- Looks a key up and counts a hit. -/
def look (cache : Cache) (now : Nat) (key : String) : Sight × Cache :=
  if !cache.isEnabled then (.disabled, cache)
  else
    match cache.find? key with
    | some entry =>
        if cache.isFresh now entry then (.hit entry.value, { cache with hits := cache.hits + 1 })
        else (.expired, cache)
    | none => (.absent, cache)

/-- Does what a look-up leaves to do: drops an entry that was too old, and counts a miss. -/
def settle (cache : Cache) (key : String) : Sight → Option CachedTranslation × Cache
  | .disabled => (none, cache)
  | .hit value => (some value, cache)
  | .expired => (none, { cache with
      entries := without cache.entries key, misses := cache.misses + 1 })
  | .absent => (none, { cache with misses := cache.misses + 1 })

/-- Looks a key up and settles it at once. -/
def get (cache : Cache) (now : Nat) (key : String) : Option CachedTranslation × Cache :=
  let (sight, cache) := cache.look now key
  cache.settle key sight

def isAcceptable (cache : Cache) (value : CachedTranslation) : Bool :=
  cache.isEnabled && !value.validation.any (·.verdict == .error) &&
    !(Binary64.finite value.confidence).isBelow cache.config.minConfidence

def oldest? (entries : List CacheEntry) : Option String :=
  (entries.foldl (fun oldest entry =>
    match oldest with
    | some other => if entry.inserted < other.inserted then some entry else some other
    | none => some entry) none).map CacheEntry.key

def evict (cache : Cache) (key : String) (entries : List CacheEntry) : List CacheEntry :=
  if entries.any (·.key == key) || entries.length < cache.config.maxEntries.toNat then entries
  else ((oldest? entries).map (without entries)).getD entries

/-- Keeps a translation, and says whether it did. -/
def insert (cache : Cache) (now : Nat) (key : String) (value : CachedTranslation) : Bool × Cache :=
  if cache.isAcceptable value then
    let entries := cache.evict key (cache.entries.filter (cache.isFresh now))
    (true, { cache with entries := without entries key ++ [⟨key, value, now⟩] })
  else (false, cache)

def clear (cache : Cache) : Cache := { cache with entries := [] }

def hitRate (rounded : Rat → Rat) (cache : Cache) : Rat :=
  if cache.hits + cache.misses = 0 then 0
  else rounded (mkRat (cache.hits : Nat) (cache.hits + cache.misses))

end Cache

end DetectionRules
