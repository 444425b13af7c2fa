import DetectionRules.Number.Binary64
import DetectionRules.Time.Activity

/-!
Further attempts at what failed for a reason that may pass. Between two attempts
there is a delay, the same each time or growing by a factor up to a longest
delay. Growing delays are worked out in seconds as floating point numbers.
-/

namespace DetectionRules

/-- Delays between attempts. Times are milliseconds. -/
inductive Backoff where
  | fixed (delay : Nat)
  | exponential (initial : Nat) (factor : Binary64) (longest : Nat)

namespace Backoff

def seconds (milliseconds : Nat) : Rat :=
  Binary64.round (Binary64.round ((milliseconds / 1000 : Nat) : Rat)
    + Binary64.round (mkRat (milliseconds % 1000 : Nat) 1000))

/-- A power by repeated squaring, with `product` for what was multiplied so far. -/
def powerFrom (product factor : Rat) (exponent : Nat) : Option Rat := do
  let product ← if exponent % 2 = 1 then Binary64.nearest? (product * factor) else some product
  if 1 < exponent then
    powerFrom product (← Binary64.nearest? (factor * factor)) (exponent / 2)
  else some product

/-- The absolute value of a power, if it is finite. -/
def magnitude (factor : Rat) (exponent : Nat) : Option Rat :=
  powerFrom 1 (if factor < 0 then -factor else factor) exponent

def nanoseconds (seconds : Rat) : Nat := (roundHalfEven (seconds * 1000000000)).toNat

/-- The initial delay times a power of a factor, up to the longest delay and down to none, in
nanoseconds. -/
def grown (initial longest : Nat) (factor : Rat) (exponent : Nat) : Nat :=
  let isNegative := factor < 0 && exponent % 2 == 1
  match magnitude factor exponent with
  | none => if isNegative && initial != 0 then 0 else nanoseconds (seconds longest)
  | some power =>
      if isNegative then 0
      else match Binary64.nearest? (seconds initial * power) with
        | some delay => nanoseconds (if seconds longest < delay then seconds longest else delay)
        | none => nanoseconds (seconds longest)

/-- The delay after an attempt, in nanoseconds; attempts count from one. -/
def delay (attempt : Nat) : Backoff → Nat
  | fixed delay => delay * 1000000
  | exponential initial factor longest =>
      let exponent := min (attempt - 1) 32
      match factor.toRat? with
      | some factor => grown initial longest factor exponent
      | none =>
          if exponent = 0 then grown initial longest 1 0
          else if factor = .infinite true && exponent % 2 == 1 && initial != 0 then 0
          else nanoseconds (seconds longest)

/-- The delay as a clock that ticks in milliseconds has it. -/
def ticks (backoff : Backoff) (attempt : Nat) : Nat := (backoff.delay attempt + 999999) / 1000000

end Backoff

structure RetryPolicy (Failure : Type) where
  /-- How many attempts there are at most; the first is always made. -/
  maxAttempts : Nat
  backoff : Backoff
  isRetryable : Failure → Bool

namespace RetryPolicy

variable {World Failure Result : Type}

def runFrom (policy : RetryPolicy Failure) (attempt : Nat → Activity World (Except Failure Result))
    (number : Nat) : Nat → Activity World (Except Failure Result × Nat)
  | 0 => do return (← attempt number, number)
  | more + 1 => do
      match ← attempt number with
      | .ok result => return (.ok result, number)
      | .error failure =>
          if policy.isRetryable failure then do
            Activity.pause (policy.backoff.ticks number)
            runFrom policy attempt (number + 1) more
          else return (.error failure, number)

/-- The outcome of the last attempt that was made, and its number. -/
def run (policy : RetryPolicy Failure) (attempt : Nat → Activity World (Except Failure Result)) :
    Activity World (Except Failure Result × Nat) :=
  policy.runFrom attempt 1 (policy.maxAttempts - 1)

end RetryPolicy

end DetectionRules
