/-!
Floating point numbers of 64 bits. Finite ones are the rationals they stand for,
and an operation on them is the exact operation followed by `nearest?`; what is
too large for any finite number is `none`. The type `Binary64` has in addition
what is not finite and the zero with a sign, for numbers that come from outside.
-/

namespace DetectionRules

/-- The integer nearest to a rational; halfway between two, the even one. -/
def roundHalfEven (x : Rat) : Int :=
  let below := x.floor
  let rest := x - below
  if rest < 1 / 2 then below
  else if 1 / 2 < rest then below + 1
  else if below % 2 = 0 then below
  else below + 1

/-- The integer nearest to a rational; halfway between two, the one away from zero. -/
def roundHalfAway (x : Rat) : Int :=
  if 0 ≤ x then (x + 1 / 2).floor else -((-x + 1 / 2).floor)

/-- A floating point number of 64 bits, with the two zeros apart. -/
inductive Binary64 where
  | finite (value : Rat)
  | negativeZero
  | infinite (isNegative : Bool)
  | nan
deriving DecidableEq

namespace Binary64

def powerOfTwo (exponent : Int) : Rat :=
  if 0 ≤ exponent then (Nat.pow 2 exponent.toNat : Rat) else mkRat 1 (Nat.pow 2 (-exponent).toNat)

/-- The exponent of the largest power of two that is not above a positive rational. -/
def binaryExponent (x : Rat) : Int :=
  let guess : Int := (x.num.natAbs.log2 : Int) - (x.den.log2 : Int)
  if x < powerOfTwo guess then guess - 1 else guess

/-- The distance between the numbers around a positive rational. -/
def spacing (x : Rat) : Rat := powerOfTwo (max (binaryExponent x - 52) (-1074))

def roundPositive (x : Rat) : Rat := (roundHalfEven (x / spacing x) : Rat) * spacing x

def round (x : Rat) : Rat :=
  if x = 0 then 0 else if 0 < x then roundPositive x else -roundPositive (-x)

/-- The first power of two that no finite number reaches. -/
def limit : Rat := powerOfTwo 1024

/-- The number nearest to a rational, if it is finite. -/
def nearest? (x : Rat) : Option Rat :=
  let rounded := round x
  if -limit < rounded ∧ rounded < limit then some rounded else none

def signed (isNegative : Bool) (magnitude : Rat) : Binary64 :=
  if !isNegative then finite magnitude
  else if magnitude = 0 then negativeZero
  else finite (-magnitude)

def toRat? : Binary64 → Option Rat
  | finite value => some value
  | negativeZero => some 0
  | infinite _ | nan => none

/-- Where a number lies: before the finite ones, among them or behind them, and where there. -/
def place? : Binary64 → Option (Int × Rat)
  | finite value => some (0, value)
  | negativeZero => some (0, 0)
  | infinite isNegative => some (if isNegative then -1 else 1, 0)
  | nan => none

/-- Whether a number comes before another; `nan` comes before none and none before it. -/
def isBelow (first second : Binary64) : Bool :=
  match first.place?, second.place? with
  | some (side, value), some (otherSide, other) =>
      side < otherSide || (side == otherSide && value < other)
  | _, _ => false

def isAtMost (first second : Binary64) : Bool :=
  match first.place?, second.place? with
  | some (side, value), some (otherSide, other) =>
      side < otherSide || (side == otherSide && value ≤ other)
  | _, _ => false

def isWithin (low high : Rat) (number : Binary64) : Bool :=
  number.toRat?.any fun value => low ≤ value && value ≤ high

end Binary64

end DetectionRules
