import DetectionRules.Number.Binary64

/-!
Decimal text of floating point numbers: the fewest digits that read back as the
same number, and a fixed number of places.
-/

namespace DetectionRules.Number

/-- An integer times a power of ten. -/
structure Decimal where
  digits : Nat
  exponent : Int

def powerOfTen (exponent : Int) : Rat :=
  if 0 ≤ exponent then (Nat.pow 10 exponent.toNat : Rat) else mkRat 1 (Nat.pow 10 (-exponent).toNat)

def Decimal.toRat (decimal : Decimal) : Rat := (decimal.digits : Rat) * powerOfTen decimal.exponent

/-- The exponent of the largest power of ten that is not above a positive rational. -/
def decimalExponent (x : Rat) : Int :=
  let guess : Int := ((Nat.toDigits 10 x.num.natAbs).length : Int) - (Nat.toDigits 10 x.den).length
  if x < powerOfTen guess then guess - 1 else guess

/-- The nearer of the two neighbours of `x` among the multiples of a power of ten, of those
that read back as `x`. -/
def neighbour? (x : Rat) (exponent : Int) : Option Decimal :=
  let below := (x / powerOfTen exponent).floor.toNat
  let candidates := [Decimal.mk below exponent, Decimal.mk (below + 1) exponent].filter
    fun decimal => Binary64.round decimal.toRat == x
  match candidates with
  | [low, high] => some (if high.toRat - x < x - low.toRat then high else low)
  | decimal :: _ => some decimal
  | [] => none

/-- The fewest digits that read back as a positive number, at least `digits` of them. -/
def shortestFrom (x : Rat) (digits : Nat) : Nat → Decimal
  | 0 => ⟨(x / powerOfTen (decimalExponent x - digits)).floor.toNat, decimalExponent x - digits⟩
  | more + 1 =>
      match neighbour? x (decimalExponent x - digits) with
      | some decimal => decimal
      | none => shortestFrom x (digits + 1) more

def shortest (x : Rat) : Decimal := shortestFrom x 0 17

def digitsText (digits : Nat) : List Char := Nat.toDigits 10 digits

/-- Puts the point before the last `places` of the digits. -/
def pointed (digits : Nat) (places : Nat) : List Char :=
  let text := digitsText digits
  let padded := List.replicate (places + 1 - text.length) '0' ++ text
  let whole := padded.take (padded.length - places)
  if places = 0 then whole else whole ++ '.' :: padded.drop (padded.length - places)

def Decimal.trimmed (decimal : Decimal) : Nat → Decimal
  | 0 => decimal
  | steps + 1 =>
      if decimal.exponent < 0 ∧ decimal.digits % 10 = 0 then
        Decimal.trimmed ⟨decimal.digits / 10, decimal.exponent + 1⟩ steps
      else decimal

def Decimal.withoutZeros (decimal : Decimal) : Nat → Decimal
  | 0 => decimal
  | steps + 1 =>
      if decimal.digits % 10 = 0 then
        Decimal.withoutZeros ⟨decimal.digits / 10, decimal.exponent + 1⟩ steps
      else decimal

/-- The text with a point or an exponent, which numbers from 10¹⁶ on and below 10⁻⁵ have. -/
def Decimal.pointedText (decimal : Decimal) : List Char :=
  let decimal := decimal.withoutZeros (digitsText decimal.digits).length
  let digits := digitsText decimal.digits
  let point : Int := digits.length + decimal.exponent
  if 0 ≤ decimal.exponent && point ≤ 16 then
    digits ++ List.replicate decimal.exponent.toNat '0' ++ ['.', '0']
  else if -5 < point && point ≤ 16 then pointed decimal.digits (-decimal.exponent).toNat
  else
    let exponent := (toString (point - 1)).toList
    match digits with
    | first :: second :: others => first :: '.' :: second :: others ++ 'e' :: exponent
    | digits => digits ++ 'e' :: exponent

def Decimal.text (decimal : Decimal) : List Char :=
  if 0 ≤ decimal.exponent then digitsText (decimal.digits * Nat.pow 10 decimal.exponent.toNat)
  else
    let decimal := decimal.trimmed (-decimal.exponent).toNat
    pointed decimal.digits (-decimal.exponent).toNat

/-- The fewest digits that read back, without an exponent; whole numbers have no point. -/
def text (x : Rat) : String :=
  if x = 0 then "0"
  else if 0 < x then String.ofList (shortest x).text
  else String.ofList ('-' :: (shortest (-x)).text)

/-- A fixed number of places; halfway between two texts, the one that ends in an even digit. -/
def fixed (places : Nat) (x : Rat) : String :=
  let scaled := roundHalfEven (x * (Nat.pow 10 places : Rat))
  let text := pointed scaled.natAbs places
  String.ofList (if x < 0 then '-' :: text else text)

end DetectionRules.Number

namespace DetectionRules.Binary64

/-- A text from those of finite numbers and the words for what is not finite. -/
def textBy (finiteText : Rat → String) (infinity notANumber : String) : Binary64 → String
  | finite value => finiteText value
  | negativeZero => "-" ++ finiteText 0
  | infinite isNegative => (if isNegative then "-" else "") ++ infinity
  | nan => notANumber

def text : Binary64 → String := textBy Number.text "inf" "NaN"

def fixed (places : Nat) : Binary64 → String := textBy (Number.fixed places) "inf" "NaN"

end DetectionRules.Binary64
