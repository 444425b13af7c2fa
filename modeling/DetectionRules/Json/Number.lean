import DetectionRules.Json.Basic

/-!
Numbers in JSON text. Digits are gathered as long as 64 bits hold them; those
that follow only scale the number. A fault is given by the bytes read up to it.
-/

namespace DetectionRules.Json.Number

/-- Digits gathered into a number, and how many digits did not fit. -/
structure Gathered where
  significand : Nat
  /-- The power of ten that the significand is to be scaled by. -/
  exponent : Int
  full : Bool

def Gathered.addWhole (gathered : Gathered) (digit : Char) : Gathered :=
  let next := gathered.significand * 10 + (digit.toNat - '0'.toNat)
  if gathered.full || UInt64.size ≤ next then
    { gathered with exponent := gathered.exponent + 1, full := true }
  else { gathered with significand := next }

def Gathered.addFraction (gathered : Gathered) (digit : Char) : Gathered :=
  let next := gathered.significand * 10 + (digit.toNat - '0'.toNat)
  if gathered.full || UInt64.size ≤ next then { gathered with full := true }
  else { gathered with significand := next, exponent := gathered.exponent - 1 }

def maxTenPower : Nat := 308

/-- Multiplies a floating point number by a power of ten, in steps that a power of ten with a
floating point value allows. -/
def scale (number : Rat) (exponent : Int) : Option Rat :=
  if exponent.natAbs ≤ maxTenPower then
    let power := Binary64.round (Nat.pow 10 exponent.natAbs)
    Binary64.nearest? (if 0 ≤ exponent then number * power else number / power)
  else if number = 0 then some 0
  else if 0 ≤ exponent then none
  else scale (Binary64.round (number / Binary64.round (Nat.pow 10 maxTenPower)))
    (exponent + maxTenPower)
termination_by exponent.natAbs
decreasing_by simp only [maxTenPower] at *; omega

/-- The characters of the exponent after its letter, and its value. -/
def exponent? (offset : Nat) (characters : List Char) : Except Nat (Nat × Int) :=
  let (signs, negative, rest) := match characters with
    | '+' :: rest => (1, false, rest)
    | '-' :: rest => (1, true, rest)
    | rest => (0, false, rest)
  match rest with
  | [] => .error (offset + signs)
  | c :: _ =>
      if !c.isDigit then .error (offset + signs + 1)
      else
        let digits := rest.takeWhile Char.isDigit
        let value : Int := digits.foldl (fun number c => number * 10 + (c.toNat - '0'.toNat)) 0
        .ok (signs + digits.length, if negative then -value else value)

def peeked (offset : Nat) (rest : List Char) : Nat := if rest.isEmpty then offset else offset + 1

/-- A number with an exponent or a fraction, after `size` characters. -/
def float (offset size : Nat) (negative : Bool) (gathered : Gathered) (rest : List Char) :
    Except Nat (Json × Nat) := do
  let (exponentSize, exponent) ← match rest with
    | c :: rest =>
        if c = 'e' ∨ c = 'E' then do
          let (taken, value) ← exponent? (offset + size + 1) rest
          pure (taken + 1, value)
        else pure (0, 0)
    | [] => pure (0, 0)
  let size := size + exponentSize
  match scale (Binary64.round gathered.significand) (gathered.exponent + exponent) with
  | some value => return (.float (.signed negative value), size)
  | none => throw (offset + size)

/-- Reads the digits of a number whose sign takes `signs` characters. -/
def unsigned (offset signs : Nat) (negative : Bool) (characters : List Char) :
    Except Nat (Json × Nat) :=
  match characters with
  | [] => .error (offset + signs)
  | first :: others =>
      if !first.isDigit then .error (offset + signs + 1)
      else if first = '0' && others.head?.any Char.isDigit then .error (offset + signs + 2)
      else
        let digits := if first = '0' then [first] else characters.takeWhile Char.isDigit
        let gathered := digits.foldl Gathered.addWhole ⟨0, 0, false⟩
        let size := signs + digits.length
        let rest := characters.drop digits.length
        match rest with
        | '.' :: fraction =>
            let places := fraction.takeWhile Char.isDigit
            if places.isEmpty then .error (peeked (offset + size + 1) fraction)
            else float offset (size + 1 + places.length) negative
              (places.foldl Gathered.addFraction { gathered with full := false })
              (fraction.drop places.length)
        | c :: _ =>
            if c = 'e' ∨ c = 'E' then float offset size negative gathered rest
            else integer offset size negative gathered
        | [] => integer offset size negative gathered
where
  integer (offset size : Nat) (negative : Bool) (gathered : Gathered) : Except Nat (Json × Nat) :=
    if gathered.full || (negative && (gathered.significand = 0 || Int64.minValue.toInt.natAbs < gathered.significand))
    then float offset size negative gathered []
    else .ok (.int (if negative then -(gathered.significand : Int) else gathered.significand), size)

def read (offset : Nat) (characters : List Char) : Except Nat (Json × Nat) :=
  match characters with
  | '-' :: rest => unsigned offset 1 true rest
  | characters => unsigned offset 0 false characters

end DetectionRules.Json.Number
