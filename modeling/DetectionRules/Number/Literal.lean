import DetectionRules.Number.Text
import DetectionRules.Text.Basic

/-!
Decimal literals. Digits may stand before or behind a point, or on both sides of
it, and an exponent may follow them.

Numbers that are typed in, and what is said of texts that are no numbers.
-/

namespace DetectionRules.Number

/-- The power of ten after the letter of an exponent, or zero if nothing is there. -/
def exponentLiteral? : List Char → Option Int
  | [] => some 0
  | letter :: rest =>
      if letter = 'e' || letter = 'E' then
        let (isNegative, digits) := match rest with
          | '-' :: digits => (true, digits)
          | '+' :: digits => (false, digits)
          | digits => (false, digits)
        if Text.isDigits digits then
          let power : Int := Text.natOfDigits digits
          some (if isNegative then -power else power)
        else none
      else none

def literal? (text : List Char) : Option Decimal := do
  let whole := text.takeWhile Char.isDigit
  let afterWhole := text.drop whole.length
  let places := match afterWhole with
    | '.' :: rest => rest.takeWhile Char.isDigit
    | _ => []
  let pointSize := if afterWhole.head? == some '.' then 1 else 0
  let power ← exponentLiteral? (afterWhole.drop (places.length + pointSize))
  if whole.isEmpty && places.isEmpty then none
  else some ⟨Text.natOfDigits (whole ++ places), power - places.length⟩

def Decimal.nearest? (decimal : Decimal) : Option Rat :=
  let point : Int := (digitsText decimal.digits).length + decimal.exponent
  if decimal.digits = 0 || point < -400 then some 0
  else if 400 < point then none
  else Binary64.nearest? decimal.toRat

end DetectionRules.Number

namespace DetectionRules.Number

def invalidDigit : String := "invalid digit found in string"

/-- Reads digits one after the other; the first that cannot be added decides what is said. -/
def naturalDigits (bound number : Nat) : List Char → Except String Nat
  | [] => .ok number
  | c :: rest =>
      if !c.isDigit then .error invalidDigit
      else
        let next := number * 10 + (c.toNat - '0'.toNat)
        if bound ≤ next then .error "number too large to fit in target type"
        else naturalDigits bound next rest

/-- A whole number below a bound, with or without a plus sign. -/
def natural (bound : Nat) (text : String) : Except String Nat :=
  match text.toList with
  | [] => .error "cannot parse integer from empty string"
  | ['+'] => .error invalidDigit
  | '+' :: digits => naturalDigits bound 0 digits
  | digits => naturalDigits bound 0 digits

def uint64 (text : String) : Except String UInt64 := (natural UInt64.size text).map UInt64.ofNat

def uint32 (text : String) : Except String UInt32 := (natural UInt32.size text).map UInt32.ofNat

def bool (text : String) : Except String Bool :=
  match text with
  | "true" => .ok true
  | "false" => .ok false
  | _ => .error "provided string was not \x60true\x60 or \x60false\x60"

/-- The words for what is not finite, in letters of any case. -/
def notFinite? (isNegative : Bool) (text : List Char) : Option Binary64 :=
  match String.ofList (text.map Char.toLower) with
  | "inf" | "infinity" => some (.infinite isNegative)
  | "nan" => some .nan
  | _ => none

/-- A floating point number, with or without a sign; one too large to be finite is infinite. -/
def float (text : String) : Except String Binary64 :=
  let (isNegative, unsigned) := match text.toList with
    | '-' :: rest => (true, rest)
    | '+' :: rest => (false, rest)
    | rest => (false, rest)
  if text.isEmpty then .error "cannot parse float from empty string"
  else match notFinite? isNegative unsigned, literal? unsigned with
    | some value, _ => .ok value
    | none, some decimal =>
        .ok (decimal.nearest?.elim (.infinite isNegative) (Binary64.signed isNegative))
    | none, none => .error "invalid float literal"

end DetectionRules.Number
