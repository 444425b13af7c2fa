import DetectionRules.Regex.Validity
import DetectionRules.Text.Basic

/-!
The literals a field is compared with: whole numbers of 64 bits, and text.

Tests on one field of an event, and the globs that name four of the operators:
plain text for equality, and a wildcard at one or both ends for the rest.
-/

namespace DetectionRules

inductive Value where
  | int (number : Int64)
  | str (text : String)
deriving DecidableEq

namespace Value

def text : Value → String
  | int number => toString number.toInt
  | str text => text

def int? : Value → Option Int64
  | int number => some number
  | str _ => none

def str? : Value → Option String
  | int _ => none
  | str text => some text

/-- A decimal number without leading zeros, with or without a minus sign. -/
def canonicalInt? (literal : List Char) : Option Int :=
  let (negative, digits) := match literal with
    | '-' :: rest => (true, rest)
    | characters => (false, characters)
  let leadingZero := 1 < digits.length && digits.head? == some '0'
  if digits.isEmpty || !digits.all Char.isDigit || leadingZero then none
  else some (if negative then -(Text.natOfDigits digits : Int) else Text.natOfDigits digits)

/-- Reads a literal written without quotes: a number if it is one in decimal digits, with or
without a minus sign and without a leading zero, and fits 64 bits, text otherwise. So `-0` is read
as the number zero, which is printed without the sign. -/
def ofLiteral (literal : String) : Value :=
  match (canonicalInt? literal.toList).bind Text.int64? with
  | some number => int number
  | none => str literal

end Value

inductive Operator where
  | equals
  | contains
  | startsWith
  | endsWith
  | regex
  | gt
  | gte
  | lt
  | lte
deriving DecidableEq

namespace Operator

def all : List Operator :=
  [equals, contains, startsWith, endsWith, regex, gt, gte, lt, lte]

def name : Operator → String
  | equals => "equals"
  | contains => "contains"
  | startsWith => "startswith"
  | endsWith => "endswith"
  | regex => "regex"
  | gt => "gt"
  | gte => "gte"
  | lt => "lt"
  | lte => "lte"

def ofName? (name : String) : Option Operator := all.find? fun op => op.name == name

def isComparison : Operator → Bool
  | gt | gte | lt | lte => true
  | _ => false

/-- The sign of a comparison, the same in all query dialects. -/
def sign? : Operator → Option String
  | gt => some ">"
  | gte => some ">="
  | lt => some "<"
  | lte => some "<="
  | _ => none

def ofSign? : String → Option Operator
  | ">" => some gt
  | ">=" => some gte
  | "<" => some lt
  | "<=" => some lte
  | _ => none

end Operator

/-- A condition on one field. It holds if it holds for one of the values. -/
structure FieldTest where
  field : String
  op : Operator
  values : List Value
deriving DecidableEq

namespace FieldTest

def single (field : String) (op : Operator) (value : Value) : FieldTest := ⟨field, op, [value]⟩

def withValue (test : FieldTest) (value : Value) : FieldTest := single test.field test.op value

end FieldTest

namespace Glob

/-- The regular expression that matches exactly what the glob matches. -/
def toRegex (wildcard : Char) (glob : List Char) : List Char :=
  '^' :: body glob ++ ['$']
where
  body : List Char → List Char
    | [] => []
    | c :: rest => if c = wildcard then '.' :: '*' :: body rest else Regex.escapeChars [c] ++ body rest

/-- The operator and the text that a glob stands for. -/
def classify (wildcard : Char) (glob : List Char) : Operator × List Char :=
  if !glob.contains wildcard then (.equals, glob)
  else
    let leading := glob.head? == some wildcard
    let trailing := 1 < glob.length && glob.getLast? == some wildcard
    let afterFirst := if leading then glob.drop 1 else glob
    let inner := if trailing then afterFirst.dropLast else afterFirst
    if inner.isEmpty || inner.contains wildcard then (.regex, toRegex wildcard glob)
    else match leading, trailing with
      | true, true => (.contains, inner)
      | true, false => (.endsWith, inner)
      | false, true => (.startsWith, inner)
      | false, false => (.equals, inner)

/-- The glob of an operator and a text, for the operators that have one. -/
def ofOperator? (wildcard : Char) (text : List Char) : Operator → Option (List Char)
  | .equals => some text
  | .contains => some (wildcard :: text ++ [wildcard])
  | .startsWith => some (text ++ [wildcard])
  | .endsWith => some (wildcard :: text)
  | _ => none

end Glob

/-- Reads a glob as a test; only plain text may stand for a number. -/
def FieldTest.ofGlob (field : String) (wildcard : Char) (glob : String) : FieldTest :=
  match Glob.classify wildcard glob.toList with
  | (.equals, text) => .single field .equals (Value.ofLiteral (String.ofList text))
  | (op, text) => .single field op (.str (String.ofList text))

end DetectionRules
