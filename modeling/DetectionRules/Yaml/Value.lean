import DetectionRules.Number.Literal
import DetectionRules.Text.Basic

/-!
What the text of a plain scalar stands for: null, a truth value, a number or
just text. Whole numbers may be written with the digits of four bases; decimal
digits behind a leading zero are text.

The values of YAML documents. Tags of the core schema choose how the text of a
scalar is read; tags of an application stay with the value. A mapping has no
two keys alike. An alias stands for the node of its anchor, and a document in
which aliases are resolved too often has no value.
-/

namespace DetectionRules.Yaml

inductive Scalar where
  | null
  | bool (value : Bool)
  | int (value : Int)
  /-- A floating point number, as the text that it is shown as. -/
  | float (text : String)
  | str (text : String)
deriving DecidableEq

namespace Scalar

def isNullText (text : String) : Bool := ["null", "Null", "NULL", "~"].contains text

def bool? (text : String) : Option Bool :=
  if ["true", "True", "TRUE"].contains text then some true
  else if ["false", "False", "FALSE"].contains text then some false
  else none

def digitValue? (base : Nat) (c : Char) : Option Nat :=
  let value :=
    if c.isDigit then c.toNat - '0'.toNat
    else if 'a' ≤ c ∧ c ≤ 'z' then c.toNat - 'a'.toNat + 10
    else if 'A' ≤ c ∧ c ≤ 'Z' then c.toNat - 'A'.toNat + 10
    else base
  if value < base then some value else none

def natOfDigits? (base : Nat) (digits : List Char) : Option Nat :=
  if digits.isEmpty then none
  else digits.foldlM (fun number c => (digitValue? base c).map (number * base + ·)) 0

def afterSign : List Char → List Char
  | '-' :: rest | '+' :: rest => rest
  | rest => rest

def isZeroLed (text : List Char) : Bool :=
  let digits := afterSign text
  1 < digits.length && digits.head? == some '0' && digits.all Char.isDigit

def unsigned? : List Char → Option Nat
  | '0' :: 'x' :: digits => natOfDigits? 16 digits
  | '0' :: 'o' :: digits => natOfDigits? 8 digits
  | '0' :: 'b' :: digits => natOfDigits? 2 digits
  | digits => natOfDigits? 10 digits

/-- A whole number of any size. -/
def integer? (text : List Char) : Option Int :=
  if isZeroLed text then none
  else
    let number := unsigned? (afterSign text)
    if text.head? == some '-' then number.map fun number => -(number : Int)
    else number.map Int.ofNat

/-- Whether a whole number has 64 bits, with or without a sign. -/
def isShort (value : Int) : Bool :=
  Int64.minValue.toInt ≤ value && value.toNat < UInt64.size

def isLong (value : Int) : Bool :=
  -(Nat.pow 2 127 : Int) ≤ value && value.toNat < Nat.pow 2 128

/-- The whole number of a text, if it is not of more than 128 bits; one of more than 64 bits
is no scalar. -/
def int? (text : List Char) : Option (Option Scalar) :=
  match (integer? text).filter isLong with
  | some value => some (if isShort value then some (int value) else none)
  | none => none

/-- A floating point number, unless it is too large to be finite. -/
def binary64? (text : List Char) : Option Binary64 :=
  let isNegative := text.head? == some '-'
  let unsigned := afterSign text
  if [".inf", ".Inf", ".INF"].contains (String.ofList unsigned) then some (.infinite isNegative)
  else if [".nan", ".NaN", ".NAN"].contains (String.ofList text) then some .nan
  else ((Number.literal? unsigned).bind (·.nearest?)).map (.signed isNegative)

def finiteText (value : Rat) : String :=
  if value = 0 then "0.0"
  else if 0 < value then String.ofList (Number.shortest value).pointedText
  else String.ofList ('-' :: (Number.shortest (-value)).pointedText)

def floatText : Binary64 → String := Binary64.textBy finiteText ".inf" ".nan"

/-- A floating point number; one that is too large for any is text. -/
def float? (text : List Char) : Option Scalar :=
  (binary64? text).map fun number => float (floatText number)

/-- What a plain text stands for; nothing for whole numbers of more than 64 bits. -/
def ofText? (text : String) : Option Scalar :=
  let characters := text.toList
  if text.isEmpty || isNullText text then some null
  else match bool? text, int? characters with
    | some value, _ => some (bool value)
    | none, some scalar => scalar
    | none, none =>
        if isZeroLed characters then some (str text)
        else some ((float? characters).getD (str text))

/-- Whether a text needs no quotes to be read as text. -/
def isPlainText (text : String) : Bool :=
  ofText? text = some (str text) && !isZeroLed text.toList

end Scalar

end DetectionRules.Yaml

namespace DetectionRules

inductive Yaml where
  | scalar (value : Yaml.Scalar)
  | sequence (items : List Yaml)
  | mapping (entries : List (Yaml × Yaml))
  | tagged (tag : String) (value : Yaml)

namespace Yaml

def untagged : Yaml → Yaml
  | tagged _ value => untagged value
  | value => value

/-- The text of a string, whatever its tags. -/
def str? (yaml : Yaml) : Option String :=
  match yaml.untagged with
  | scalar (.str text) => some text
  | _ => none

def entries? (yaml : Yaml) : Option (List (Yaml × Yaml)) :=
  match yaml.untagged with
  | mapping entries => some entries
  | _ => none

/-- The value of a key that is a string without tags. -/
def lookup? (key : String) (entries : List (Yaml × Yaml)) : Option Yaml :=
  (entries.find? fun entry =>
    match entry.1 with
    | scalar (.str text) => text == key
    | _ => false).map (·.2)

mutual

/-- Whether two keys are alike; the order of the entries of a mapping does not matter. -/
def alike : Yaml → Yaml → Bool
  | scalar left, scalar right => left == right
  | sequence left, sequence right => allAlike left right
  | mapping left, mapping right => left.length == right.length && entriesIn right left
  | tagged leftTag left, tagged rightTag right => leftTag == rightTag && alike left right
  | _, _ => false

def allAlike : List Yaml → List Yaml → Bool
  | [], [] => true
  | left :: lefts, right :: rights => alike left right && allAlike lefts rights
  | _, _ => false

def entriesIn (right : List (Yaml × Yaml)) : List (Yaml × Yaml) → Bool
  | [] => true
  | (key, value) :: rest =>
      right.any (fun entry => alike key entry.1 && alike value entry.2) && entriesIn right rest

end

def coreTag (name : String) : String := "tag:yaml.org,2002:" ++ name

/-- The tag of an application without its exclamation mark. -/
def ownTag? (tag : Option String) : Option String :=
  match tag.map (·.toList) with
  | some ('!' :: c :: rest) => some (String.ofList (c :: rest))
  | _ => none

def scalarOf? (tag : Option String) (text : String) (isPlain : Bool) : Option Scalar :=
  let untagged := if isPlain then Scalar.ofText? text else some (.str text)
  match tag with
  | none => untagged
  | some tag =>
      if tag == coreTag "bool" then (Scalar.bool? text).map .bool
      else if tag == coreTag "int" then (Scalar.int? text.toList).join
      else if tag == coreTag "float" then Scalar.float? text.toList
      else if tag == coreTag "null" then if Scalar.isNullText text then some .null else none
      else if Text.startsWith tag "!" then untagged
      else some (.str text)

/-- Puts the tag of an application around a value. -/
def withTag (tag : Option String) (value : Yaml) : Yaml :=
  match ownTag? tag with
  | some tag => tagged tag value
  | none => value

end Yaml

end DetectionRules
