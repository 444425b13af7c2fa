import DetectionRules.Number.Text

/-!
JSON documents and their text. Integers are those of 64 bits, signed or
unsigned; all other numbers are floating point numbers. Members of an object
keep the order of their first writing.
-/

namespace DetectionRules

inductive Json where
  | null
  | bool (value : Bool)
  | int (value : Int)
  | float (value : Binary64)
  | str (text : String)
  | array (items : List Json)
  | object (members : List (String × Json))

namespace Json

def ofNat (value : Nat) : Json := .int value

def ofRat (value : Rat) : Json := .float (.finite value)

def ofOption {Value : Type} (encode : Value → Json) : Option Value → Json
  | some value => encode value
  | none => .null

def ofStrings (texts : List String) : Json := .array (texts.map .str)

/-- The members that are present. -/
def ofMembers (members : List (Option (String × Json))) : Json :=
  .object (members.filterMap id)

/-- The value of a member; of members of one name, the last. -/
def member? (name : String) : Json → Option Json
  | object members => (members.reverse.find? (·.1 == name)).map (·.2)
  | _ => none

def str? : Json → Option String
  | str text => some text
  | _ => none

def bool? : Json → Option Bool
  | bool value => some value
  | _ => none

def int? : Json → Option Int
  | int value => some value
  | _ => none

def nat? (json : Json) : Option Nat := json.int?.bind (·.toNat?)

def float? : Json → Option Binary64
  | int value => some (.finite (Binary64.round value))
  | float value => some value
  | _ => none

def rat? (json : Json) : Option Rat := json.float?.bind (·.toRat?)

def array? : Json → Option (List Json)
  | array items => some items
  | _ => none

def strings? (json : Json) : Option (List String) := json.array?.bind (·.mapM str?)

def isNull : Json → Bool
  | null => true
  | _ => false

/-- The value of a member, unless it is absent or null. -/
def present? (name : String) (json : Json) : Option Json :=
  (json.member? name).filter (!·.isNull)

def hexDigits (width number : Nat) : List Char :=
  let digits := Nat.toDigits 16 number
  List.replicate (width - digits.length) '0' ++ digits

def escapeChar (c : Char) : List Char :=
  match c with
  | '"' => ['\\', '"']
  | '\\' => ['\\', '\\']
  | '\n' => ['\\', 'n']
  | '\r' => ['\\', 'r']
  | '\t' => ['\\', 't']
  | '\x08' => ['\\', 'b']
  | '\x0C' => ['\\', 'f']
  | c => if c.toNat < 0x20 then '\\' :: 'u' :: hexDigits 4 c.toNat else [c]

def quote (text : String) : String :=
  "\"" ++ String.ofList (text.toList.flatMap escapeChar) ++ "\""

/-- A finite number, with a point even if it is whole. -/
def pointedText (value : Rat) : String :=
  let text := Number.text value
  if text.toList.contains '.' then text else text ++ ".0"

/-- A floating point number; what is not finite has no text of its own. -/
def floatText (number : Binary64) : String :=
  if number.toRat?.isNone then "null" else number.textBy pointedText "" ""

mutual

def text : Json → String
  | null => "null"
  | bool true => "true"
  | bool false => "false"
  | int value => toString value
  | float value => floatText value
  | str content => quote content
  | array items => "[" ++ String.intercalate "," (itemTexts items) ++ "]"
  | object members => "\x7b" ++ String.intercalate "," (memberTexts members) ++ "\x7d"

def itemTexts : List Json → List String
  | [] => []
  | item :: rest => text item :: itemTexts rest

def memberTexts : List (String × Json) → List String
  | [] => []
  | (name, value) :: rest => (quote name ++ ":" ++ text value) :: memberTexts rest

end

def indentation (depth : Nat) : String := String.ofList (List.replicate (2 * depth) ' ')

/-- Puts each part on a line of its own between an opening and a closing line. -/
def block (depth : Nat) (opening closing : String) (parts : List String) : String :=
  if parts.isEmpty then opening ++ closing
  else opening ++ "\n" ++ indentation (depth + 1) ++
    String.intercalate (",\n" ++ indentation (depth + 1)) parts ++
    "\n" ++ indentation depth ++ closing

mutual

/-- The text with a line for each part, inside `depth` enclosing values. -/
def prettyAt (depth : Nat) : Json → String
  | array items => block depth "[" "]" (prettyItems (depth + 1) items)
  | object members => block depth "\x7b" "\x7d" (prettyMembers (depth + 1) members)
  | null => "null"
  | bool value => if value then "true" else "false"
  | int value => toString value
  | float value => floatText value
  | str content => quote content

def prettyItems (depth : Nat) : List Json → List String
  | [] => []
  | item :: rest => prettyAt depth item :: prettyItems depth rest

def prettyMembers (depth : Nat) : List (String × Json) → List String
  | [] => []
  | (name, value) :: rest => (quote name ++ ": " ++ prettyAt depth value) :: prettyMembers depth rest

end

def pretty (json : Json) : String := prettyAt 0 json

/-- Puts a member before the first whose name is greater. -/
def insertSorted (member : String × Json) : List (String × Json) → List (String × Json)
  | [] => [member]
  | other :: rest =>
      if member.1 < other.1 then member :: other :: rest else other :: insertSorted member rest

mutual

/-- The document with the members of each object in the order of their names. -/
def sorted : Json → Json
  | array items => array (sortedItems items)
  | object members => object (sortedMembers members)
  | value => value

def sortedItems : List Json → List Json
  | [] => []
  | item :: rest => sorted item :: sortedItems rest

def sortedMembers : List (String × Json) → List (String × Json)
  | [] => []
  | (name, value) :: rest => insertSorted (name, sorted value) (sortedMembers rest)

end

end Json

end DetectionRules
