import DetectionRules.Json.Basic
import DetectionRules.Yaml.Cursor
import DetectionRules.Yaml.Value

/-!
Writing documents as YAML in block style. Text is plain
where it reads back as itself, in single quotes where quotes are enough, and in
double quotes where characters must be escaped; text of several lines becomes a
literal block.
-/

namespace DetectionRules.Yaml

inductive Document where
  | null
  | bool (value : Bool)
  | int (value : Int)
  | float (value : Binary64)
  | text (text : String)
  | list (items : List Document)
  | record (fields : List (String × Document))

structure Traits where
  isEmpty : Bool
  hasBreak : Bool
  plainAllowed : Bool
  singleAllowed : Bool
  blockAllowed : Bool

def isPrintable (c : Char) : Bool :=
  c == '\n' || (0x20 ≤ c.toNat && c.toNat ≤ 0x7E)
    || (0xA0 ≤ c.toNat && c.toNat ≤ 0xFFFD && c != '\uFEFF') || 0x10000 ≤ c.toNat

/-- Whether a plain text may not begin with these characters. -/
def startsSpecial : List Char → Bool
  | [] => false
  | c :: rest =>
      "#,[]\x7b\x7d&*!|>'\"%@\x60".toList.contains c
        || ("?:-".toList.contains c && atWordEnd rest)
        || ["---", "..."].any fun mark => mark.toList.isPrefixOf (c :: rest)

/-- Whether a colon before a gap or a hash sign behind one stands in these characters. -/
def hasSpecial : List Char → Bool
  | [] => false
  | ':' :: rest => atWordEnd rest || hasSpecial rest
  | c :: '#' :: rest => isGap c || isBreak c || hasSpecial ('#' :: rest)
  | _ :: rest => hasSpecial rest

/-- Whether a character of the first kind stands directly before one of the second. -/
def hasPair (first second : Char → Bool) : List Char → Bool
  | left :: right :: rest => (first left && second right) || hasPair first second (right :: rest)
  | _ => false

def isSpaceChar (c : Char) : Bool := c == ' '

def traits (text : String) : Traits :=
  let characters := text.toList
  let hasBreak := characters.any isBreak
  let escaped := hasPair isSpaceChar isBreak characters || !characters.all isPrintable
  let breakSpace := hasPair isBreak isSpaceChar characters
  let atEdge (test : Char → Bool) : Bool :=
    characters.head?.any test || characters.getLast?.any test
  let special := startsSpecial characters || hasSpecial characters
  { isEmpty := characters.isEmpty
    hasBreak
    plainAllowed := !hasBreak && !escaped && !special && !atEdge isSpaceChar
    singleAllowed := !escaped && !breakSpace
    blockAllowed := !characters.isEmpty && !escaped && !characters.getLast?.any isSpaceChar }

inductive Style where
  | plain
  | single
  | double
  | literal
deriving DecidableEq

/-- The style of a text, which may be a key on the line of its value. -/
def style (text : String) (isKey : Bool) : Style :=
  let traits := traits text
  if Text.containsChar text '\n' then
    if traits.blockAllowed && !isKey then .literal else .double
  else if isKey && traits.hasBreak then .double
  else if Scalar.isPlainText text && traits.plainAllowed && !traits.isEmpty then .plain
  else if traits.singleAllowed then .single
  else .double

def hexUpper (width number : Nat) : List Char :=
  let digits := (Nat.toDigits 16 number).map Char.toUpper
  List.replicate (width - digits.length) '0' ++ digits

def escapeChar (c : Char) : List Char :=
  match c with
  | '\x00' => ['\\', '0']
  | '\x07' => ['\\', 'a']
  | '\x08' => ['\\', 'b']
  | '\t' => ['\\', 't']
  | '\n' => ['\\', 'n']
  | '\x0B' => ['\\', 'v']
  | '\x0C' => ['\\', 'f']
  | '\r' => ['\\', 'r']
  | '\x1B' => ['\\', 'e']
  | '"' => ['\\', '"']
  | '\\' => ['\\', '\\']
  | '\u0085' => ['\\', 'N']
  | '\u2028' => ['\\', 'L']
  | '\u2029' => ['\\', 'P']
  | c =>
      if isPrintable c then [c]
      else if c.toNat ≤ 0xFF then '\\' :: 'x' :: hexUpper 2 c.toNat
      else if c.toNat ≤ 0xFFFF then '\\' :: 'u' :: hexUpper 4 c.toNat
      else '\\' :: 'U' :: hexUpper 8 c.toNat

def doubleQuoted (text : String) : String :=
  "\"" ++ String.ofList (text.toList.flatMap escapeChar) ++ "\""

def spaces (count : Nat) : List Char := List.replicate count ' '

/-- Text whose lines after the first are indented; blank lines are not. -/
def indentLines (indent : Nat) (afterBreak : Bool) : List Char → List Char
  | [] => []
  | c :: rest =>
      if isBreak c then c :: indentLines indent true rest
      else (if afterBreak then spaces indent else []) ++ c :: indentLines indent false rest

def singleQuoted (indent : Nat) (text : String) : String :=
  let body := Text.replaceChar '\'' ['\'', '\''] (indentLines indent false text.toList)
  let ending := if text.toList.getLast?.any isBreak then spaces indent else []
  "'" ++ String.ofList (body ++ ending) ++ "'"

/-- The indicators of a literal block: of indentation if it begins with a gap, and of what
happens to the line breaks at its end. -/
def literalHints (characters : List Char) : List Char :=
  let indentation :=
    if characters.head?.any fun c => isSpaceChar c || isBreak c then ['2'] else []
  let chomping := match characters.reverse with
    | last :: [] => if isBreak last then ['+'] else ['-']
    | last :: previous :: _ =>
        if !isBreak last then ['-'] else if isBreak previous then ['+'] else []
    | [] => ['-']
  indentation ++ chomping

/-- A literal block. It ends in a line break if the text does. -/
def literal (indent : Nat) (text : String) : String :=
  "|" ++ String.ofList (literalHints text.toList) ++ "\n"
    ++ String.ofList (indentLines indent true text.toList)

/-- A text as it is written, with `indent` columns before lines of its own. -/
def scalarText (indent : Nat) (text : String) (isKey : Bool) : String :=
  match style text isKey with
  | .plain => text
  | .single => singleQuoted indent text
  | .double => doubleQuoted text
  | .literal => literal indent text

/-- Whether a key may stand on the line of its value. -/
def isSimpleKey (key : String) : Bool := !(traits key).hasBreak && key.utf8ByteSize ≤ 128

/-- Ends a line unless it has been ended. -/
def line (text : String) : String :=
  if text.toList.getLast?.any isBreak then text else text ++ "\n"

def indentText (indent : Nat) : String := String.ofList (spaces indent)

mutual

/-- A value behind a key on the same line, or the lines below. -/
def valueText (indent : Nat) : Document → String
  | .null => " null\n"
  | .bool value => if value then " true\n" else " false\n"
  | .int value => " " ++ toString value ++ "\n"
  | .float value => " " ++ Scalar.floatText value ++ "\n"
  | .text text => line (" " ++ scalarText (indent + 2) text false)
  | .list items =>
      if items.isEmpty then " []\n" else "\n" ++ String.join (itemTexts indent items)
  | .record fields =>
      if fields.isEmpty then " \x7b\x7d\n" else "\n" ++ String.join (fieldTexts (indent + 2) fields)

/-- The lines of a value behind a sign that is one character wide. -/
def nestedText (indent : Nat) : Document → String
  | .null => " null\n"
  | .bool value => if value then " true\n" else " false\n"
  | .int value => " " ++ toString value ++ "\n"
  | .float value => " " ++ Scalar.floatText value ++ "\n"
  | .text text => line (" " ++ scalarText (indent + 2) text false)
  | .list items =>
      if items.isEmpty then " []\n"
      else " " ++ String.ofList ((String.join (itemTexts (indent + 2) items)).toList.drop (indent + 2))
  | .record fields =>
      if fields.isEmpty then " \x7b\x7d\n"
      else " " ++ String.ofList ((String.join (fieldTexts (indent + 2) fields)).toList.drop (indent + 2))

def itemTexts (indent : Nat) : List Document → List String
  | [] => []
  | item :: rest => (indentText indent ++ "-" ++ nestedText indent item) :: itemTexts indent rest

def fieldTexts (indent : Nat) : List (String × Document) → List String
  | [] => []
  | (key, value) :: rest =>
      let text :=
        if isSimpleKey key then
          indentText indent ++ scalarText (indent + 2) key true ++ ":" ++ valueText indent value
        else
          line (indentText indent ++ "? " ++ scalarText (indent + 2) key false)
            ++ indentText indent ++ ":" ++ nestedText indent value
      text :: fieldTexts indent rest

end

def write (fields : List (String × Document)) : String :=
  if fields.isEmpty then "\x7b\x7d\n" else String.join (fieldTexts 0 fields)

namespace Document

mutual

def ofJson : Json → Document
  | .null => null
  | .bool value => bool value
  | .int value => int value
  | .float value => float value
  | .str content => text content
  | .array items => list (ofItems items)
  | .object members => record (ofMembers members)

def ofItems : List Json → List Document
  | [] => []
  | item :: rest => ofJson item :: ofItems rest

def ofMembers : List (String × Json) → List (String × Document)
  | [] => []
  | (name, value) :: rest => (name, ofJson value) :: ofMembers rest

end

def write : Document → String
  | record fields => Yaml.write fields
  | list items => if items.isEmpty then "[]\n" else String.join (itemTexts 0 items)
  | leaf => String.ofList ((valueText 0 leaf).toList.drop 1)

end Document

end DetectionRules.Yaml
