import DetectionRules.Json.Basic
import DetectionRules.Text.Basic

/-!
Writing records as TOML. The members of a record that are records themselves
become tables after its other members; members that are null are left out. A
string is written with as few escapes as the four kinds of quotes allow.
-/

namespace DetectionRules.Toml

/-- What decides how a string can be quoted. -/
structure Traits where
  hasControl : Bool
  hasBackslash : Bool
  hasBreak : Bool
  /-- The longest runs of quotes. -/
  singles : Nat
  doubles : Nat

def isControl (c : Char) : Bool :=
  (c.toNat < 0x20 && c != '\t' && c != '\n') || c.toNat == 0x7F

/-- The longest run of a character, given how many of it come before. -/
def longestRun (c : Char) (before : Nat) : List Char → Nat
  | [] => before
  | other :: rest =>
      if other = c then longestRun c (before + 1) rest else max before (longestRun c 0 rest)

def traits (text : List Char) : Traits where
  hasControl := text.any isControl
  hasBackslash := text.contains '\\'
  hasBreak := text.contains '\n'
  singles := longestRun '\'' 0 text
  doubles := longestRun '"' 0 text

def escapeChar (isLong : Bool) (c : Char) : List Char :=
  match c with
  | '\x08' => ['\\', 'b']
  | '\t' => ['\\', 't']
  | '\n' => if isLong then ['\n'] else ['\\', 'n']
  | '\x0C' => ['\\', 'f']
  | '\r' => ['\\', 'r']
  | '\\' => ['\\', '\\']
  | c =>
      if isControl c then '\\' :: 'u' :: (Json.hexDigits 4 c.toNat).map Char.toUpper else [c]

/-- Writes escapes; of a run of quotes, only so many stand without one. -/
def escapeChars (isLong : Bool) (quotes : Nat) : List Char → List Char
  | [] => []
  | '"' :: rest =>
      if quotes < (if isLong then 2 else 0) then '"' :: escapeChars isLong (quotes + 1) rest
      else '\\' :: '"' :: escapeChars isLong 0 rest
  | c :: rest => escapeChar isLong c ++ escapeChars isLong 0 rest

def lineQuoted (quote : Char) (body : List Char) : List Char := quote :: body ++ [quote]

/-- A string between three quotes on each side. A line break after the first three is not part of
the string. -/
def longQuoted (quote : Char) (hasBreak : Bool) (body : List Char) : List Char :=
  let quotes := List.replicate 3 quote
  quotes ++ (if hasBreak then ['\n'] else []) ++ body ++ quotes

def stringText (text : String) : List Char :=
  let body := text.toList
  let traits := traits body
  let escaped isLong := escapeChars isLong 0 body
  let needsEscape := traits.hasControl || traits.hasBackslash
  if !needsEscape && traits.doubles = 0 && !traits.hasBreak then lineQuoted '"' (escaped false)
  else if !traits.hasControl && traits.singles = 0 && !traits.hasBreak then lineQuoted '\'' body
  else if !needsEscape && traits.doubles ≤ 2 then longQuoted '"' traits.hasBreak (escaped true)
  else if !traits.hasControl && traits.singles ≤ 2 then longQuoted '\'' traits.hasBreak body
  else if traits.hasBreak then longQuoted '"' true (escaped true)
  else lineQuoted '"' (escaped false)

def floatText : Binary64 → String := Binary64.textBy Json.pointedText "inf" "nan"

/-- The text of a value that is no record; whole numbers have 64 bits with a sign. -/
def scalarText : Json → Except String (Option String)
  | .bool value => .ok (some (if value then "true" else "false"))
  | .int value =>
      if (Text.int64? value).isSome then .ok (some (toString value))
      else .error "out-of-range value for u64 type"
  | .float value => .ok (some (floatText value))
  | .str text => .ok (some (String.ofList (stringText text)))
  | _ => .ok none

/-- The lines of the members that are no records. -/
def scalarLines : List (String × Json) → Except String (List String)
  | [] => .ok []
  | (key, value) :: rest => do
      let text ← scalarText value
      let others ← scalarLines rest
      return (text.map fun text => key ++ " = " ++ text ++ "\n").toList ++ others

mutual

/-- A table with its tables after it, each of them a text of its own. -/
def tableTexts (path : List String) : Json → Except String (List String)
  | .object members => do
      let lines ← scalarLines members
      let tables ← memberTexts path members
      if path.isEmpty && lines.isEmpty then return tables
      let header := if path.isEmpty then "" else "[" ++ String.intercalate "." path ++ "]\n"
      return (header ++ String.join lines) :: tables
  | _ => .ok []

def memberTexts (path : List String) : List (String × Json) → Except String (List String)
  | [] => .ok []
  | (key, value) :: rest => do
      let texts ← tableTexts (path ++ [key]) value
      return texts ++ (← memberTexts path rest)

end

/-- The text of a record whose keys need no quotes. -/
def write (document : Json) : Except String String :=
  (tableTexts [] document).map (String.intercalate "\n")

end DetectionRules.Toml
