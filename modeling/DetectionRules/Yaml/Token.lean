import DetectionRules.Yaml.ScalarText

/-!
Tokens of YAML text, and the scanning of those that are told by their first
character alone: names of anchors and aliases, tags and directives.
-/

namespace DetectionRules.Yaml

inductive Token where
  | version (major minor : Nat)
  | tagDirective (handle tagStart : String)
  | documentStart
  | documentEnd
  | blockSequenceStart
  | blockMappingStart
  | blockEnd
  | flowSequenceStart
  | flowSequenceEnd
  | flowMappingStart
  | flowMappingEnd
  | blockEntry
  | flowEntry
  | key
  | value
  | reference (name : String)
  | anchor (name : String)
  | tag (handle suffix : String)
  | scalar (text : String) (isPlain : Bool)
deriving DecidableEq

def anchorName (cursor : Cursor) : Option (String × Cursor) :=
  let name := (cursor.rest.drop 1).takeWhile isNameChar
  let after := cursor.pass (name.length + 1)
  let ended := atWordEnd after.rest || after.next?.any fun c => "?:,]\x7d%@\x60".toList.contains c
  if name.isEmpty || !ended then none else some (String.ofList name, after)

/-- The bytes of a character in UTF-8, told by the first of them. -/
def utf8Width? (byte : Nat) : Option Nat :=
  if byte < 0x80 then some 1
  else if 0xC0 ≤ byte ∧ byte < 0xE0 then some 2
  else if 0xE0 ≤ byte ∧ byte < 0xF0 then some 3
  else if 0xF0 ≤ byte ∧ byte < 0xF8 then some 4
  else none

/-- Bytes written as a percent sign with two hexadecimal digits each. -/
def percentBytes? : Nat → List Char → Option (List UInt8)
  | 0, _ => some []
  | count + 1, '%' :: high :: low :: rest => do
      let byte ← Text.hexValue? [high, low]
      return UInt8.ofNat byte :: (← percentBytes? count rest)
  | _ + 1, _ => none

/-- A character written by its bytes, and how many characters of text it takes. -/
def percentChar? (characters : List Char) : Option (Char × Nat) := do
  let first ← percentBytes? 1 characters
  let width ← utf8Width? (first.head?.getD 0).toNat
  let bytes ← percentBytes? width characters
  match (← String.fromUTF8? ⟨bytes.toArray⟩).toList with
  | [c] => some (c, 3 * width)
  | _ => none

def isUriChar (isVerbatim : Bool) (c : Char) : Bool :=
  isNameChar c || ";/?:@&=+$.%!~*'()".toList.contains c
    || (isVerbatim && ",[]".toList.contains c)

/-- Reads on through a tag; the state is the text so far. -/
def uriStep (isVerbatim : Bool) (text : List Char) (cursor : Cursor) :
    Option (Option (List Char × Cursor)) :=
  match cursor.next? with
  | none => some none
  | some c =>
      if !isUriChar isVerbatim c then some none
      else if c = '%' then do
        let (escaped, size) ← percentChar? cursor.rest
        return some (text ++ [escaped], cursor.pass size)
      else some (some (text ++ [c], cursor.pass 1))

def uri (isVerbatim : Bool) (cursor : Cursor) : Option (List Char × Cursor) :=
  cursor.iterate (uriStep isVerbatim) []

/-- An exclamation mark with what may be the rest of a handle. -/
def tagHandle (cursor : Cursor) : Option (List Char × Cursor) :=
  if !cursor.nextIs '!' then none
  else
    let name := (cursor.rest.drop 1).takeWhile isNameChar
    let after := cursor.pass (name.length + 1)
    if after.nextIs '!' then some ('!' :: name ++ ['!'], after.pass 1) else some ('!' :: name, after)

def isWholeHandle (handle : List Char) : Bool := 1 < handle.length && handle.getLast? == some '!'

/-- The handle and the suffix of a tag; a tag without a handle is all suffix. -/
def tagParts (cursor : Cursor) : Option (String × String × Cursor) :=
  if (cursor.rest.drop 1).head? == some '<' then do
    let (suffix, after) ← uri true (cursor.pass 2)
    if suffix.isEmpty || !after.nextIs '>' then none
    else return ("", String.ofList suffix, after.pass 1)
  else do
    let (handle, afterHandle) ← tagHandle cursor
    let (suffix, after) ← uri false afterHandle
    if isWholeHandle handle then
      if suffix.isEmpty then none
      else return (String.ofList handle, String.ofList suffix, after)
    else
      let suffix := handle.drop 1 ++ suffix
      if suffix.isEmpty then return ("", "!", after) else return ("!", String.ofList suffix, after)

def tagToken (inFlow : Bool) (cursor : Cursor) : Option (Token × Cursor) := do
  let (handle, suffix, after) ← tagParts cursor
  if atWordEnd after.rest || (inFlow && after.nextIs ',') then return (.tag handle suffix, after)
  else none

/-- At most nine digits as a number. -/
def versionNumber (cursor : Cursor) : Option (Nat × Cursor) :=
  let digits := cursor.rest.takeWhile Char.isDigit
  if digits.isEmpty || 9 < digits.length then none
  else
    let number := digits.foldl (fun number c => number * 10 + (c.toNat - '0'.toNat)) 0
    some (number, cursor.pass digits.length)

def versionDirective (cursor : Cursor) : Option (Token × Cursor) := do
  let (major, after) ← versionNumber (cursor.passWhile isGap)
  if !after.nextIs '.' then none
  let (minor, after) ← versionNumber (after.pass 1)
  return (.version major minor, after)

def tagDirective (cursor : Cursor) : Option (Token × Cursor) := do
  let (handle, after) ← tagHandle (cursor.passWhile isGap)
  if handle != ['!'] && !isWholeHandle handle then none
  if !after.next?.any isGap then none
  let (tagStart, after) ← uri true (after.passWhile isGap)
  if tagStart.isEmpty || !atWordEnd after.rest then none
  return (.tagDirective (String.ofList handle) (String.ofList tagStart), after)

def directive (cursor : Cursor) : Option (Token × Cursor) := do
  let name := (cursor.rest.drop 1).takeWhile isNameChar
  let after := cursor.pass (name.length + 1)
  if !atWordEnd after.rest then none
  let (token, after) ← match String.ofList name with
    | "YAML" => versionDirective after
    | "TAG" => tagDirective after
    | _ => none
  let ending := (after.passWhile isGap).passComment
  if atLineEnd ending.rest then return (token, ending.passBreak.2) else none

end DetectionRules.Yaml
