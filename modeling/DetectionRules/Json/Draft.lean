import DetectionRules.Json.Number
import DetectionRules.Text.Basic

/-!
JSON text read as far as it is JSON. A draft is a document whose values know
where they begin and end in the text; where the text stops being JSON, the
draft is broken, and what came before is still there.
-/

namespace DetectionRules.Json

/-- The bytes at which a value begins and ends. -/
structure Extent where
  start : Nat
  finish : Nat

structure Key where
  name : String
  /-- The byte after the closing brace if it follows the key, else the byte of what follows. -/
  resume : Nat

inductive Draft where
  | scalar (value : Json) (extent : Extent)
  /-- Items and the byte after the closing bracket, or the byte at which the text breaks. -/
  | array (start : Nat) (items : List Draft) (finish : Except Nat Nat)
  /-- Members, each with the byte to resume at after its value, and an end as for arrays. -/
  | object (start : Nat) (members : List (Key × Draft × Nat)) (finish : Except Nat Nat)
  | broken (offset : Nat)

namespace Draft

/-- The text that is left, and the byte at which it begins. -/
structure Source where
  rest : List Char
  offset : Nat

namespace Source

def isBlank (c : Char) : Bool := c == ' ' || c == '\n' || c == '\t' || c == '\r'

/-- Passes over characters of one byte each. -/
def pass (source : Source) (count : Nat) : Source := ⟨source.rest.drop count, source.offset + count⟩

def skipBlank (source : Source) : Source := source.pass (source.rest.takeWhile isBlank).length

def peeked (source : Source) : Nat := Number.peeked source.offset source.rest

def resume (source : Source) : Nat :=
  let source := source.skipBlank
  if source.rest.head? == some '\x7d' then source.offset + 1 else source.offset

end Source

def fourHexDigits (offset : Nat) (characters : List Char) : Except Nat Nat :=
  if Text.byteCount (characters.take 4) < 4 then .error (offset + Text.byteCount characters)
  else match Text.hexValue? (characters.take 4) with
    | some value => .ok value
    | none => .error (offset + 4)

/-- A character given by its code, and how many characters of text the code takes. Characters
beyond four digits are given by two codes. -/
def codeEscape (offset : Nat) (characters : List Char) : Except Nat (Char × Nat) := do
  let high ← fourHexDigits offset characters
  if 0xDC00 ≤ high ∧ high ≤ 0xDFFF then throw (offset + 4)
  if high < 0xD800 ∨ 0xDBFF < high then return (Char.ofNat high, 4)
  match characters.drop 4 with
  | '\\' :: 'u' :: rest =>
      let low ← fourHexDigits (offset + 6) rest
      if low < 0xDC00 ∨ 0xDFFF < low then throw (offset + 10)
      return (Char.ofNat ((high - 0xD800) * 0x400 + (low - 0xDC00) + 0x10000), 10)
  | '\\' :: [] => throw (offset + 5)
  | '\\' :: _ => throw (offset + 6)
  | [] => throw (offset + 4)
  | _ => throw (offset + 5)

/-- The character after a backslash, and how many characters of text it takes. -/
def escape (offset : Nat) (characters : List Char) : Except Nat (Char × Nat) :=
  match characters with
  | [] => .error offset
  | '"' :: _ => .ok ('"', 1)
  | '\\' :: _ => .ok ('\\', 1)
  | '/' :: _ => .ok ('/', 1)
  | 'b' :: _ => .ok ('\x08', 1)
  | 'f' :: _ => .ok ('\x0C', 1)
  | 'n' :: _ => .ok ('\n', 1)
  | 'r' :: _ => .ok ('\r', 1)
  | 't' :: _ => .ok ('\t', 1)
  | 'u' :: rest => (codeEscape (offset + 1) rest).map fun (c, size) => (c, size + 1)
  | _ => .error (offset + 1)

/-- The characters up to the closing quote, and the source after it. -/
def stringBody (offset : Nat) : List Char → Except Nat (List Char × Source)
  | [] => .error offset
  | '"' :: rest => .ok ([], ⟨rest, offset + 1⟩)
  | '\\' :: rest => do
      let (c, size) ← escape (offset + 1) rest
      let (text, source) ← stringBody (offset + 1 + size) (rest.drop size)
      return (c :: text, source)
  | c :: rest =>
      if c.toNat < 0x20 then .error (offset + 1)
      else do
        let (text, source) ← stringBody (offset + c.utf8Size) rest
        return (c :: text, source)
termination_by characters => characters.length
decreasing_by all_goals grind

def wordRest (word : List Char) (value : Json) (source : Source) : Except Nat (Json × Source) :=
  match word, source.rest with
  | [], _ => .ok (value, source)
  | _ :: _, [] => .error source.offset
  | expected :: word, found :: rest =>
      if found = expected then wordRest word value ⟨rest, source.offset + 1⟩
      else .error (source.offset + 1)

def scalarValue (source : Source) : Except Nat (Json × Source) :=
  match source.rest with
  | [] => .error source.offset
  | 'n' :: _ => wordRest "ull".toList .null (source.pass 1)
  | 't' :: _ => wordRest "rue".toList (.bool true) (source.pass 1)
  | 'f' :: _ => wordRest "alse".toList (.bool false) (source.pass 1)
  | '"' :: rest => (stringBody (source.offset + 1) rest).map fun (text, source) =>
      (.str (String.ofList text), source)
  | c :: _ =>
      if c.isDigit || c == '-' then
        (Number.read source.offset source.rest).map fun (number, size) =>
          (number, source.pass size)
      else .error source.peeked

/-- Where the next item of an array begins, or nothing at the closing bracket. -/
def nextItem? (first : Bool) (source : Source) : Except Nat (Option Source) :=
  match source.rest with
  | [] => .error source.offset
  | ']' :: _ => .ok none
  | c :: _ =>
      if first then .ok (some source)
      else if c = ',' then
        let after := (source.pass 1).skipBlank
        if after.rest.isEmpty || after.rest.head? == some ']' then .error after.peeked
        else .ok (some after)
      else .error source.peeked

def items (readItem : Source → Draft × Except Nat Source) (first : Bool) (source : Source) :
    List Draft × Except Nat Source :=
  let here := source.skipBlank
  match nextItem? first here with
  | .error offset => ([], .error offset)
  | .ok none => ([], .ok (here.pass 1))
  | .ok (some itemSource) =>
      match readItem itemSource with
      | (item, .error offset) => ([item], .error offset)
      | (item, .ok rest) =>
          if rest.rest.length < source.rest.length then
            let (others, finish) := items readItem false rest
            (item :: others, finish)
          else ([item], .error rest.offset)
termination_by source.rest.length

/-- Where the next key of an object begins after its quote, or nothing at the closing brace. -/
def nextKey? (first : Bool) (source : Source) : Except Nat (Option Source) :=
  match source.rest with
  | [] => .error source.offset
  | '\x7d' :: _ => .ok none
  | c :: _ =>
      if first then
        if c = '"' then .ok (some (source.pass 1)) else .error source.peeked
      else if c = ',' then
        let after := (source.pass 1).skipBlank
        if after.rest.head? == some '"' then .ok (some (after.pass 1)) else .error after.peeked
      else .error source.peeked

def members (readValue : Source → Draft × Except Nat Source) (first : Bool) (source : Source) :
    List (Key × Draft × Nat) × Except Nat Source :=
  let here := source.skipBlank
  match nextKey? first here with
  | .error offset => ([], .error offset)
  | .ok none => ([], .ok (here.pass 1))
  | .ok (some keySource) =>
      match stringBody keySource.offset keySource.rest with
      | .error offset => ([], .error offset)
      | .ok (name, afterName) =>
          let key : Key := ⟨String.ofList name, afterName.resume⟩
          let colon := afterName.skipBlank
          if colon.rest.head? != some ':' then
            ([(key, .broken colon.peeked, 0)], .error colon.peeked)
          else match readValue (colon.pass 1).skipBlank with
            | (value, .error offset) => ([(key, value, 0)], .error offset)
            | (value, .ok rest) =>
                if rest.rest.length < source.rest.length then
                  let (others, finish) := members readValue false rest
                  ((key, value, rest.resume) :: others, finish)
                else ([(key, value, rest.resume)], .error rest.offset)
termination_by source.rest.length

/-- A value that may hold values in at most `levels` levels. -/
def value : Nat → Source → Draft × Except Nat Source
  | levels, source =>
      let source := source.skipBlank
      match source.rest.head? with
      | some '[' =>
          match levels with
          | 0 => (.broken source.peeked, .error source.peeked)
          | levels + 1 =>
              let (parts, finish) := items (value levels) true (source.pass 1)
              (.array source.offset parts (finish.map (·.offset)), finish)
      | some '\x7b' =>
          match levels with
          | 0 => (.broken source.peeked, .error source.peeked)
          | levels + 1 =>
              let (parts, finish) := members (value levels) true (source.pass 1)
              (.object source.offset parts (finish.map (·.offset)), finish)
      | _ =>
          match scalarValue source with
          | .ok (content, rest) => (.scalar content ⟨source.offset, rest.offset⟩, .ok rest)
          | .error offset => (.broken offset, .error offset)

def maxDepth : Nat := 127

def first (text : List Char) : Draft × Except Nat Source := value maxDepth ⟨text, 0⟩

/-- The byte of the first character other than a blank. -/
def trailing? (source : Source) : Option Nat :=
  let source := source.skipBlank
  if source.rest.isEmpty then none else some source.peeked

mutual

def break? : Draft → Option Nat
  | scalar _ _ => none
  | array _ items finish => (itemsBreak? items).or (finishBreak? finish)
  | object _ members finish => (membersBreak? members).or (finishBreak? finish)
  | broken offset => some offset

def itemsBreak? : List Draft → Option Nat
  | [] => none
  | item :: rest => (break? item).or (itemsBreak? rest)

def membersBreak? : List (Key × Draft × Nat) → Option Nat
  | [] => none
  | (_, value, _) :: rest => (break? value).or (membersBreak? rest)

def finishBreak? : Except Nat Nat → Option Nat
  | .error offset => some offset
  | .ok _ => none

end

mutual

/-- The document without places; broken parts count as null. -/
def toJson : Draft → Json
  | scalar value _ => value
  | array _ items _ => .array (itemsToJson items)
  | object _ members _ => .object (membersToJson members)
  | broken _ => .null

def itemsToJson : List Draft → List Json
  | [] => []
  | item :: rest => toJson item :: itemsToJson rest

def membersToJson : List (Key × Draft × Nat) → List (String × Json)
  | [] => []
  | (key, value, _) :: rest => (key.name, toJson value) :: membersToJson rest

end

mutual

/-- A whole document as a draft whose places are all zero. -/
def ofJson : Json → Draft
  | .array items => array 0 (ofItems items) (.ok 0)
  | .object members => object 0 (ofMembers members) (.ok 0)
  | value => scalar value ⟨0, 0⟩

def ofItems : List Json → List Draft
  | [] => []
  | item :: rest => ofJson item :: ofItems rest

def ofMembers : List (String × Json) → List (Key × Draft × Nat)
  | [] => []
  | (name, value) :: rest => (⟨name, 0⟩, ofJson value, 0) :: ofMembers rest

end

end Draft

/-- The document that a text holds, if it is JSON from end to end. -/
def parse? (text : String) : Option Json :=
  match Draft.first text.toList with
  | (draft, .ok rest) => if (Draft.trailing? rest).isNone then some draft.toJson else none
  | (_, .error _) => none

end DetectionRules.Json
