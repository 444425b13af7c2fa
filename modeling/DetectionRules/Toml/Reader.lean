import DetectionRules.Json.Basic
import DetectionRules.Toml.Scalar

/-!
The entries of a TOML document while it is read. A table may be opened by a
header or by a dotted key, and only once; on the way to it, tables that nobody
has opened yet come into being, which a header may open later. A value stays as
it was written.

TOML documents from text, as JSON documents. Arrays and inline tables may lie
within each other in at most 80 levels.
-/

namespace DetectionRules.Toml

/-- How a table came into being. -/
inductive Origin where
  | header
  | dottedKey
  /-- On the way of a header to another table. -/
  | passage
deriving DecidableEq

inductive Entry where
  | value (value : Json)
  | table (origin : Origin) (entries : List (String × Entry))
  /-- A list of tables, of which the last is open. -/
  | tables (items : List (List (String × Entry)))

abbrev Entries := List (String × Entry)

mutual

def Entry.toJson : Entry → Json
  | .value value => value
  | .table _ entries => .object (membersOf entries)
  | .tables items => .array (tablesOf items)

def membersOf : List (String × Entry) → List (String × Json)
  | [] => []
  | (key, entry) :: rest => (key, entry.toJson) :: membersOf rest

def tablesOf : List (List (String × Entry)) → List Json
  | [] => []
  | item :: rest => .object (membersOf item) :: tablesOf rest

end

namespace Entries

def put (key : String) (entry : Entry) : Entries → Entries
  | [] => [(key, entry)]
  | (other, found) :: rest =>
      if other = key then (key, entry) :: rest else (other, found) :: put key entry rest

/-- Changes the table at the end of a path that begins at these entries. -/
def update (isHeader : Bool) (change : Entries → Option Entries) (entries : Entries) :
    List String → Option Entries
  | [] => change entries
  | key :: path =>
      match entries.lookup key with
      | none => do
          let inner ← update isHeader change [] path
          return entries.put key (.table (if isHeader then .passage else .dottedKey) inner)
      | some (.value _) => none
      | some (.table origin inner) =>
          let allowed := isHeader || if path.isEmpty then origin = .dottedKey else origin ≠ .header
          if allowed then do
            return entries.put key (.table origin (← update isHeader change inner path))
          else none
      | some (.tables items) =>
          if !isHeader && path.isEmpty then none
          else match items.getLast? with
            | none => none
            | some last => do
                return entries.put key (.tables (items.dropLast ++ [← update isHeader change last path]))

structure Line where
  path : List String
  key : String
  value : Json

/-- Adds a value under a key that is not taken. -/
def addLine (entries : Entries) (line : Line) : Option Entries :=
  entries.update false (fun table =>
    if (table.lookup line.key).isSome then none
    else some (table ++ [(line.key, .value line.value)])) line.path

def addLines (entries : Entries) (lines : List Line) : Option Entries := lines.foldlM addLine entries

structure Header where
  path : List String
  key : String
  isList : Bool

def addSection (entries : Entries) (header : Header) (lines : List Line) : Option Entries :=
  entries.update true (fun parent => do
    match parent.lookup header.key with
    | none =>
        let table ← addLines [] lines
        return parent.put header.key (if header.isList then .tables [table] else .table .header table)
    | some (.tables items) =>
        if header.isList then
          return parent.put header.key (.tables (items ++ [← addLines [] lines]))
        else none
    | some (.table .passage table) =>
        if header.isList then none
        else return parent.put header.key (.table .header (← addLines table lines))
    | some _ => none) header.path

end Entries

end DetectionRules.Toml

namespace DetectionRules.Toml

open Reader

def skipGap : TextReader Unit := modify (·.dropWhile isGap)

def skipComment : TextReader Unit := do
  if ← takesWhere (· == '#') then modify (·.dropWhile isPlain)

def skipBlankLines : TextReader Unit := do
  let _ ← many do
    skipGap
    skipComment
    match afterBreak? (← get) with
    | some rest =>
        set rest
        return some ()
    | none => return none

def isBare (c : Char) : Bool := c.isAlphanum || c == '_' || c == '-'

def keyPart : TextReader String := do
  match ← next? with
  | some '"' | some '\'' => string false
  | _ =>
      let bare ← takeWhile isBare
      if bare.isEmpty then failure else return String.ofList bare

def maxDepth : Nat := 80

/-- The parts of a dotted key, of which the last is apart. -/
def dottedKey : TextReader (List String × String) := do
  let first ← keyPart
  let others ← many do
    skipGap
    if ← takesWhere (· == '.') then
      skipGap
      return some (← keyPart)
    else return none
  skipGap
  let parts := first :: others
  if maxDepth ≤ parts.length then failure
  match parts.getLast? with
  | some last => return (parts.dropLast, last)
  | none => failure

/-- A key with its value, given how to read a value. -/
def line (value : TextReader Json) : TextReader Entries.Line := do
  let (path, key) ← dottedKey
  expect ['=']
  skipGap
  return ⟨path, key, ← value⟩

/-- Whether another item follows in an array that has been opened; a comma may come last. -/
def nextItem (isFirst : Bool) : TextReader Bool := do
  skipBlankLines
  if ← takesWhere (· == ']') then return false
  else if isFirst then return true
  else
    expect [',']
    skipBlankLines
    return !(← takesWhere (· == ']'))

def array (value : TextReader Json) : TextReader Json := do
  let items ← afterFirst fun isFirst => do
    if ← nextItem isFirst then return some (← value) else return none
  return .array items

def nextMember (isFirst : Bool) : TextReader Bool := do
  skipGap
  if isFirst then return !(← takesWhere (· == '\x7d'))
  else if ← takesWhere (· == '\x7d') then return false
  else
    expect [',']
    skipGap
    return true

def inlineTable (value : TextReader Json) : TextReader Json := do
  let lines ← afterFirst fun isFirst => do
    if ← nextMember isFirst then return some (← line value) else return none
  match Entries.addLines [] lines with
  | some entries => return .object (membersOf entries)
  | none => failure

/-- A value that begins with a character, given how to read the values inside of it. -/
def valueFrom (inner : Option (TextReader Json)) : Option Char → TextReader Json
  | some '"' | some '\'' => do return .str (← string true)
  | some 't' => do
      expect "true".toList
      return .bool true
  | some 'f' => do
      expect "false".toList
      return .bool false
  | some '[' =>
      match inner with
      | none => failure
      | some value => do
          skip 1
          array value
  | some '\x7b' =>
      match inner with
      | none => failure
      | some value => do
          skip 1
          inlineTable value
  | _ => do if Date.begins (← get) then Date.read else Number.read

/-- A value that may hold values in at most `levels` levels. -/
def value : Nat → TextReader Json
  | 0 => do valueFrom none (← next?)
  | levels + 1 => do valueFrom (some (value levels)) (← next?)

inductive Statement where
  | header (header : Entries.Header)
  | line (line : Entries.Line)

def header (isList : Bool) : TextReader Entries.Header := do
  skipGap
  let (path, key) ← dottedKey
  expect (if isList then [']', ']'] else [']'])
  return ⟨path, key, isList⟩

def statement : TextReader (Option Statement) := do
  skipBlankLines
  if (← get).isEmpty then return none
  let statement ←
    if ← takesWhere (· == '[') then do
      let isList ← takesWhere (· == '[')
      pure (.header (← header isList))
    else do
      pure (.line (← line (value maxDepth)))
  skipGap
  skipComment
  if (← get).isEmpty || (afterBreak? (← get)).isSome then return some statement else failure

def leadingLines : List Statement → List Entries.Line
  | .line line :: rest => line :: leadingLines rest
  | _ => []

def addStatements (entries : Entries) : List Statement → Option Entries
  | [] => some entries
  | .header header :: rest => do
      addStatements (← entries.addSection header (leadingLines rest)) rest
  | .line _ :: rest => addStatements entries rest

def read? (text : String) : Option Json := do
  let characters := text.toList
  let characters := if characters.head? == some '\uFEFF' then characters.drop 1 else characters
  let (statements, rest) ← many statement characters
  if !rest.isEmpty then none
  let entries ← addStatements (← Entries.addLines [] (leadingLines statements)) statements
  return .object (membersOf entries)

end DetectionRules.Toml
