import DetectionRules.Text.Basic
import DetectionRules.Yaml.Cursor

/-!
The text of YAML scalars in their five styles. Within plain and quoted scalars
a single line break is folded into a space and of several line breaks the first
is dropped; within block scalars line breaks stay or are folded by the style,
and those at the end are kept or dropped by an indicator.
-/

namespace DetectionRules.Yaml

/-- The gaps and line breaks between two words. -/
structure Space where
  gaps : List Char := []
  breaks : List (List Char) := []

namespace Space

/-- The space as text when lines are folded. -/
def folded (space : Space) : List Char :=
  match space.breaks with
  | [] => space.gaps
  | [['\n']] => [' ']
  | ['\n'] :: others => others.flatten
  | breaks => breaks.flatten

/-- Reads on through gaps and line breaks; no tab may indent a line by less than `indent`. -/
def step (indent : Nat) (space : Space) (cursor : Cursor) : Option (Option (Space × Cursor)) :=
  match cursor.next? with
  | none => some none
  | some c =>
      if isGap c then
        if space.breaks.isEmpty then
          some (some ({ space with gaps := space.gaps ++ [c] }, cursor.pass 1))
        else if c = '\t' && cursor.column < indent then none
        else some (some (space, cursor.pass 1))
      else if isBreak c then
        let (text, after) := cursor.passBreak
        some (some ({ space with breaks := space.breaks ++ [text] }, after))
      else some none

def read (indent : Nat) (cursor : Cursor) : Option (Space × Cursor) :=
  cursor.iterate (step indent) {}

end Space

def charOfHex? (width : Nat) (characters : List Char) : Option (Char × Nat) := do
  let digits := characters.take width
  if digits.length < width then none
  else
    let code ← Text.hexValue? digits
    if (0xD800 ≤ code ∧ code ≤ 0xDFFF) ∨ 0x10FFFF < code then none
    else some (Char.ofNat code, width)

/-- The character after a backslash, and how many characters of text it takes. -/
def escape? : List Char → Option (Char × Nat)
  | [] => none
  | c :: rest =>
      match c with
      | '0' => some ('\x00', 1)
      | 'a' => some ('\x07', 1)
      | 'b' => some ('\x08', 1)
      | 't' => some ('\t', 1)
      | '\t' => some ('\t', 1)
      | 'n' => some ('\n', 1)
      | 'v' => some ('\x0B', 1)
      | 'f' => some ('\x0C', 1)
      | 'r' => some ('\r', 1)
      | 'e' => some ('\x1B', 1)
      | ' ' => some (' ', 1)
      | '"' => some ('"', 1)
      | '/' => some ('/', 1)
      | '\\' => some ('\\', 1)
      | 'N' => some ('\u0085', 1)
      | '_' => some ('\u00A0', 1)
      | 'L' => some ('\u2028', 1)
      | 'P' => some ('\u2029', 1)
      | 'x' => (charOfHex? 2 rest).map fun (c, size) => (c, size + 1)
      | 'u' => (charOfHex? 4 rest).map fun (c, size) => (c, size + 1)
      | 'U' => (charOfHex? 8 rest).map fun (c, size) => (c, size + 1)
      | _ => none

/-- Reads on through a quoted scalar; the state is the text so far, the last character first. -/
def quotedStep (isSingle : Bool) (text : List Char) (cursor : Cursor) :
    Option (Option (List Char × Cursor)) :=
  if cursor.atDocumentMark then none
  else match cursor.rest with
    | [] => none
    | c :: rest =>
        if isSingle && c == '\'' then
          if rest.head? == some '\'' then some (some ('\'' :: text, cursor.pass 2)) else some none
        else if !isSingle && c == '"' then some none
        else if !isSingle && c == '\\' then
          if !rest.isEmpty && atLineEnd rest then do
            let (space, after) ← Space.read 0 (cursor.pass 1).passBreak.2
            return some (space.breaks.flatten.reverse ++ text, after)
          else do
            let (escaped, size) ← escape? rest
            return some (escaped :: text, cursor.pass (size + 1))
        else if isGap c || isBreak c then do
          let (space, after) ← Space.read 0 cursor
          return some (space.folded.reverse ++ text, after)
        else some (some (c :: text, cursor.pass 1))

def quoted (isSingle : Bool) (cursor : Cursor) : Option (String × Cursor) := do
  let (text, closing) ← (cursor.pass 1).iterate (quotedStep isSingle) []
  return (String.ofList text.reverse, closing.pass 1)

/-- A plain scalar as far as it has been read. -/
structure Plain where
  /-- The words, the last character first. -/
  text : List Char := []
  /-- The space after the last word; it belongs to the scalar only if a word follows. -/
  space : Space := {}

/-- Whether a plain scalar must stop before these characters. -/
def endsPlain (inFlow : Bool) : List Char → Bool
  | ':' :: rest => atWordEnd rest
  | c :: _ => inFlow && ",[]\x7b\x7d".toList.contains c
  | [] => true

/-- Whether a colon stands before a sign that no plain scalar may hold after a colon. -/
def strayColon (inFlow : Bool) : List Char → Bool
  | ':' :: c :: _ => inFlow && ",?[]\x7b\x7d".toList.contains c
  | _ => false

def plainStep (inFlow : Bool) (indent : Nat) (plain : Plain) (cursor : Cursor) :
    Option (Option (Plain × Cursor)) :=
  let betweenWords := plain.text.isEmpty || !plain.space.gaps.isEmpty || !plain.space.breaks.isEmpty
  if cursor.atDocumentMark then some none
  else match cursor.rest with
    | [] => some none
    | c :: _ =>
        if betweenWords && c == '#' then some none
        else if isGap c || isBreak c then
          if betweenWords then some none
          else do
            let (space, after) ← Space.read indent cursor
            return some ({ plain with space }, after)
        else if !inFlow && !plain.space.breaks.isEmpty && cursor.column < indent then some none
        else if strayColon inFlow cursor.rest then none
        else if endsPlain inFlow cursor.rest then some none
        else some (some (⟨c :: plain.space.folded.reverse ++ plain.text, {}⟩, cursor.pass 1))

/-- A plain scalar, whether it ends in a line break, and the cursor after it. -/
def plain (inFlow : Bool) (indent : Nat) (cursor : Cursor) : Option (String × Bool × Cursor) := do
  let (plain, after) ← cursor.iterate (plainStep inFlow indent) {}
  return (String.ofList plain.text.reverse, !plain.space.breaks.isEmpty, after)

/-- What happens to the line breaks at the end of a block scalar. -/
inductive Chomping where
  | strip
  | clip
  | keep
deriving DecidableEq

/-- What the first line of a block scalar says. -/
structure BlockHeader where
  chomping : Chomping := .clip
  increment : Option Nat := none

namespace BlockHeader

def chomping? : Char → Option Chomping
  | '+' => some .keep
  | '-' => some .strip
  | _ => none

/-- Reads both indicators in any order, and how many characters they take. -/
def read (characters : List Char) : Option (BlockHeader × Nat) :=
  match characters with
  | [] => some ({}, 0)
  | first :: rest =>
      match chomping? first with
      | some chomping =>
          match rest.head? with
          | some digit =>
              if !digit.isDigit then some ({ chomping }, 1)
              else if digit = '0' then none
              else some (⟨chomping, some (digit.toNat - '0'.toNat)⟩, 2)
          | none => some ({ chomping }, 1)
      | none =>
          if !first.isDigit then some ({}, 0)
          else if first = '0' then none
          else
            let increment := some (first.toNat - '0'.toNat)
            match rest.head?.bind chomping? with
            | some chomping => some (⟨chomping, increment⟩, 2)
            | none => some ({ increment }, 1)

end BlockHeader

structure BlankLines where
  breaks : List (List Char) := []
  width : Nat := 0

/-- Reads on through blank lines; without an indentation every space counts as indentation. -/
def blankLinesStep (indent : Option Nat) (lines : BlankLines) (cursor : Cursor) :
    Option (Option (BlankLines × Cursor)) :=
  let room := match indent with
    | some indent => indent - cursor.column
    | none => cursor.rest.length
  let spaces := (cursor.rest.takeWhile (· == ' ')).length
  let after := cursor.pass (min room spaces)
  let width := max lines.width after.column
  let mayIndent := indent.all (after.column < ·)
  if mayIndent && after.nextIs '\t' then none
  else if after.next?.any isBreak then
    let (text, next) := after.passBreak
    some (some (⟨lines.breaks ++ [text], width⟩, next))
  else if after.column = cursor.column && lines.width = width then some none
  else some (some ({ lines with width }, after))

def blankLines (indent : Option Nat) (cursor : Cursor) : Option (BlankLines × Cursor) :=
  cursor.iterate (blankLinesStep indent) {}

structure Block where
  /-- The lines with what joins them, the last first. -/
  parts : List (List Char) := []
  lastBreak : List Char := []
  /-- The line breaks of blank lines after that. -/
  blankBreaks : List Char := []
  /-- Whether the last line begins with a gap. -/
  indented : Bool := false

/-- Reads the next line of a block scalar and the blank lines after it. -/
def blockStep (isLiteral : Bool) (indent : Nat) (block : Block) (cursor : Cursor) :
    Option (Option (Block × Cursor)) :=
  if cursor.column != indent || cursor.rest.isEmpty then some none
  else do
    let indented := cursor.next?.any isGap
    let joint :=
      if !isLiteral && block.lastBreak == ['\n'] && !block.indented && !indented then
        if block.blankBreaks.isEmpty then [' '] else block.blankBreaks
      else block.lastBreak ++ block.blankBreaks
    let line := cursor.rest.takeWhile fun c => !isBreak c
    let (lastBreak, after) := (cursor.pass line.length).passBreak
    let (lines, after) ← blankLines (some indent) after
    return some (⟨line :: joint :: block.parts, lastBreak, lines.breaks.flatten, indented⟩, after)

/-- A block scalar whose surroundings are indented by less than `minIndent`. -/
def blockScalar (isLiteral : Bool) (minIndent : Nat) (cursor : Cursor) :
    Option (String × Cursor) := do
  let (header, size) ← BlockHeader.read (cursor.rest.drop 1)
  let afterHeader := (cursor.pass (size + 1)).passWhile isGap |>.passComment
  if !atLineEnd afterHeader.rest then none
  else
    let start := afterHeader.passBreak.2
    let fixed := header.increment.map fun increment => minIndent - 1 + increment
    let (lines, start) ← blankLines fixed start
    let indent := fixed.getD (max (max lines.width minIndent) 1)
    let (block, after) ← start.iterate (blockStep isLiteral indent)
      { blankBreaks := lines.breaks.flatten }
    let ending := match header.chomping with
      | .strip => []
      | .clip => block.lastBreak
      | .keep => block.lastBreak ++ block.blankBreaks
    return (String.ofList (block.parts.reverse.flatten ++ ending), after)

end DetectionRules.Yaml
