/-!
Places in YAML text. Columns count characters from zero. A line may end in any
of the line breaks of YAML 1.1, all of which but two are read as a line feed.
-/

namespace DetectionRules.Yaml

structure Cursor where
  rest : List Char
  line : Nat := 0
  column : Nat := 0
  index : Nat := 0

def isGap (c : Char) : Bool := c == ' ' || c == '\t'

def isSeparator (c : Char) : Bool := c == '\u2028' || c == '\u2029'

def isBreak (c : Char) : Bool := c == '\n' || c == '\r' || c == '\u0085' || isSeparator c

def atWordEnd : List Char → Bool
  | [] => true
  | c :: _ => isGap c || isBreak c

def atLineEnd : List Char → Bool
  | [] => true
  | c :: _ => isBreak c

/-- Letters of anchors and of the handles of tags. -/
def isNameChar (c : Char) : Bool := c.isAlphanum || c == '_' || c == '-'

namespace Cursor

def next? (cursor : Cursor) : Option Char := cursor.rest.head?

def nextIs (c : Char) (cursor : Cursor) : Bool := cursor.rest.head? == some c

/-- Passes over characters of the same line. -/
def pass (cursor : Cursor) (count : Nat) : Cursor :=
  let count := min count cursor.rest.length
  { cursor with
    rest := cursor.rest.drop count
    column := cursor.column + count
    index := cursor.index + count }

def passWhile (test : Char → Bool) (cursor : Cursor) : Cursor :=
  cursor.pass (cursor.rest.takeWhile test).length

/-- The line break that comes next as text, and the cursor after it. -/
def passBreak (cursor : Cursor) : List Char × Cursor :=
  let after (count : Nat) : Cursor :=
    ⟨cursor.rest.drop count, cursor.line + 1, 0, cursor.index + count⟩
  match cursor.rest with
  | '\r' :: '\n' :: _ => (['\n'], after 2)
  | c :: _ => (if isSeparator c then [c] else ['\n'], after 1)
  | [] => ([], cursor)

/-- Whether a line of three hyphens or three dots, perhaps with more behind a gap, begins here. -/
def atDocumentMark (cursor : Cursor) : Bool :=
  cursor.column == 0 && ["---", "..."].any (fun mark => mark.toList.isPrefixOf cursor.rest)
    && atWordEnd (cursor.rest.drop 3)

/-- Repeats a step for as long as it gives a result and takes characters. -/
def iterate {State : Type} (step : State → Cursor → Option (Option (State × Cursor)))
    (state : State) (cursor : Cursor) : Option (State × Cursor) :=
  match step state cursor with
  | none => none
  | some none => some (state, cursor)
  | some (some (state, after)) =>
      if after.rest.length < cursor.rest.length then iterate step state after
      else some (state, after)
termination_by cursor.rest.length

def passComment (cursor : Cursor) : Cursor :=
  if cursor.nextIs '#' then cursor.passWhile (fun c => !isBreak c) else cursor

end Cursor

end DetectionRules.Yaml
