import DetectionRules.CommandLine.Host
import DetectionRules.Yaml.Writer

/-!
How results are shown: as text for readers, perhaps with colours, as tables, or
as JSON or YAML for programs.

How many columns of a terminal a text takes. East Asian wide characters take
two, marks that join the character before them take none.

Tables with rounded corners. Cells are on the left of their columns, each of
which is as wide as its widest cell.
-/

namespace DetectionRules.CommandLine

inductive OutputFormat where
  | plain
  | json
  | yaml
  | table
deriving DecidableEq

namespace OutputFormat

/-- Reads a name; the case of letters does not matter. -/
def ofName? (name : String) : Option OutputFormat :=
  match Text.lower name with
  | "plain" | "text" | "human" => some plain
  | "json" => some json
  | "yaml" | "yml" => some yaml
  | "table" | "tbl" => some table
  | _ => none

def isMachine : OutputFormat → Bool
  | json | yaml => true
  | plain | table => false

end OutputFormat

/-- The look of a text, as the numbers that terminals know it by. -/
inductive Look where
  | bold
  | dimmed
  | red
  | green
  | yellow
  | cyan

def Look.number : Look → String
  | bold => "1"
  | dimmed => "2"
  | red => "31"
  | green => "32"
  | yellow => "33"
  | cyan => "36"

structure Terminal where
  format : OutputFormat
  isColoured : Bool

namespace Terminal

def paint (terminal : Terminal) (looks : List Look) (text : String) : String :=
  if terminal.isColoured then
    "\x1b[" ++ String.intercalate ";" (looks.map Look.number) ++ "m" ++ text ++ "\x1b[0m"
  else text

variable {m : Type → Type} [Monad m] [Host m]

def document (terminal : Terminal) (json : Json) : Task m Unit :=
  if terminal.format = .yaml then Task.print (Yaml.Document.ofJson json).write
  else Task.printLine json.pretty

/-- Says how something went: to programs as a document, to readers beside the output. -/
def statusLine (terminal : Terminal) (status label : String) (looks : List Look) (message : String) :
    Task m Unit :=
  let body := Json.object [("message", .str message), ("status", .str status)]
  match terminal.format with
  | .json => Task.printLine body.text
  | .yaml => Task.print (Yaml.Document.ofJson body).write
  | _ => Task.reportLine (terminal.paint looks label ++ " " ++ message)

def success (terminal : Terminal) (message : String) : Task m Unit :=
  terminal.statusLine "success" "Success:" [.bold, .green] message

def warn (terminal : Terminal) (message : String) : Task m Unit :=
  terminal.statusLine "warning" "Warning:" [.bold, .yellow] message

end Terminal

end DetectionRules.CommandLine

namespace DetectionRules.Text

def wideRanges : List (Nat × Nat) :=
  [(0x1100, 0x115F), (0x231A, 0x231B), (0x2329, 0x232A), (0x23E9, 0x23EC), (0x2E80, 0x303E),
    (0x3041, 0xA4CF), (0xA960, 0xA97C), (0xAC00, 0xD7A3), (0xF900, 0xFAFF), (0xFE10, 0xFE19),
    (0xFE30, 0xFE6F), (0xFF01, 0xFF60), (0xFFE0, 0xFFE6), (0x1F300, 0x1F64F), (0x1F680, 0x1F6FC),
    (0x1F900, 0x1F9FF), (0x20000, 0x3FFFD)]

def joiningRanges : List (Nat × Nat) :=
  [(0x0000, 0x001F), (0x007F, 0x009F), (0x0300, 0x036F), (0x0483, 0x0489), (0x0591, 0x05BD),
    (0x064B, 0x065F), (0x200B, 0x200F), (0x20D0, 0x20F0), (0xFE00, 0xFE0F), (0xFE20, 0xFE2F)]

def inRanges (ranges : List (Nat × Nat)) (c : Char) : Bool :=
  ranges.any fun (first, last) => first ≤ c.toNat && c.toNat ≤ last

def columnsOf (c : Char) : Nat :=
  if inRanges joiningRanges c then 0 else if inRanges wideRanges c then 2 else 1

def columns (text : String) : Nat := text.toList.foldl (fun columns c => columns + columnsOf c) 0

end DetectionRules.Text

namespace DetectionRules.CommandLine.Table

def padded (width : Nat) (cell : String) : String :=
  cell ++ String.ofList (List.replicate (width - Text.columns cell) ' ')

def widen : List Nat → List String → List Nat
  | widths, [] => widths
  | [], cell :: row => Text.columns cell :: widen [] row
  | width :: widths, cell :: row => max width (Text.columns cell) :: widen widths row

def rule (widths : List Nat) (left middle right : String) : String :=
  let bars := widths.map fun width => String.ofList (List.replicate (width + 2) '─')
  left ++ String.intercalate middle bars ++ right

def rowText (widths : List Nat) (row : List String) : String :=
  "│" ++ String.join (List.zipWith (fun width cell => " " ++ padded width cell ++ " │") widths row)

def lines (heading : List String) (rows : List (List String)) : List String :=
  let widths := (heading :: rows).foldl widen []
  [rule widths "╭" "┬" "╮", rowText widths heading, rule widths "├" "┼" "┤"]
    ++ rows.map (rowText widths) ++ [rule widths "╰" "┴" "╯"]

def text (heading : List String) (rows : List (List String)) : String :=
  String.intercalate "\n" (lines heading rows)

end DetectionRules.CommandLine.Table
