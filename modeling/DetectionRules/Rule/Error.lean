import DetectionRules.Format

/-!
Places in rule text. A place is given as a byte offset while text is read and
shown as a line and a column, both counted from one; columns count characters.

Why rule text cannot be read and why a rule cannot be written. A reader works
with faults, which sit at a byte offset or at the end of the text; the place of
a fault is worked out once the whole text is at hand.
-/

namespace DetectionRules

structure Position where
  line : Nat
  column : Nat
deriving DecidableEq

namespace Position

def start : Position := ⟨1, 1⟩

def after (position : Position) (c : Char) : Position :=
  if c = '\n' then ⟨position.line + 1, 1⟩ else ⟨position.line, position.column + 1⟩

/-- Steps over the characters that begin within the next `bytes` bytes. -/
def advance (position : Position) : Nat → List Char → Position
  | _, [] => position
  | 0, _ :: _ => position
  | bytes + 1, c :: rest => advance (position.after c) (bytes + 1 - c.utf8Size) rest

/-- The place of a byte offset; an offset past the end stands for the end. -/
def ofOffset (text : String) (offset : Nat) : Position := start.advance offset text.toList

def text (position : Position) : String :=
  "line " ++ toString position.line ++ ", column " ++ toString position.column

end Position

inductive RuleError where
  /-- A text that cannot be read. It has no place if only the reader of YAML knows the place. -/
  | malformed (format : Format) (position : Option Position) (reason : String)
  | unsupported (format : Format) (construct : String)
  | unwritable (format : Format) (reason : String)
  | unknownFormat (name : String)
deriving DecidableEq

namespace RuleError

def message : RuleError → String
  | malformed format (some position) reason =>
      format.name ++ " parse error at " ++ position.text ++ ": " ++ reason
  | malformed format none reason => format.name ++ " parse error: " ++ reason
  | unsupported format construct => format.name ++ " cannot express " ++ construct
  | unwritable format reason => format.name ++ " generation failed: " ++ reason
  | unknownFormat name => "Unknown format: " ++ name

def format? : RuleError → Option Format
  | malformed format _ _ | unsupported format _ | unwritable format _ => some format
  | unknownFormat _ => none

end RuleError

/-- Why a reader stops. A place is a byte offset; none stands for the end of the text. -/
inductive Fault where
  | malformed (offset : Option Nat) (reason : String)
  | unsupported (construct : String)
deriving DecidableEq

namespace Fault

/-- A fault of the text as a whole, shown at its start. -/
def whole (reason : String) : Fault := malformed (some 0) reason

def toError (fault : Fault) (format : Format) (text : String) : RuleError :=
  match fault with
  | malformed offset reason =>
      .malformed format (some (Position.ofOffset text (offset.getD text.utf8ByteSize))) reason
  | unsupported construct => .unsupported format construct

end Fault

end DetectionRules
