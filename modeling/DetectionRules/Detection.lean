import DetectionRules.Dialect.Registry
import DetectionRules.Job.Error
import DetectionRules.Rule.Json
import DetectionRules.Text.Timestamp

/-!
Rules as they are stored: the text with its dialect, who owns it, and whether it
is in use. The identifier and the time of a stored rule are only checked.
-/

namespace DetectionRules

open Json (Shape)

structure Detection where
  content : String
  format : Format
  user : Option String := none
  isActive : Bool
  metadata : Json

namespace Detection

/-- A rule to be stored, whose text must not be blank. -/
def create (content : String) (format : Format) : Except JobError Detection :=
  if Text.isAllBlank content then .error (.invalidRequest "detection content is empty")
  else .ok { content, format, isActive := true, metadata := .object [] }

def checkSyntax (detection : Detection) : Except RuleError Unit :=
  (detection.format.read detection.content).map fun _ => ()

def textPassing (test : String → Bool) : Shape := .passing fun value => value.str?.any test

def shape : Shape := .record
  [("id", textPassing Text.isUuid, true), ("content", .text, true), ("format", Format.shape, true),
    ("createdAt", textPassing Text.isTimestamp, true), ("userId", .optional .text, false),
    ("isActive", .flag, true), ("metadata", .any, false)]

def ofJson? (document : Json) : Option Detection := do
  let json ← shape.fit? document
  let content ← (← json.member? "content").str?
  let format ← Format.ofJson? (← json.member? "format")
  let isActive ← (← json.member? "isActive").bool?
  let metadata := (json.member? "metadata").getD .null
  return { content, format, user := (json.member? "userId").bind Json.str?, isActive, metadata }

def toJson (detection : Detection) : Json := Json.ofMembers
  [some ("content", .str detection.content), some ("format", .str detection.format.name),
    detection.user.map fun user => ("userId", .str user),
    some ("isActive", .bool detection.isActive), some ("metadata", detection.metadata)]

end Detection

end DetectionRules
