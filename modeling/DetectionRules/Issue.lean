import DetectionRules.Json.Shape

/-!
What was found in a rule or in the making of one. Issues are data: none of them
stops anything by itself. Two issues with one code at one place are the same.
-/

namespace DetectionRules

open Json (Shape)

inductive Severity where
  | high
  | medium
  | low
deriving DecidableEq

namespace Severity

def all : List Severity := [high, medium, low]

def name : Severity → String
  | high => "HIGH"
  | medium => "MEDIUM"
  | low => "LOW"

def ofName? (name : String) : Option Severity := all.find? (·.name == name)

/-- The points of confidence that one issue costs. -/
def penalty : Severity → Nat
  | high => 40
  | medium => 10
  | low => 3

end Severity

structure Issue where
  code : String
  severity : Severity
  location : String
  message : String
  suggestions : List String := []
deriving DecidableEq

namespace Issue

def isSame (first second : Issue) : Bool :=
  first.code == second.code && first.location == second.location

/-- Adds an issue unless the same one is already there. -/
def add (issues : List Issue) (issue : Issue) : List Issue :=
  if issues.any (·.isSame issue) then issues else issues ++ [issue]

def addAll (issues found : List Issue) : List Issue := found.foldl add issues

def anyHigh (issues : List Issue) : Bool := issues.any (·.severity == .high)

/-- The suggestions of the more severe issues first, each of them once. -/
def recommendations (issues : List Issue) : List String :=
  (Severity.all.flatMap fun severity =>
    (issues.filter (·.severity == severity)).flatMap (·.suggestions)).eraseDups

def shape : Shape := .record
  [("message", .text, true), ("severity", .choice (Severity.all.map Severity.name), true),
    ("location", .text, true), ("code", .text, true), ("suggestions", .list .text, false)]

def toJson (issue : Issue) : Json := .object
  [("message", .str issue.message), ("severity", .str issue.severity.name),
    ("location", .str issue.location), ("code", .str issue.code),
    ("suggestions", .ofStrings issue.suggestions)]

def ofJson? (json : Json) : Option Issue := do
  let code ← (← json.member? "code").str?
  let severity ← Severity.ofName? (← (← json.member? "severity").str?)
  let location ← (← json.member? "location").str?
  let message ← (← json.member? "message").str?
  let suggestions ← ((json.member? "suggestions").getD (.array [])).strings?
  return ⟨code, severity, location, message, suggestions⟩

end Issue

inductive Verdict where
  | success
  | warning
  | error
deriving DecidableEq

namespace Verdict

def all : List Verdict := [success, warning, error]

def name : Verdict → String
  | success => "SUCCESS"
  | warning => "WARNING"
  | error => "ERROR"

def ofName? (name : String) : Option Verdict := all.find? (·.name == name)

def ofIssues (issues : List Issue) : Verdict :=
  if Issue.anyHigh issues then error else if issues.isEmpty then success else warning

end Verdict

end DetectionRules
