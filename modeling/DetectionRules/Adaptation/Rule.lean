import DetectionRules.Advisor.Basic
import DetectionRules.Config.Basic
import DetectionRules.Issue
import DetectionRules.Number.Text

/-!
What becomes of one field of a rule in another dialect. The catalog comes first
and the advisor second; a suggestion counts only if it names a field of the
target dialect and is sure enough.

Rules in the words of another dialect. Tests on fields without a name there,
and tests that the dialect has no spelling for, are left out; a selection
without tests goes, and so does its name in the condition. Each loss is an
issue.
-/

namespace DetectionRules

/-- How a field was carried over; a dropped field has no target. -/
structure FieldPair where
  source : String
  target : Option String
deriving DecidableEq

inductive Resolution where
  | translated (native : String)
  | inferred (suggestion : FieldSuggestion)
  | dropped (reason : String)

namespace Resolution

def target? : Resolution → Option String
  | translated native => some native
  | inferred suggestion => some suggestion.field
  | dropped _ => none

def issue? (field : String) (target : Format) : Resolution → Option Issue
  | translated _ => none
  | inferred suggestion => some {
      code := "FIELD_INFERRED"
      severity := .low
      location := "field:" ++ field
      message := "'" ++ field ++ "' mapped to '" ++ suggestion.field ++
        "' by the semantic collaborator (confidence " ++ suggestion.confidence.fixed 2 ++ ")"
      suggestions := ["Review the inferred mapping " ++ field ++ " -> " ++ suggestion.field] }
  | dropped reason => some {
      code := "FIELD_DROPPED"
      severity := .medium
      location := "field:" ++ field
      message := "'" ++ field ++ "' has no " ++ target.displayName ++
        " equivalent and was dropped (" ++ reason ++ ")"
      suggestions := ["Map '" ++ field ++ "' manually or remove it from the rule"] }

end Resolution

structure FieldResolver (World : Type) where
  advisor : Option (Advisor World)
  policy : RetryPolicy AdvisorError
  timeoutSeconds : UInt64
  minConfidence : Binary64

namespace FieldResolver

variable {World : Type}

def ofConfig (config : Config) (advisor : Option (Advisor World)) : FieldResolver World where
  advisor
  policy := config.advisorPolicy
  timeoutSeconds := config.advisor.timeoutSeconds
  minConfidence := config.advisor.minConfidence

def question (rule : Rule) (target : Format) (field : String) : FieldQuestion where
  field
  source := rule.dialect
  target
  candidates := Catalog.fields target
  samples := (((rule.tests.filter (·.field == field)).flatMap (·.values)).take 5).map Value.text

def ask (resolver : FieldResolver World) (advisor : Advisor World) (question : FieldQuestion) :
    Activity World (Except AdvisorError FieldSuggestion) := do
  let answer ← (advisor question).within (resolver.timeoutSeconds.toNat * 1000)
  return answer.getD (.error (.timeout resolver.timeoutSeconds))

def judge (resolver : FieldResolver World) (candidates : List String) :
    Except AdvisorError FieldSuggestion → Resolution
  | .error error => .dropped error.message
  | .ok suggestion =>
      if suggestion.confidence.isBelow resolver.minConfidence then
        .dropped ("collaborator confidence " ++ suggestion.confidence.fixed 2 ++ " below " ++
          resolver.minConfidence.fixed 2)
      else if candidates.contains suggestion.field then .inferred suggestion
      else .dropped ("collaborator suggested unknown field '" ++ suggestion.field ++ "'")

def resolve (resolver : FieldResolver World) (rule : Rule) (target : Format) (field : String) :
    Activity World Resolution :=
  match Catalog.translate? rule.dialect target field with
  | some native => return .translated native
  | none =>
      match resolver.advisor with
      | none => return .dropped "no equivalent in the mapping table"
      | some advisor => do
          let question := question rule target field
          let (answer, _) ← resolver.policy.run fun _ => resolver.ask advisor question
          return resolver.judge question.candidates answer

def resolveAll (resolver : FieldResolver World) (rule : Rule) (target : Format) :
    List String → Activity World (List (String × Resolution))
  | [] => return []
  | field :: rest => do
      let resolution ← resolver.resolve rule target field
      let others ← resolver.resolveAll rule target rest
      return (field, resolution) :: others

end FieldResolver

structure Adaptation where
  /-- Nothing if no test is left. -/
  rule : Option Rule
  issues : List Issue
  fields : List FieldPair

namespace Adaptation

def native? (fields : List FieldPair) (field : String) : Option String :=
  (fields.find? (·.source == field)).bind (·.target)

inductive TestOutcome where
  | kept (test : FieldTest)
  | unsupported (native : String)
  | unnamed

def outcome (target : Format) (fields : List FieldPair) (test : FieldTest) : TestOutcome :=
  match native? fields test.field with
  | none => .unnamed
  | some native =>
      if Catalog.supports target native test.op then .kept { test with field := native }
      else .unsupported native

def kept? (target : Format) (fields : List FieldPair) (test : FieldTest) : Option FieldTest :=
  match outcome target fields test with
  | .kept test => some test
  | _ => none

def testIssue? (target : Format) (fields : List FieldPair) (test : FieldTest) : Option Issue :=
  match outcome target fields test with
  | .unsupported name => some {
      code := "OPERATOR_UNSUPPORTED"
      severity := .medium
      location := "field:" ++ test.field
      message := target.displayName ++ " cannot express '" ++ test.op.name ++ "' on '" ++ name ++
        "'; the match was dropped"
      suggestions := ["Rewrite the '" ++ test.field ++ "' match with an operator " ++
        target.displayName ++ " supports"] }
  | _ => none

def selection (target : Format) (fields : List FieldPair) (selection : Selection) : Selection :=
  ⟨selection.name, selection.tests.filterMap (kept? target fields)⟩

def emptiedIssue (name : String) : Issue where
  code := "SELECTION_EMPTIED"
  severity := .medium
  location := "selection:" ++ name
  message := "Selection '" ++ name ++ "' lost every match and was removed from the condition"

def selectionIssues (target : Format) (fields : List FieldPair) (source : Selection) : List Issue :=
  source.tests.filterMap (testIssue? target fields) ++
    if (selection target fields source).tests.isEmpty then [emptiedIssue source.name] else []

def nothingLeft (target : Format) : Issue where
  code := "EMPTY_DETECTION"
  severity := .high
  location := "detection"
  message := "Nothing in the rule can be expressed in " ++ target.displayName
  suggestions := ["Choose a target format that carries the rule's fields"]

/-- The condition without the names of the selections that are gone. -/
def condition? (emptied : List String) (condition : Logic String) : Option (Logic String) :=
  if emptied.isEmpty then some condition
  else condition.prune fun name => !emptied.contains name

/-- A count of the different values of a field without a name becomes a count of events. -/
def aggregation (fields : List FieldPair) (aggregation : Aggregation) : Aggregation :=
  { aggregation with
    counted := match aggregation.counted with
      | .events => .events
      | .distinct field => ((native? fields field).map Counted.distinct).getD .events
    groupBy := aggregation.groupBy.filterMap (native? fields) }

def partIssue? (target : Format) (source : LogSource) (part : LogSourcePart) : Option Issue :=
  if Catalog.carries target part then none
  else (part.get source).map fun value => {
    code := "LOGSOURCE_DROPPED"
    severity := .low
    location := "logsource." ++ part.name
    message := target.displayName ++ " cannot carry logsource " ++ part.name ++ " '" ++ value ++ "'" }

def logSource (target : Format) (source : LogSource) : LogSource :=
  (LogSourcePart.all.filter fun part => !Catalog.carries target part).foldl LogSourcePart.clear source

/-- The rule in the words of the target dialect, given its names for the fields. -/
def ofFields (rule : Rule) (target : Format) (fields : List FieldPair) (issues : List Issue) :
    Adaptation :=
  let adapted := rule.selections.map (selection target fields)
  let selections := adapted.filter (!·.tests.isEmpty)
  let emptied := (adapted.filter (·.tests.isEmpty)).map (·.name)
  let issues := issues ++ rule.selections.flatMap (selectionIssues target fields)
  match if selections.isEmpty then none else condition? emptied rule.condition with
  | none => ⟨none, issues ++ [nothingLeft target], fields⟩
  | some condition =>
      { rule := some { rule with
          dialect := target
          logSource := logSource target rule.logSource
          selections
          condition
          aggregation := rule.aggregation.map (aggregation fields) }
        issues := issues ++ LogSourcePart.all.filterMap (partIssue? target rule.logSource)
        fields }

def ofResolutions (rule : Rule) (target : Format) (resolutions : List (String × Resolution)) :
    Adaptation :=
  ofFields rule target (resolutions.map fun (field, resolution) => ⟨field, resolution.target?⟩)
    (resolutions.filterMap fun (field, resolution) => resolution.issue? field target)

end Adaptation

/-- The fields of the tests and of the aggregation, each of them once. -/
def Rule.referencedFields (rule : Rule) : List String :=
  (rule.fieldNames ++ (rule.aggregation.map (·.fields)).getD []).eraseDups

variable {World : Type}

def FieldResolver.adapt (resolver : FieldResolver World) (rule : Rule) (target : Format) :
    Activity World Adaptation := do
  let resolutions ← resolver.resolveAll rule target rule.referencedFields
  return Adaptation.ofResolutions rule target resolutions

end DetectionRules
