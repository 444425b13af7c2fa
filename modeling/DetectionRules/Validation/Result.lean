import DetectionRules.Rule.Json
import DetectionRules.Validation.Stage

/-!
Validation of a rule that was made from another one. The stages run in order up
to the first that finds an issue of high severity; the score comes last and
always.
-/

namespace DetectionRules

structure ValidationResult where
  verdict : Verdict
  score : Rat
  meetsQualityBar : Bool
  issues : List Issue
  source : Format
  target : Format
  fields : List String
  stages : List Stage

namespace Evidence

def runStages (evidence : Evidence) : List Stage → List Stage × Evidence
  | [] => ([], evidence)
  | stage :: rest =>
      let (found, known) := evidence.run stage
      let known := known.withIssues found
      if Issue.anyHigh found then ([stage], known)
      else
        let (stages, known) := known.runStages rest
        (stage :: stages, known)

def score (rounded : Rat → Rat) (evidence : Evidence) : Rat :=
  Score.score rounded evidence.targetRule.isSome evidence.issues
    (Score.preservation rounded evidence.fieldPairs evidence.targetRule)

end Evidence

structure ValidationInput where
  source : Format
  target : Format
  sourceText : Option String := none
  sourceRule : Option Rule := none
  targetText : String
  pairs : Option (List FieldPair) := none
  /-- Issues from the making of the target. -/
  prior : List Issue := []

namespace ValidationInput

def evidence (input : ValidationInput) : Evidence where
  source := input.source
  target := input.target
  sourceText := input.sourceText
  targetText := input.targetText
  sourceRule := input.sourceRule
  targetRule := none
  pairs := input.pairs
  issues := Issue.addAll [] input.prior

def validate (rounded : Rat → Rat) (threshold : Binary64) (input : ValidationInput) :
    ValidationResult :=
  let (stages, evidence) := input.evidence.runStages Stage.all
  let score := evidence.score rounded
  { verdict := Verdict.ofIssues evidence.issues
    score
    meetsQualityBar := threshold.isAtMost (.finite score)
    issues := evidence.issues
    source := input.source
    target := input.target
    fields := (evidence.targetRule.map (·.fieldNames)).getD []
    stages }

end ValidationInput

namespace FieldPair

open Json (Shape)

def shape : Shape := .record [("source", .text, true), ("target", .optional .text, false)]

def toJson (pair : FieldPair) : Json := .object
  [("source", .str pair.source), ("target", .ofOption .str pair.target)]

def ofJson? (json : Json) : Option FieldPair := do
  return ⟨← (← json.member? "source").str?, (json.member? "target").bind Json.str?⟩

end FieldPair

namespace ValidationResult

def version : String := "1.0.0"

def toJson (result : ValidationResult) : Json := .object
  [("status", .str result.verdict.name), ("confidenceScore", .ofRat result.score),
    ("meetsQualityBar", .bool result.meetsQualityBar),
    ("issues", .array (result.issues.map Issue.toJson)), ("sourceFormat", .str result.source.name),
    ("targetFormat", .str result.target.name),
    ("metadata", .object
      [("validatorVersion", .str version), ("mappingTableVersion", .str Catalog.version),
        ("validatedFields", .ofStrings result.fields),
        ("stagesRun", .ofStrings (result.stages.map Stage.name ++ ["confidence"]))])]

def hasErrors (result : ValidationResult) : Bool := result.verdict == .error

def recommendations (result : ValidationResult) : List String :=
  Issue.recommendations result.issues

end ValidationResult

end DetectionRules
