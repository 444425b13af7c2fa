import DetectionRules.Adaptation.Rule
import DetectionRules.Dialect.Registry
import DetectionRules.Issue
import DetectionRules.Text.Quoted

/-!
Confidence in a rule that was made from another one: forty points for text that
can be read, up to forty less a penalty for each issue, and twenty for the share
of fields that were carried over. Every step of the sum is rounded by `rounded`,
which is `Binary64.round` when the program runs and can be `id` for exact
numbers.

The stages of a validation. The first reads the texts, the second compares the
rules that were read: what is wrong with the target by itself, and what of the
source it lost. What a stage finds is data for the stages after it.
-/

namespace DetectionRules.Score

/-- Every field that a rule refers to, in its tests or in its aggregation. -/
def presentFields (rule : Rule) : List String :=
  rule.fieldNames ++ (rule.aggregation.map (·.fields)).getD []

def isKept (present : List String) (pair : FieldPair) : Bool :=
  pair.target.any fun target => present.contains target

/-- The share of fields whose target is in a rule. -/
def preservation (rounded : Rat → Rat) (pairs : List FieldPair) (rule : Option Rule) : Rat :=
  match pairs, rule with
  | [], _ => 1
  | _, none => 0
  | pairs, some rule =>
      rounded (mkRat ((pairs.filter (isKept (presentFields rule))).length : Nat) pairs.length)

def clamp (low high value : Rat) : Rat :=
  if value < low then low else if high < value then high else value

/-- Rounds a number of points to one decimal place; a half goes away from zero. -/
def toTenths (rounded : Rat → Rat) (points : Rat) : Rat :=
  rounded ((roundHalfAway (rounded (points * 10)) : Rat) / 10)

def penalty (issues : List Issue) : Nat := issues.foldl (fun penalty issue => penalty + issue.severity.penalty) 0

/-- The points for text that can be read, for issues and for the share of fields. -/
def points (rounded : Rat → Rat) (isReadable : Bool) (issues : List Issue) (preservation : Rat) :
    Rat :=
  let readable : Nat := if isReadable then 40 else 0
  let clean : Nat := 40 - penalty issues
  rounded (((readable + clean : Nat) : Rat) + rounded (20 * clamp 0 1 preservation))

def score (rounded : Rat → Rat) (isReadable : Bool) (issues : List Issue) (preservation : Rat) :
    Rat :=
  toTenths rounded (clamp 0 100 (points rounded isReadable issues preservation))

end DetectionRules.Score

namespace DetectionRules

/-- What is known of a source and a target. -/
structure Evidence where
  source : Format
  target : Format
  sourceText : Option String
  targetText : String
  sourceRule : Option Rule
  targetRule : Option Rule
  /-- How the fields were carried over, unless the catalog is to say. -/
  pairs : Option (List FieldPair)
  issues : List Issue

inductive Stage where
  | reading
  | comparing
deriving DecidableEq

namespace Stage

def all : List Stage := [reading, comparing]

def name : Stage → String
  | reading => "syntax"
  | comparing => "semantic"

def ofName? (name : String) : Option Stage := all.find? (·.name == name)

end Stage

namespace Evidence

def fieldPairs (evidence : Evidence) : List FieldPair :=
  evidence.pairs.getD <|
    match evidence.sourceRule with
    | none => []
    | some rule => rule.referencedFields.map fun field =>
        ⟨field, Catalog.translate? evidence.source evidence.target field⟩

/-- Where an error is shown. -/
def location : RuleError → String
  | .malformed _ (some position) _ => position.text
  | .malformed _ none reason => reason
  | _ => "document"

def sourceError (format : Format) (error : RuleError) : Issue where
  code := "SOURCE_SYNTAX_ERROR"
  severity := .high
  location := location error
  message := error.message
  suggestions := ["Fix the " ++ format.displayName ++ " source rule"]

def targetError (format : Format) (error : RuleError) : Issue where
  code := "SYNTAX_ERROR"
  severity := .high
  location := location error
  message := error.message
  suggestions :=
    ["The " ++ format.displayName ++ " text does not parse; correct it before deploying"]

/-- The rule that was read, or what to say of the error. -/
def attempt (complain : RuleError → Issue) : Except RuleError Rule → Option Rule × List Issue
  | .ok rule => (some rule, [])
  | .error error => (none, [complain error])

/-- Reads the source, unless its rule is at hand, and the target. -/
def reading (evidence : Evidence) : List Issue × Evidence :=
  let (sourceRule, sourceIssues) :=
    match evidence.sourceRule, evidence.sourceText with
    | none, some text =>
        attempt (sourceError evidence.source) (evidence.source.read text)
    | rule, _ => (rule, [])
  let (targetRule, targetIssues) :=
    attempt (targetError evidence.target) (evidence.target.read evidence.targetText)
  (sourceIssues ++ targetIssues,
    { evidence with sourceRule, targetRule := targetRule.or evidence.targetRule })

def brokenReference (name : String) : Issue where
  code := "BROKEN_REFERENCE"
  severity := .high
  location := "condition"
  message := "Condition references undefined selection '" ++ name ++ "'"

def emptySelection (name : String) : Issue where
  code := "EMPTY_SELECTION"
  severity := .high
  location := "selection:" ++ name
  message := "Selection '" ++ name ++ "' has no field matches"

def invalidComparison (test : FieldTest) : Issue where
  code := "INVALID_COMPARISON"
  severity := .high
  location := "field:" ++ test.field
  message := "Comparison '" ++ test.op.name ++ "' on '" ++ test.field ++ "' needs one numeric value"

def aggregationUnsupported (format : Format) : Issue where
  code := "AGGREGATION_UNSUPPORTED"
  severity := .high
  location := "aggregation"
  message := format.displayName ++ " has no correlation support"

def unusedSelection (name : String) : Issue where
  code := "UNUSED_SELECTION"
  severity := .low
  location := "selection:" ++ name
  message := "Selection '" ++ name ++ "' is never used by the condition"

def isInvalidComparison (test : FieldTest) : Bool :=
  test.op.isComparison && !(test.values.length == 1 && test.values.all (·.int?.isSome))

def selectionIssues (selection : Selection) : List Issue :=
  (if selection.tests.isEmpty then [emptySelection selection.name] else []) ++
    (selection.tests.filter isInvalidComparison).map invalidComparison

def integrity (format : Format) (rule : Rule) : List Issue :=
  rule.danglingReferences.map brokenReference ++
    rule.selections.flatMap selectionIssues ++
    (if rule.aggregation.isSome && !format.supportsCorrelation then [aggregationUnsupported format]
      else []) ++
    rule.unusedSelections.map unusedSelection

def valueTexts (rule : Rule) (field : String) : List String :=
  ((((rule.tests.filter (·.field == field)).flatMap (·.values)).map Value.text).eraseDups).mergeSort
    fun first second => decide (first ≤ second)

def aggregationDropped : Issue where
  code := "AGGREGATION_DROPPED"
  severity := .medium
  location := "aggregation"
  message := "The threshold/aggregation clause did not survive translation"

def fieldMissing (format : Format) (field : String) : Issue where
  code := "FIELD_DROPPED"
  severity := .medium
  location := "field:" ++ field
  message := "'" ++ field ++ "' is missing from the " ++ format.displayName ++ " rule"

def valuesChanged (field : String) (before after : List String) : Issue where
  code := "VALUE_CHANGED"
  severity := .medium
  location := "field:" ++ field
  message := "Values of '" ++ field ++ "' changed from " ++ Text.quotedSet before ++ " to " ++
    Text.quotedSet after

def partChanged (part : LogSourcePart) (before after : Option String) : Issue where
  code := "LOGSOURCE_CHANGED"
  severity := .low
  location := "logsource." ++ part.name
  message := "Logsource " ++ part.name ++ " changed from " ++ Text.quotedOption before ++ " to " ++
    Text.quotedOption after

def fieldLoss? (format : Format) (source target : Rule) (pair : FieldPair) : Option Issue :=
  match pair.target.filter fun native => (Score.presentFields target).contains native with
  | none => some (fieldMissing format pair.source)
  | some native =>
      let before := valueTexts source pair.source
      let after := valueTexts target native
      if !before.isEmpty && !after.isEmpty && before != after then
        some (valuesChanged pair.source before after)
      else none

/-- What of a part of the source of events is lost, unless an issue already tells of it. -/
def partLoss? (known : List Issue) (source target : LogSource) (part : LogSourcePart) :
    Option Issue :=
  if part.get source != part.get target && !known.any (·.location == "logsource." ++ part.name) then
    some (partChanged part (part.get source) (part.get target))
  else none

def loss (evidence : Evidence) (source target : Rule) : List Issue :=
  (if source.aggregation.isSome && target.aggregation.isNone then [aggregationDropped] else []) ++
    evidence.fieldPairs.filterMap (fieldLoss? evidence.target source target) ++
    LogSourcePart.all.filterMap (partLoss? evidence.issues source.logSource target.logSource)

def comparing (evidence : Evidence) : List Issue :=
  match evidence.targetRule with
  | none => []
  | some target =>
      integrity evidence.target target ++
        match evidence.sourceRule with
        | none => []
        | some source => evidence.loss source target

def run (evidence : Evidence) : Stage → List Issue × Evidence
  | .reading => evidence.reading
  | .comparing => (evidence.comparing, evidence)

def withIssues (evidence : Evidence) (found : List Issue) : Evidence :=
  { evidence with issues := Issue.addAll evidence.issues found }

end Evidence

end DetectionRules
