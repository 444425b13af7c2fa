import DetectionRules.Format
import DetectionRules.Logic
import DetectionRules.Rule.Aggregation
import DetectionRules.Rule.FieldTest

/-!
Detection rules apart from any dialect: where events come from, named
selections of field tests, a condition over the names, and an optional
threshold. `check` finds the first reason why a rule is not well formed.

The parts of the source of events one by one, for what is said of each in turn.
-/

namespace DetectionRules

structure LogSource where
  product : Option String := none
  category : Option String := none
  service : Option String := none
deriving DecidableEq

def LogSource.isEmpty (source : LogSource) : Bool :=
  source.product.isNone && source.category.isNone && source.service.isNone

/-- Tests that hold together under one name. -/
structure Selection where
  name : String
  tests : List FieldTest
deriving DecidableEq

structure Rule where
  /-- The dialect in which the field names are spelled. -/
  dialect : Format
  title : Option String
  description : Option String
  logSource : LogSource
  selections : List Selection
  condition : Logic String
  aggregation : Option Aggregation

/-- What a well-formed rule must not have. -/
inductive RuleFlaw where
  | noSelection
  | unnamedSelection
  | duplicateSelection (name : String)
  | emptySelection (name : String)
  | unnamedField (selection : String)
  | noValues (field selection : String)
  | comparisonValues (field : String)
  | undefinedSelection (name : String)
  | emptyGroup
  | unnamedDistinctField
  | emptyWindow
deriving DecidableEq

def RuleFlaw.message : RuleFlaw → String
  | noSelection => "detection has no selection logic"
  | unnamedSelection => "selection with an empty name"
  | duplicateSelection name => "duplicate selection '" ++ name ++ "'"
  | emptySelection name => "selection '" ++ name ++ "' has no field matches"
  | unnamedField selection => "selection '" ++ selection ++ "' has an unnamed field"
  | noValues field selection =>
      "field '" ++ field ++ "' in selection '" ++ selection ++ "' has no values"
  | comparisonValues field =>
      "comparison on field '" ++ field ++ "' needs exactly one integer value"
  | undefinedSelection name => "condition references undefined selection '" ++ name ++ "'"
  | emptyGroup => "condition contains an empty group"
  | unnamedDistinctField => "distinct count without a field"
  | emptyWindow => "aggregation window must be positive"

def FieldTest.flaw? (selection : String) (test : FieldTest) : Option RuleFlaw :=
  if test.field.isEmpty then some (.unnamedField selection)
  else if test.values.isEmpty then some (.noValues test.field selection)
  else if test.op.isComparison && !(test.values.length == 1 && test.values.all (·.int?.isSome)) then
    some (.comparisonValues test.field)
  else none

def Selection.flaw? (selection : Selection) : Option RuleFlaw :=
  if selection.tests.isEmpty then some (.emptySelection selection.name)
  else selection.tests.findSome? (·.flaw? selection.name)

/-- The first flaw of the selections, none of which may bear a name in `taken`. -/
def Selection.firstFlaw? (taken : List String) : List Selection → Option RuleFlaw
  | [] => none
  | selection :: rest =>
      if selection.name.isEmpty then some .unnamedSelection
      else if taken.contains selection.name then some (.duplicateSelection selection.name)
      else selection.flaw?.or (firstFlaw? (selection.name :: taken) rest)

def Aggregation.flaw? (aggregation : Aggregation) : Option RuleFlaw :=
  if aggregation.counted = .distinct "" then some .unnamedDistinctField
  else if aggregation.window.any (·.seconds == 0) then some .emptyWindow
  else none

namespace Rule

/-- A rule of one selection, which is also its condition. -/
def ofTests (dialect : Format) (tests : List FieldTest) : Rule where
  dialect
  title := none
  description := none
  logSource := {}
  selections := [⟨"selection", tests⟩]
  condition := .term "selection"
  aggregation := none

def selection? (rule : Rule) (name : String) : Option Selection :=
  rule.selections.find? (·.name == name)

def tests (rule : Rule) : List FieldTest := rule.selections.flatMap (·.tests)

/-- The different fields that are tested, by first occurrence. -/
def fieldNames (rule : Rule) : List String := (rule.tests.map (·.field)).eraseDups

/-- The names in the condition that no selection bears. -/
def danglingReferences (rule : Rule) : List String :=
  rule.condition.terms.filter fun name => (rule.selection? name).isNone

/-- The names of the selections that the condition does not mention. -/
def unusedSelections (rule : Rule) : List String :=
  (rule.selections.map (·.name)).filter fun name => !rule.condition.terms.contains name

def check (rule : Rule) : Option RuleFlaw :=
  if rule.selections.isEmpty then some .noSelection
  else
    (Selection.firstFlaw? [] rule.selections).or <|
      match rule.danglingReferences with
      | name :: _ => some (.undefinedSelection name)
      | [] =>
          if rule.condition.hasEmptyGroup then some .emptyGroup
          else rule.aggregation.bind (·.flaw?)

def WellFormed (rule : Rule) : Prop := rule.check = none

instance (rule : Rule) : Decidable rule.WellFormed := inferInstanceAs (Decidable (_ = none))

end Rule

inductive LogSourcePart where
  | product
  | category
  | service
deriving DecidableEq

namespace LogSourcePart

def all : List LogSourcePart := [product, category, service]

def name : LogSourcePart → String
  | product => "product"
  | category => "category"
  | service => "service"

def get (source : LogSource) : LogSourcePart → Option String
  | product => source.product
  | category => source.category
  | service => source.service

def clear (source : LogSource) : LogSourcePart → LogSource
  | product => { source with product := none }
  | category => { source with category := none }
  | service => { source with service := none }

end LogSourcePart

end DetectionRules
