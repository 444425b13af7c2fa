import DetectionRules.Json.Shape
import DetectionRules.Rule.Basic

/-!
Rules as JSON documents. Absent parts of a rule are left out of the document;
trees are objects with a single member that names the connective.
-/

namespace DetectionRules

open Json (Shape)

def Value.toJson : Value → Json
  | int number => .int number.toInt
  | str text => .str text

def Value.ofJson? : Json → Option Value
  | .int number => (Text.int64? number).map int
  | .str text => some (str text)
  | _ => none

def Format.shape : Shape := .choice (Format.all.map Format.name)

def Format.ofJson? (json : Json) : Option Format := json.str?.bind Format.ofName?

namespace Logic

variable {Term : Type}

mutual

def toJson (encode : Term → Json) : Logic Term → Json
  | term value => .object [("term", encode value)]
  | all items => .object [("and", .array (itemsToJson encode items))]
  | any items => .object [("or", .array (itemsToJson encode items))]
  | not item => .object [("not", toJson encode item)]

def itemsToJson (encode : Term → Json) : List (Logic Term) → List Json
  | [] => []
  | item :: rest => toJson encode item :: itemsToJson encode rest

end

mutual

def ofJson? (decode : Json → Option Term) : Json → Option (Logic Term)
  | .object members =>
      match members with
      | [("term", value)] => (decode value).map term
      | [("and", .array items)] => (itemsOfJson? decode items).map all
      | [("or", .array items)] => (itemsOfJson? decode items).map any
      | [("not", value)] => (ofJson? decode value).map not
      | _ => none
  | _ => none

def itemsOfJson? (decode : Json → Option Term) : List Json → Option (List (Logic Term))
  | [] => some []
  | item :: rest => do
      let first ← ofJson? decode item
      let others ← itemsOfJson? decode rest
      return first :: others

end

end Logic

namespace LogSource

def shape : Shape := .record
  [("product", .optional .text, false), ("category", .optional .text, false),
    ("service", .optional .text, false)]

def toJson (source : LogSource) : Json := Json.ofMembers
  [source.product.map fun product => ("product", .str product),
    source.category.map fun category => ("category", .str category),
    source.service.map fun service => ("service", .str service)]

def ofJson (json : Json) : LogSource where
  product := (json.member? "product").bind (·.str?)
  category := (json.member? "category").bind (·.str?)
  service := (json.member? "service").bind (·.str?)

end LogSource

namespace FieldTest

def shape : Shape := .record
  [("field", .text, true), ("op", .choice (Operator.all.map Operator.name), true),
    ("values", .list (.passing fun value => (Value.ofJson? value).isSome), true)]

def toJson (test : FieldTest) : Json := .object
  [("field", .str test.field), ("op", .str test.op.name),
    ("values", .array (test.values.map Value.toJson))]

def ofJson? (json : Json) : Option FieldTest := do
  let field ← (← json.member? "field").str?
  let op ← Operator.ofName? (← (← json.member? "op").str?)
  let values ← (← (← json.member? "values").array?).mapM Value.ofJson?
  return ⟨field, op, values⟩

end FieldTest

namespace Selection

def shape : Shape := .record [("name", .text, true), ("matches", .list FieldTest.shape, true)]

def toJson (selection : Selection) : Json := .object
  [("name", .str selection.name), ("matches", .array (selection.tests.map FieldTest.toJson))]

def ofJson? (json : Json) : Option Selection := do
  let name ← (← json.member? "name").str?
  let tests ← (← (← json.member? "matches").array?).mapM FieldTest.ofJson?
  return ⟨name, tests⟩

end Selection

namespace Counted

def toJson : Counted → Json
  | events => .str "count"
  | distinct field => .object [("distinct_count", .str field)]

def ofJson? : Json → Option Counted
  | .str "count" => some events
  | .object [("count", .null)] => some events
  | .object [("distinct_count", .str field)] => some (distinct field)
  | _ => none

end Counted

namespace TimeWindow

def shape : Shape := .record [("seconds", .natural UInt64.size, true)]

def toJson (window : TimeWindow) : Json := .object [("seconds", .ofNat window.seconds.toNat)]

def ofJson? (json : Json) : Option TimeWindow := do
  let seconds ← (← json.member? "seconds").nat?
  return ⟨UInt64.ofNat seconds⟩

end TimeWindow

namespace Aggregation

def shape : Shape := .record
  [("function", .passing fun value => (Counted.ofJson? value).isSome, true),
    ("group_by", .list .text, false),
    ("comparison", .choice (Comparison.all.map Comparison.name), true),
    ("threshold", .natural UInt64.size, true), ("window", .optional TimeWindow.shape, false)]

def toJson (aggregation : Aggregation) : Json := .object
  [("function", aggregation.counted.toJson), ("group_by", .ofStrings aggregation.groupBy),
    ("comparison", .str aggregation.comparison.name),
    ("threshold", .ofNat aggregation.threshold.toNat),
    ("window", .ofOption TimeWindow.toJson aggregation.window)]

def ofJson? (json : Json) : Option Aggregation := do
  let counted ← Counted.ofJson? (← json.member? "function")
  let groupBy ← ((json.member? "group_by").getD (.array [])).strings?
  let comparison ← Comparison.ofName? (← (← json.member? "comparison").str?)
  let threshold ← (← json.member? "threshold").nat?
  let window ← match json.present? "window" with
    | some window => (TimeWindow.ofJson? window).map some
    | none => some none
  return ⟨counted, groupBy, comparison, UInt64.ofNat threshold, window⟩

end Aggregation

namespace Rule

def shape : Shape := .record
  [("dialect", Format.shape, true), ("title", .optional .text, false),
    ("description", .optional .text, false), ("logsource", LogSource.shape, false),
    ("selections", .list Selection.shape, true),
    ("condition", .passing fun value => (Logic.ofJson? Json.str? value).isSome, true),
    ("aggregation", .optional Aggregation.shape, false)]

def toJson (rule : Rule) : Json := Json.ofMembers
  [some ("dialect", .str rule.dialect.name),
    rule.title.map fun title => ("title", .str title),
    rule.description.map fun description => ("description", .str description),
    some ("logsource", rule.logSource.toJson),
    some ("selections", .array (rule.selections.map Selection.toJson)),
    some ("condition", rule.condition.toJson .str),
    rule.aggregation.map fun aggregation => ("aggregation", aggregation.toJson)]

/-- Reads a document; members that a rule does not have are passed over. -/
def ofJson? (document : Json) : Option Rule := do
  let json ← shape.fit? document
  let dialect ← Format.ofJson? (← json.member? "dialect")
  let selections ← (← (← json.member? "selections").array?).mapM Selection.ofJson?
  let condition ← Logic.ofJson? Json.str? (← json.member? "condition")
  let aggregation ← match json.present? "aggregation" with
    | some aggregation => (Aggregation.ofJson? aggregation).map some
    | none => some none
  return {
    dialect
    title := (json.member? "title").bind (·.str?)
    description := (json.member? "description").bind (·.str?)
    logSource := ((json.member? "logsource").map LogSource.ofJson).getD {}
    selections
    condition
    aggregation }

end Rule

end DetectionRules
