import DetectionRules.Advisor.Basic
import DetectionRules.Json.Shape
import DetectionRules.Number.Text

/-!
Suggestions in the words of an advisor: a JSON document, perhaps inside a fence
of three backticks.
-/

namespace DetectionRules

open Json (Shape)

namespace FieldQuestion

def shape : Shape := .record
  [("field", .text, true), ("sourceFormat", .choice (Format.all.map Format.name), true),
    ("targetFormat", .choice (Format.all.map Format.name), true), ("candidates", .list .text, true),
    ("sampleValues", .list .text, true)]

def toJson (question : FieldQuestion) : Json := .object
  [("field", .str question.field), ("sourceFormat", .str question.source.name),
    ("targetFormat", .str question.target.name), ("candidates", .ofStrings question.candidates),
    ("sampleValues", .ofStrings question.samples)]

def ofJson? (document : Json) : Option FieldQuestion := do
  let json ← shape.fit? document
  let field ← (← json.member? "field").str?
  let source ← Format.ofName? (← (← json.member? "sourceFormat").str?)
  let target ← Format.ofName? (← (← json.member? "targetFormat").str?)
  let candidates ← (← json.member? "candidates").strings?
  let samples ← (← json.member? "sampleValues").strings?
  return { field, source, target, candidates, samples }

end FieldQuestion

namespace FieldSuggestion

def shape : Shape := .record [("field", .text, true), ("confidence", .float, true)]

def toJson (suggestion : FieldSuggestion) : Json := .object
  [("field", .str suggestion.field), ("confidence", .float suggestion.confidence)]

def ofJson? (json : Json) : Option FieldSuggestion := do
  return ⟨← (← json.member? "field").str?, ← (← json.member? "confidence").float?⟩

def fence : List Char := ['\x60', '\x60', '\x60']

/-- What follows an opening fence, which may name the language. -/
def afterFence? (characters : List Char) : Option (List Char) :=
  if (fence ++ "json".toList).isPrefixOf characters then some (characters.drop 7)
  else if fence.isPrefixOf characters then some (characters.drop 3)
  else none

/-- Drops the fences that text begins with, given how many characters there are. -/
def dropFences : Nat → List Char → List Char
  | 0, characters => characters
  | bound + 1, characters =>
      if fence.isPrefixOf characters then dropFences bound (characters.drop 3) else characters

def dropFencesAtEnd (characters : List Char) : List Char :=
  (dropFences characters.length characters.reverse).reverse

def unfenced (content : String) : String :=
  let trimmed := Text.trimBlanks content.toList
  String.ofList <| Text.trimBlanks <|
    match afterFence? trimmed with
    | some inner => dropFencesAtEnd (Text.trimBlanksEnd inner)
    | none => trimmed

def ofText (content : String) : Except AdvisorError FieldSuggestion :=
  match (shape.fitText (unfenced content)).toOption.bind ofJson? with
  | none => .error (.invalidResponse "unparseable suggestion: <json error>")
  | some suggestion =>
      if Text.isAllBlank suggestion.field then .error (.invalidResponse "suggested field is empty")
      else if !suggestion.confidence.isWithin 0 1 then
        .error (.invalidResponse
          ("confidence " ++ suggestion.confidence.text ++ " outside 0.0-1.0"))
      else .ok suggestion

end FieldSuggestion

end DetectionRules
