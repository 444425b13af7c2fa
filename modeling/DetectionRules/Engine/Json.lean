import DetectionRules.Engine.Translation
import DetectionRules.Rule.Json

/-!
Requests for translations and validations as JSON documents.
-/

namespace DetectionRules

open Json (Shape)

namespace TranslationRequest

def shape : Shape := .record
  [("sourceFormat", Format.shape, true), ("targetFormat", Format.shape, true),
    ("content", .text, true), ("validateResult", .flag, false)]

def ofJson? (document : Json) : Option TranslationRequest := do
  let json ← shape.fit? document
  let source ← Format.ofJson? (← json.member? "sourceFormat")
  let target ← Format.ofJson? (← json.member? "targetFormat")
  let content ← (← json.member? "content").str?
  let validates := ((json.member? "validateResult").bind Json.bool?).getD true
  return { source, target, content, validates }

end TranslationRequest

namespace BatchRequest

def optionsShape : Shape := .record
  [("continueOnError", .optional .flag, false),
    ("maxConcurrent", .optional (.natural UInt64.size), false)]

def shape : Shape := .record
  [("items", .list (.record
      [("id", .text, true), ("content", .text, true), ("format", Format.shape, true)]), true),
    ("targetFormat", Format.shape, true), ("options", optionsShape, false)]

def itemOfJson? (json : Json) : Option BatchItem := do
  let id ← (← json.member? "id").str?
  let content ← (← json.member? "content").str?
  let format ← Format.ofJson? (← json.member? "format")
  return { id, content, format }

def continueOnError? (json : Json) : Option Bool :=
  ((json.member? "options").bind (·.member? "continueOnError")).bind Json.bool?

def maxConcurrent? (json : Json) : Option UInt64 :=
  (((json.member? "options").bind (·.member? "maxConcurrent")).bind Json.nat?).map UInt64.ofNat

def ofJson? (document : Json) : Option BatchRequest := do
  let json ← shape.fit? document
  let items ← (← (← json.member? "items").array?).mapM itemOfJson?
  let target ← Format.ofJson? (← json.member? "targetFormat")
  return { items, target, continueOnError := continueOnError? json
           maxConcurrent := maxConcurrent? json }

end BatchRequest

namespace DetectionText

def shape : Shape := .record [("content", .text, true), ("format", Format.shape, true)]

def ofJson? (json : Json) : Option DetectionText := do
  return ⟨← (← json.member? "content").str?, ← Format.ofJson? (← json.member? "format")⟩

end DetectionText

namespace ValidationRequest

def shape : Shape := .record
  [("sourceDetection", DetectionText.shape, true), ("targetDetection", DetectionText.shape, true)]

def ofJson? (document : Json) : Option ValidationRequest := do
  let json ← shape.fit? document
  return ⟨← DetectionText.ofJson? (← json.member? "sourceDetection"),
    ← DetectionText.ofJson? (← json.member? "targetDetection")⟩

end ValidationRequest

end DetectionRules
