import DetectionRules.Engine.Json

/-!
What the service is asked over HTTP. Dialects are named in plain text, so that a
name that is not known can be answered like any other error of a translation.
-/

namespace DetectionRules.Service

open Json (Shape)

inductive Endpoint where
  | health
  | formats
  | translate
  | translateBatch
  | validate
  | validateBatch
deriving DecidableEq

namespace Endpoint

def all : List Endpoint := [health, formats, translate, translateBatch, validate, validateBatch]

def path : Endpoint → String
  | health => "/health"
  | formats => "/formats"
  | translate => "/translate"
  | translateBatch => "/translate/batch"
  | validate => "/validate"
  | validateBatch => "/validate/batch"

def ofPath? (path : String) : Option Endpoint :=
  let plain := String.ofList (path.toList.takeWhile (· != '?'))
  all.find? (·.path == plain)

/-- Whether the endpoint only shows something and takes no body. -/
def isReadOnly : Endpoint → Bool
  | health | formats => true
  | _ => false

def accepts (endpoint : Endpoint) (method : String) : Bool :=
  if endpoint.isReadOnly then method == "GET" || method == "HEAD" else method == "POST"

end Endpoint

structure Request where
  method : String
  path : String
  /-- Whether the body is declared to be JSON. -/
  isJson : Bool
  body : String

def formatNamed (name : String) : Except JobError Format :=
  match Format.ofName? name with
  | some format => .ok format
  | none => .error (.rule (.unknownFormat name))

structure NamedText where
  content : String
  format : String

namespace NamedText

def shape : Shape := .record [("content", .text, true), ("format", .text, true)]

def ofJson? (json : Json) : Option NamedText := do
  return ⟨← (← json.member? "content").str?, ← (← json.member? "format").str?⟩

def resolve (text : NamedText) : Except JobError DetectionText := do
  return ⟨text.content, ← formatNamed text.format⟩

end NamedText

structure TranslateBody where
  source : String
  target : String
  content : String
  validates : Bool

namespace TranslateBody

def shape : Shape := .record
  [("sourceFormat", .text, true), ("targetFormat", .text, true), ("content", .text, true),
    ("validateResult", .flag, false)]

def ofJson? (json : Json) : Option TranslateBody := do
  let source ← (← json.member? "sourceFormat").str?
  let target ← (← json.member? "targetFormat").str?
  let content ← (← json.member? "content").str?
  let validates := ((json.member? "validateResult").bind Json.bool?).getD true
  return { source, target, content, validates }

def resolve (body : TranslateBody) : Except JobError TranslationRequest := do
  let source ← formatNamed body.source
  let target ← formatNamed body.target
  return { source, target, content := body.content, validates := body.validates }

end TranslateBody

structure NamedItem where
  id : String
  text : NamedText

structure BatchBody where
  detections : List NamedItem
  target : String
  continueOnError : Option Bool
  maxConcurrent : Option UInt64

namespace BatchBody

def shape : Shape := .record
  [("detections", .list (.record
      [("id", .text, true), ("content", .text, true), ("format", .text, true)]), true),
    ("targetFormat", .text, true), ("options", BatchRequest.optionsShape, false)]

def itemOfJson? (json : Json) : Option NamedItem := do
  return ⟨← (← json.member? "id").str?, ← NamedText.ofJson? json⟩

def ofJson? (json : Json) : Option BatchBody := do
  let detections ← (← (← json.member? "detections").array?).mapM itemOfJson?
  let target ← (← json.member? "targetFormat").str?
  return { detections, target, continueOnError := BatchRequest.continueOnError? json
           maxConcurrent := BatchRequest.maxConcurrent? json }

end BatchBody

structure ValidateBody where
  source : NamedText
  target : NamedText

namespace ValidateBody

def shape : Shape := .record
  [("sourceDetection", NamedText.shape, true), ("targetDetection", NamedText.shape, true)]

def ofJson? (json : Json) : Option ValidateBody := do
  return ⟨← NamedText.ofJson? (← json.member? "sourceDetection"),
    ← NamedText.ofJson? (← json.member? "targetDetection")⟩

def batchShape : Shape := .record [("validations", .list shape, true)]

def batchOfJson? (json : Json) : Option (List ValidateBody) := do
  (← (← json.member? "validations").array?).mapM ofJson?

def resolve (body : ValidateBody) : Except JobError ValidationRequest := do
  let source ← body.source.resolve
  let target ← body.target.resolve
  return ⟨source, target⟩

end ValidateBody

end DetectionRules.Service
