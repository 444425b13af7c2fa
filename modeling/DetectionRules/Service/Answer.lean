import DetectionRules.Service.Request

/-!
The answers of the service. A request that fails is answered with the error and
a status for its kind; in a batch, an item of a dialect that is not known fails
by itself and keeps its place among the results.
-/

namespace DetectionRules.Service

structure Response where
  status : Nat
  /-- None if the body is not JSON. -/
  body : Option Json

/-- The HTTP status for an error code. -/
def statusCode : String → Nat
  | "TIMEOUT" => 504
  | "COLLABORATOR_UNAVAILABLE" => 503
  | "CANCELLED" => 409
  | "PARSE_ERROR" | "UNSUPPORTED_CONSTRUCT" | "GENERATION_ERROR" | "INVALID_REQUEST"
  | "UNSUPPORTED_FORMAT" => 400
  | _ => 500

def Response.ok (body : Json) : Response := ⟨200, some body⟩

def Response.ofReport (report : ErrorReport) : Response :=
  ⟨statusCode report.code, some report.toJson⟩

def Response.ofError (error : JobError) : Response := .ofReport error.report

def version : String := "0.1.0"

def healthJson : Json := .object
  [("status", .str "ok"), ("version", .str version), ("mappingTableVersion", .str Catalog.version)]

def formatJson (format : Format) : Json := .object
  [("name", .str format.name), ("displayName", .str format.displayName),
    ("supportsCorrelation", .bool format.supportsCorrelation),
    ("confidenceThreshold", .ofRat (Binary64.round (mkRat (format.confidencePercent : Nat) 100)))]

def translationJson (job : Job) : Json := Json.ofMembers
  [some ("status", .str job.status.name),
    job.source.map fun format => ("sourceFormat", .str format.name),
    some ("targetFormat", .str job.target.name),
    some ("translatedContent", .ofOption .str job.translation),
    some ("confidenceScore", .ofOption .ofRat job.confidence),
    job.validation.map fun result => ("validationResult", result.toJson),
    job.error.map fun report => ("errorDetails", report.toJson),
    some ("attempts", .ofNat job.attempts)]

variable {Notes : Type}

abbrev Moment (Notes : Type) : Type := Activity.Moment (EngineState Notes)

def respond {Result : Type} (encode : Result → Json) (moment : Moment Notes) :
    Except JobError (Result × Moment Notes) → Response × Moment Notes
  | .ok (result, after) => (.ok (encode result), after)
  | .error error => (.ofError error, moment)

def translate (engine : Engine Notes) (moment : Moment Notes) (body : TranslateBody) :
    Response × Moment Notes :=
  match body.resolve with
  | .error error => (.ofError error, moment)
  | .ok request =>
      let (job, after) := (engine.translate request).run moment
      if job.isSuccess then (.ok (translationJson job), after)
      else (.ofReport (job.error.getD JobError.cancelled.report), after)

structure PlacedResult where
  place : Nat
  result : BatchResult

def reject (now : Nat) (target : Format) (item : NamedItem) (error : JobError) : BatchResult :=
  ⟨item.id, Job.rejected now item.text.content target error.report⟩

/-- The items of known dialects, and the rejected ones at their places. -/
def sortItems (now : Nat) (target : Format) :
    List (NamedItem × Nat) → List BatchItem × List PlacedResult
  | [] => ([], [])
  | (item, place) :: rest =>
      let (items, rejected) := sortItems now target rest
      match formatNamed item.text.format with
      | .ok format => (⟨item.id, item.text.content, format⟩ :: items, rejected)
      | .error error => (items, ⟨place, reject now target item error⟩ :: rejected)

def insert (results : List BatchResult) (rejected : PlacedResult) : List BatchResult :=
  results.insertIdx rejected.place rejected.result

/-- Puts rejected items back to their places, of which the first comes first. -/
def insertAll (results : List BatchResult) (rejected : List PlacedResult) : List BatchResult :=
  rejected.foldl insert results

def translateBatch (engine : Engine Notes) (moment : Moment Notes) (body : BatchBody) :
    Except JobError (BatchSummary × Moment Notes) := do
  let target ← formatNamed body.target
  let total := body.detections.length
  let limit := engine.config.batch.maxBatchSize
  if limit.toNat < total then
    throw (.invalidRequest ("batch of " ++ toString total ++ " items exceeds the limit of " ++
      toString limit))
  let (items, rejected) := sortItems moment.now target body.detections.zipIdx
  let known : BatchRequest := {
    items, target
    continueOnError := body.continueOnError
    maxConcurrent := body.maxConcurrent }
  if rejected.isEmpty then
    engine.translateBatch known moment
  else if items.isEmpty then
    return (.ofResults engine.rounded (insertAll [] rejected), moment)
  else
    let (summary, after) ← engine.translateBatch known moment
    return (.ofResults engine.rounded (insertAll summary.results rejected), after)

def validate (engine : Engine Notes) (body : ValidateBody) : Except JobError ValidationResult := do
  return engine.validate (← body.resolve)

def validateBatch (engine : Engine Notes) (bodies : List ValidateBody) :
    Except JobError (List ValidationResult) := do
  engine.validateBatch (← bodies.mapM ValidateBody.resolve)

/-- Answers a request whose body must be JSON of a shape. -/
def withBody {Body : Type} (request : Request) (moment : Moment Notes) (shape : Json.Shape)
    (read : Json → Option Body) (answer : Body → Response × Moment Notes) :
    Response × Moment Notes :=
  if !request.isJson then (⟨415, none⟩, moment)
  else
    match shape.fitFirst request.body with
    | .error misfit => (⟨if misfit.isBroken then 400 else 422, none⟩, moment)
    | .ok json =>
        match read json with
        | some body => answer body
        | none => (⟨422, none⟩, moment)

def answerAt (engine : Engine Notes) (request : Request) (moment : Moment Notes) :
    Endpoint → Response × Moment Notes
  | .health => (.ok healthJson, moment)
  | .formats => (.ok (.object [("formats", .array (Format.all.map formatJson))]), moment)
  | .translate =>
      withBody request moment TranslateBody.shape TranslateBody.ofJson? (translate engine moment)
  | .translateBatch =>
      withBody request moment BatchBody.shape BatchBody.ofJson? fun body =>
        respond BatchSummary.toJson moment (translateBatch engine moment body)
  | .validate =>
      withBody request moment ValidateBody.shape ValidateBody.ofJson? fun body =>
        respond ValidationResult.toJson moment ((validate engine body).map (·, moment))
  | .validateBatch =>
      withBody request moment ValidateBody.batchShape ValidateBody.batchOfJson? fun bodies =>
        respond (fun results => .object [("results", .array (results.map ValidationResult.toJson))])
          moment ((validateBatch engine bodies).map (·, moment))

/-- Answers a request; a request for the head alone gets no body. -/
def answer (engine : Engine Notes) (request : Request) (moment : Moment Notes) :
    Response × Moment Notes :=
  match Endpoint.ofPath? request.path with
  | none => (⟨404, none⟩, moment)
  | some endpoint =>
      if endpoint.accepts request.method then
        let (response, after) := answerAt engine request moment endpoint
        (if request.method == "HEAD" then { response with body := none } else response, after)
      else (⟨405, none⟩, moment)

end DetectionRules.Service
