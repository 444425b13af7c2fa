import DetectionRules.Cache.Store
import DetectionRules.Job.Basic
import DetectionRules.Time.Pool

/-!
Translations as jobs. A job is served from the cache if it can be; else the rule
is read, put into the words of the target dialect and written, within a time
limit and with further attempts if the reason of a failure may pass, and the
text is scored or validated. A job may be cancelled at any time before its end.

Batches of translations and of validations. Only so many items are under way at
once. Unless a batch goes on after errors, the first job that fails cancels all
jobs that have not ended.
-/

namespace DetectionRules

structure Engine (Notes : Type) where
  config : Config
  advisor : Option (Advisor Notes)
  /-- How numbers are rounded after each step of arithmetic. -/
  rounded : Rat → Rat := Binary64.round
  /-- How the keys of the cache are made from what they stand for. -/
  digest : String → String := fun text => Sha256.hex text.toUTF8.toList

/-- What translations leave for those after them. -/
structure EngineState (Notes : Type) where
  cache : Cache
  notes : Notes

structure Translated where
  source : Rule
  adapted : Rule
  text : String
  issues : List Issue
  fields : List FieldPair

def TranslationRequest.keyText (request : TranslationRequest) : String :=
  request.source.name ++ "\x00" ++ request.target.name ++
    (if request.validates then "\x00v\x00" else "\x00n\x00") ++ request.content

namespace Engine

variable {Notes : Type}

abbrev Work (Notes Result : Type) : Type := Activity (EngineState Notes) Result

def initialState (engine : Engine Notes) (notes : Notes) : EngineState Notes :=
  ⟨{ config := engine.config.cache }, notes⟩

def key (engine : Engine Notes) (request : TranslationRequest) : String :=
  engine.digest request.keyText

def resolver (engine : Engine Notes) : FieldResolver (EngineState Notes) :=
  .ofConfig engine.config <| engine.advisor.map fun advisor question =>
    (advisor question).focus (·.notes) fun notes state => { state with notes }

def attempt (engine : Engine Notes) (request : TranslationRequest) :
    Work Notes (Except JobError Translated) :=
  match request.source.read request.content with
  | .error error => return .error (.rule error)
  | .ok source => do
      let adaptation ← engine.resolver.adapt source request.target
      match adaptation.rule with
      | none => return .error (.rule (.unsupported request.target
          "none of the rule's field matches exist in the target dialect"))
      | some adapted =>
          match request.target.write adapted with
          | .error error => return .error (.rule error)
          | .ok text => return .ok ⟨source, adapted, text, adaptation.issues, adaptation.fields⟩

def timedAttempt (engine : Engine Notes) (request : TranslationRequest) :
    Work Notes (Except JobError Translated) := do
  let outcome ← (engine.attempt request).within engine.config.jobTimeout
  return outcome.getD (.error (.timeout engine.config.jobTimeoutSeconds))

def validation (engine : Engine Notes) (request : TranslationRequest) (translated : Translated) :
    ValidationResult :=
  ({ source := request.source
     target := request.target
     sourceRule := some translated.source
     targetText := translated.text
     pairs := some translated.fields
     prior := translated.issues } : ValidationInput).validate engine.rounded
    engine.config.validation.qualityThreshold

/-- The confidence in a translation that is not read again. -/
def scoreOnly (rounded : Rat → Rat) (issues : List Issue) (pairs : List FieldPair) (adapted : Rule) :
    Rat :=
  Score.score rounded true issues (Score.preservation rounded pairs (some adapted))

def assess (engine : Engine Notes) (request : TranslationRequest) (translated : Translated) :
    CachedTranslation :=
  if request.validates then
    let result := engine.validation request translated
    ⟨translated.text, result.score, some result⟩
  else
    ⟨translated.text,
      scoreOnly engine.rounded translated.issues translated.fields translated.adapted, none⟩

/-- Looks for an earlier translation. The cache is open to others between the look and what it
leaves to do. -/
def lookUp (engine : Engine Notes) (request : TranslationRequest) :
    Work Notes (Option CachedTranslation) := do
  let sight ← Activity.access fun now state =>
    let (sight, cache) := state.cache.look now (engine.key request)
    (sight, { state with cache })
  Activity.access fun _ state =>
    let (found, cache) := state.cache.settle (engine.key request) sight
    (found, { state with cache })

def keep (engine : Engine Notes) (request : TranslationRequest) (value : CachedTranslation) :
    Work Notes Bool :=
  Activity.access fun now state =>
    let (isKept, cache) := state.cache.insert now (engine.key request) value
    (isKept, { state with cache })

def completed (now : Nat) (request : TranslationRequest) (value : CachedTranslation) (job : Job) :
    Job :=
  let job := { job with
    translation := some value.text
    confidence := some value.confidence
    validation := if request.validates then value.validation else none }
  (if request.validates then job.advance now .validating else job).advance now .completed

/-- Works on a job, which is written down as it goes on. What is written between two looks at the
state that others see too is written at once. -/
def process (engine : Engine Notes) (request : TranslationRequest) :
    Activity (Job × EngineState Notes) Unit := do
  Activity.rewrite fun now job => job.advance now .processing
  match ← (engine.lookUp request).shared with
  | some value => Activity.rewrite fun now job => completed now request value job
  | none =>
      let (outcome, attempts) ←
        (engine.config.retry.jobPolicy.run fun _ => engine.timedAttempt request).shared
      match outcome with
      | .error error => Activity.rewrite fun now job => { job with attempts }.fail now error
      | .ok translated =>
          let value := engine.assess request translated
          Activity.rewrite fun now job => completed now request value { job with attempts }
          let _ ← (engine.keep request value).shared

def translate (engine : Engine Notes) (request : TranslationRequest) : Work Notes Job := do
  let (_, job) ← (engine.process request).owning (Job.ofRequest request)
  return job

/-- Works on a job as far as a time limit lets it, and then cancels the job as it is; with no time at
all the work does not begin. -/
def processWithin (engine : Engine Notes) (request : TranslationRequest) (limit : Nat) :
    Activity (Job × EngineState Notes) Unit := do
  match ← (if limit = 0 then pure none else (engine.process request).within limit) with
  | some () => return ()
  | none => Activity.rewrite fun now job => job.fail now .cancelled

def translateWithin (engine : Engine Notes) (request : TranslationRequest) (limit : Nat) :
    Work Notes Job := do
  let (_, job) ← (engine.processWithin request limit).owning (Job.ofRequest request)
  return job

def cancelled (now : Nat) (request : TranslationRequest) : Job :=
  (Job.ofRequest request).fail now .cancelled

end Engine

structure DetectionText where
  content : String
  format : Format

structure ValidationRequest where
  source : DetectionText
  target : DetectionText

namespace Engine

variable {Notes : Type}

/-- How many items may be under way, for a batch that is not empty or too large. -/
def batchLimit (engine : Engine Notes) (items : Nat) (maxConcurrent : Option UInt64) :
    Except JobError Nat :=
  let batch := engine.config.batch
  if items = 0 then .error (.invalidRequest "batch contains no items")
  else if batch.maxBatchSize.toNat < items then
    .error (.invalidRequest ("batch of " ++ toString items ++ " items exceeds the limit of " ++
      toString batch.maxBatchSize))
  else
    let wanted := (maxConcurrent.getD batch.maxConcurrent).toNat
    .ok (max 1 (min wanted (max 1 batch.maxConcurrentLimit.toNat)))

def itemRequest (target : Format) (item : BatchItem) : TranslationRequest :=
  ⟨item.format, target, item.content, true⟩

/-- The results of a batch, of which some may have no job because it was stopped. -/
def batchResults (now : Nat) (target : Format) (items : List BatchItem) (jobs : List (Option Job)) :
    List BatchResult :=
  List.zipWith (fun item job =>
    ⟨item.id, job.getD (cancelled now (itemRequest target item))⟩) items jobs

def translateBatch (engine : Engine Notes) (request : BatchRequest)
    (moment : Activity.Moment (EngineState Notes)) :
    Except JobError (BatchSummary × Activity.Moment (EngineState Notes)) := do
  let limit ← engine.batchLimit request.items.length request.maxConcurrent
  let goesOn := request.continueOnError.getD engine.config.batch.continueOnError
  let (jobs, moment) := Pool.run limit (fun job => !goesOn && job.status == .failed)
    (request.items.map fun item => engine.translate (itemRequest request.target item)) moment
  return (.ofResults engine.rounded (batchResults moment.now request.target request.items jobs),
    moment)

def validate (engine : Engine Notes) (request : ValidationRequest) : ValidationResult :=
  ({ source := request.source.format
     target := request.target.format
     sourceText := some request.source.content
     targetText := request.target.content } : ValidationInput).validate engine.rounded
    engine.config.validation.qualityThreshold

def validateBatch (engine : Engine Notes) (requests : List ValidationRequest) :
    Except JobError (List ValidationResult) := do
  let _ ← engine.batchLimit requests.length none
  return requests.map engine.validate

end Engine

end DetectionRules
