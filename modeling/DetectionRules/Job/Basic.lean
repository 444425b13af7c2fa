import DetectionRules.Validation.Result

/-!
Jobs. A job moves from pending over processing, and validating if that was
asked for, to one of three ends, and never away from an end. Times are
milliseconds.

Batches of jobs and what to say of them together. Cancelled jobs are counted
apart from processed ones.
-/

namespace DetectionRules

inductive JobStatus where
  | pending
  | processing
  | validating
  | completed
  | failed
  | cancelled
deriving DecidableEq

namespace JobStatus

def all : List JobStatus := [pending, processing, validating, completed, failed, cancelled]

def name : JobStatus → String
  | pending => "PENDING"
  | processing => "PROCESSING"
  | validating => "VALIDATING"
  | completed => "COMPLETED"
  | failed => "FAILED"
  | cancelled => "CANCELLED"

def ofName? (name : String) : Option JobStatus := all.find? (·.name == name)

def isTerminal : JobStatus → Bool
  | completed | failed | cancelled => true
  | _ => false

def canBecome : JobStatus → JobStatus → Bool
  | pending, processing => true
  | processing, validating => true
  | processing, completed | validating, completed => true
  | pending, failed | processing, failed | validating, failed => true
  | pending, cancelled | processing, cancelled | validating, cancelled => true
  | _, _ => false

end JobStatus

structure TranslationRequest where
  source : Format
  target : Format
  content : String
  validates : Bool := true

structure Job where
  /-- Absent if the request named no known dialect. -/
  source : Option Format
  target : Format
  content : String
  status : JobStatus := .pending
  attempts : Nat := 0
  translation : Option String := none
  confidence : Option Rat := none
  validation : Option ValidationResult := none
  error : Option ErrorReport := none
  completedAt : Option Nat := none

namespace Job

def ofRequest (request : TranslationRequest) : Job where
  source := some request.source
  target := request.target
  content := request.content

/-- A job that failed before it could start. -/
def rejected (now : Nat) (content : String) (target : Format) (error : ErrorReport) : Job where
  source := none
  target
  content
  status := .failed
  error := some error
  completedAt := some now

/-- The job in a new status if that is allowed, and the same job else. -/
def advance (job : Job) (now : Nat) (next : JobStatus) : Job :=
  if job.status.canBecome next then
    { job with
      status := next
      completedAt := if next.isTerminal then some now else job.completedAt }
  else job

def fail (job : Job) (now : Nat) (error : JobError) : Job :=
  let next := if error = .cancelled then JobStatus.cancelled else .failed
  if job.status.canBecome next then { job.advance now next with error := some error.report }
  else job

def isSuccess (job : Job) : Bool := job.status == .completed

def errorCode? (job : Job) : Option String := job.error.map (·.code)

def toJson (job : Job) : Json := Json.ofMembers
  [job.source.map fun format => ("sourceFormat", .str format.name),
    some ("targetFormat", .str job.target.name), some ("status", .str job.status.name),
    some ("attempts", .ofNat job.attempts), some ("sourceContent", .str job.content),
    job.translation.map fun text => ("translatedContent", .str text),
    job.confidence.map fun confidence => ("confidenceScore", .ofRat confidence),
    job.validation.map fun result => ("validationResult", result.toJson),
    job.error.map fun report => ("error", report.toJson)]

end Job

structure BatchItem where
  /-- Chosen by the caller. -/
  id : String
  content : String
  format : Format

structure BatchRequest where
  items : List BatchItem
  target : Format
  continueOnError : Option Bool := none
  maxConcurrent : Option UInt64 := none

structure BatchResult where
  id : String
  job : Job

structure BatchSummary where
  status : JobStatus
  successful : Nat
  failed : Nat
  cancelled : Nat
  averageConfidence : Rat
  /-- How often each error code occurs, in the order of the codes. -/
  errors : List (String × Nat)
  results : List BatchResult

namespace BatchSummary

def total (summary : BatchSummary) : Nat := summary.results.length

def processed (summary : BatchSummary) : Nat := summary.successful + summary.failed

def isFailed (job : Job) : Bool := job.status != .completed && job.status != .cancelled

def failureCode (job : Job) : String := job.errorCode?.getD "UNKNOWN"

def countCodes (codes : List String) : List (String × Nat) :=
  (codes.eraseDups.mergeSort fun first second => decide (first ≤ second)).map fun code =>
    (code, codes.count code)

/-- The mean, to one decimal place. -/
def average (rounded : Rat → Rat) (confidences : List Rat) : Rat :=
  if confidences.isEmpty then 0
  else
    let sum := confidences.foldl (fun sum confidence => rounded (sum + confidence)) 0
    Score.toTenths rounded (rounded (sum / (confidences.length : Nat)))

def ofResults (rounded : Rat → Rat) (results : List BatchResult) : BatchSummary :=
  let jobs := results.map (·.job)
  let completed := jobs.filter (·.isSuccess)
  let failed := jobs.filter isFailed
  let cancelled := jobs.filter (·.status == .cancelled)
  { status := if !cancelled.isEmpty || (!failed.isEmpty && completed.isEmpty) then .failed
      else .completed
    successful := completed.length
    failed := failed.length
    cancelled := cancelled.length
    averageConfidence := average rounded (completed.map fun job => job.confidence.getD 0)
    errors := countCodes (failed.map failureCode)
    results }

def toJson (summary : BatchSummary) : Json := .object
  [("status", .str summary.status.name), ("totalDetections", .ofNat summary.total),
    ("processedDetections", .ofNat summary.processed),
    ("successfulTranslations", .ofNat summary.successful),
    ("failedTranslations", .ofNat summary.failed),
    ("cancelledTranslations", .ofNat summary.cancelled),
    ("averageConfidence", .ofRat summary.averageConfidence),
    ("errorSummary", .object (summary.errors.map fun (code, count) => (code, .ofNat count))),
    ("results", .array (summary.results.map fun result =>
      .object [("id", .str result.id), ("job", result.job.toJson)]))]

end BatchSummary

end DetectionRules
