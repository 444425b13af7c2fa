import DetectionRules.Job.Basic

/-!
The codes that a run ends with, so that scripts can tell failures apart, and
which code a translation, a validation and a batch end with.
-/

namespace DetectionRules.CommandLine

inductive ExitCode where
  | success
  | generalError
  | invalidArguments
  | configError
  | fileError
  | cancelled
  | timeout
  | parseError
  | unsupportedConstruct
  | generationError
  | unsupportedFormat
  | advisorUnavailable
  | validationWarnings
  | validationErrors
  | belowQualityBar
  | partialFailure
  | totalFailure
  | noItems
  | internalError
deriving DecidableEq

namespace ExitCode

def all : List ExitCode :=
  [success, generalError, invalidArguments, configError, fileError, cancelled, timeout, parseError,
    unsupportedConstruct, generationError, unsupportedFormat, advisorUnavailable,
    validationWarnings, validationErrors, belowQualityBar, partialFailure, totalFailure, noItems,
    internalError]

theorem mem_all (code : ExitCode) : code ∈ all := by cases code <;> decide

def number : ExitCode → Nat
  | success => 0
  | generalError => 1
  | invalidArguments => 2
  | configError => 3
  | fileError => 4
  | cancelled => 5
  | timeout => 6
  | parseError => 10
  | unsupportedConstruct => 11
  | generationError => 12
  | unsupportedFormat => 13
  | advisorUnavailable => 14
  | validationWarnings => 20
  | validationErrors => 21
  | belowQualityBar => 22
  | partialFailure => 50
  | totalFailure => 51
  | noItems => 52
  | internalError => 100

theorem number_injective {first second : ExitCode} (same : first.number = second.number) :
    first = second := by
  cases first <;> cases second <;> first | rfl | exact absurd same (by decide)

def name : ExitCode → String
  | success => "SUCCESS"
  | generalError => "GENERAL_ERROR"
  | invalidArguments => "INVALID_ARGUMENTS"
  | configError => "CONFIG_ERROR"
  | fileError => "IO_ERROR"
  | cancelled => "CANCELLED"
  | timeout => "TIMEOUT"
  | parseError => "PARSE_ERROR"
  | unsupportedConstruct => "UNSUPPORTED_CONSTRUCT"
  | generationError => "GENERATION_ERROR"
  | unsupportedFormat => "UNSUPPORTED_FORMAT"
  | advisorUnavailable => "COLLABORATOR_UNAVAILABLE"
  | validationWarnings => "VALIDATION_WARNINGS"
  | validationErrors => "VALIDATION_ERRORS"
  | belowQualityBar => "BELOW_QUALITY_BAR"
  | partialFailure => "PARTIAL_FAILURE"
  | totalFailure => "TOTAL_FAILURE"
  | noItems => "NO_ITEMS"
  | internalError => "INTERNAL_ERROR"

def description : ExitCode → String
  | success => "Operation completed successfully"
  | generalError => "General/unspecified error"
  | invalidArguments => "Invalid command line arguments"
  | configError => "Configuration file error"
  | fileError => "IO error (file read/write)"
  | cancelled => "Translation cancelled"
  | timeout => "Translation timed out"
  | parseError => "Source rule could not be parsed"
  | unsupportedConstruct => "Target dialect cannot express the rule"
  | generationError => "Target rule could not be generated"
  | unsupportedFormat => "Unknown rule format"
  | advisorUnavailable => "Semantic collaborator unavailable"
  | validationWarnings => "Validation reported warnings"
  | validationErrors => "Validation reported errors"
  | belowQualityBar => "Confidence below the quality bar"
  | partialFailure => "Batch partially succeeded"
  | totalFailure => "Batch completely failed"
  | noItems => "No rules to process"
  | internalError => "Internal error (panic, unexpected state)"

def category (code : ExitCode) : String :=
  if code = success then "Success"
  else if code.number < 10 then "General Errors"
  else if code.number < 20 then "Translation Errors"
  else if code.number < 50 then "Validation Results"
  else if code.number < 100 then "Batch Results"
  else "Internal Errors"

def ofErrorCode : String → ExitCode
  | "PARSE_ERROR" => parseError
  | "UNSUPPORTED_CONSTRUCT" => unsupportedConstruct
  | "GENERATION_ERROR" => generationError
  | "UNSUPPORTED_FORMAT" => unsupportedFormat
  | "COLLABORATOR_UNAVAILABLE" => advisorUnavailable
  | "TIMEOUT" => timeout
  | "CANCELLED" => cancelled
  | "INVALID_REQUEST" => invalidArguments
  | _ => generalError

/-- Errors outrank the quality bar, which outranks warnings. -/
def ofValidation (result : ValidationResult) : ExitCode :=
  match result.verdict with
  | .error => validationErrors
  | verdict =>
      if !result.meetsQualityBar then belowQualityBar
      else if verdict = .warning then validationWarnings
      else success

def ofJob (job : Job) : ExitCode :=
  if job.isSuccess then (job.validation.map ofValidation).getD success
  else (job.errorCode?.map ofErrorCode).getD generalError

def ofBatch (summary : BatchSummary) : ExitCode :=
  if summary.total = 0 then noItems
  else if summary.successful = 0 then totalFailure
  else if 0 < summary.failed || summary.status = .failed then partialFailure
  else success

end ExitCode

end DetectionRules.CommandLine
