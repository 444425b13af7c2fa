import DetectionRules.Json.Basic
import DetectionRules.Rule.Error

/-!
Why a translation fails, and why the advisor on field names fails. Only what
may pass by waiting, a time limit or an advisor out of reach, is worth another
attempt. The JSON of an error is shared by jobs and by answers to requests.
-/

namespace DetectionRules

inductive JobError where
  | rule (error : RuleError)
  | timeout (seconds : UInt64)
  | advisorUnavailable (reason : String)
  | cancelled
  | invalidRequest (reason : String)
  | unsupportedFormat (name : String)
deriving DecidableEq

namespace JobError

def message : JobError → String
  | rule error => error.message
  | timeout seconds => "Stage exceeded its deadline of " ++ toString seconds ++ "s"
  | advisorUnavailable reason => "Semantic collaborator unavailable: " ++ reason
  | cancelled => "Job cancelled"
  | invalidRequest reason => "Invalid request: " ++ reason
  | unsupportedFormat name => "Unsupported format: " ++ name

def code : JobError → String
  | rule (.malformed ..) => "PARSE_ERROR"
  | rule (.unsupported ..) => "UNSUPPORTED_CONSTRUCT"
  | rule (.unwritable ..) => "GENERATION_ERROR"
  | rule (.unknownFormat _) | unsupportedFormat _ => "UNSUPPORTED_FORMAT"
  | timeout _ => "TIMEOUT"
  | advisorUnavailable _ => "COLLABORATOR_UNAVAILABLE"
  | cancelled => "CANCELLED"
  | invalidRequest _ => "INVALID_REQUEST"

def isRetryable : JobError → Bool
  | timeout _ | advisorUnavailable _ => true
  | _ => false

def positionJson (position : Position) : Json :=
  .object [("line", .ofNat position.line), ("column", .ofNat position.column)]

def formatJson (format : Format) : String × Json := ("format", .str format.name)

def unknownFormatJson (name : String) : Json :=
  .object [("format", .str name), ("supported", .ofStrings (Format.all.map Format.name))]

def details : JobError → Json
  | rule (.malformed format position reason) =>
      .object [formatJson format, ("position", .ofOption positionJson position),
        ("reason", .str reason)]
  | rule (.unsupported format construct) =>
      .object [formatJson format, ("construct", .str construct)]
  | rule (.unwritable format reason) => .object [formatJson format, ("reason", .str reason)]
  | rule (.unknownFormat name) | unsupportedFormat name => unknownFormatJson name
  | timeout seconds => .object [("timeoutSecs", .ofNat seconds.toNat)]
  | advisorUnavailable reason | invalidRequest reason => .object [("reason", .str reason)]
  | cancelled => .null

end JobError

structure ErrorReport where
  code : String
  message : String
  details : Json

def JobError.report (error : JobError) : ErrorReport := ⟨error.code, error.message, error.details⟩

def ErrorReport.toJson (report : ErrorReport) : Json :=
  .object [("code", .str report.code), ("message", .str report.message),
    ("details", report.details)]

inductive AdvisorError where
  | timeout (seconds : UInt64)
  | unavailable (reason : String)
  | invalidResponse (reason : String)
  | configuration (reason : String)
deriving DecidableEq

namespace AdvisorError

def message : AdvisorError → String
  | timeout seconds => "Collaborator call timed out after " ++ toString seconds ++ "s"
  | unavailable reason => "Collaborator unreachable: " ++ reason
  | invalidResponse reason => "Invalid collaborator response: " ++ reason
  | configuration reason => "Collaborator configuration error: " ++ reason

def isRetryable : AdvisorError → Bool
  | timeout _ | unavailable _ => true
  | _ => false

def toJobError : AdvisorError → JobError
  | timeout seconds => .timeout seconds
  | error => .advisorUnavailable error.message

end AdvisorError

end DetectionRules
