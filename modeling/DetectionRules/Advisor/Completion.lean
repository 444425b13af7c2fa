import DetectionRules.Advisor.Suggestion
import DetectionRules.Config.Basic

/-!
An advisor behind a chat completion service: the question as a request to the
service, and the suggestion in its answer. Errors of the server and too many
requests may pass; any other refusal is final.
-/

namespace DetectionRules.Completion

open Json (Shape)

def instructions : String :=
  "You map security detection rule fields between SIEM dialects. " ++
    "Answer with a single JSON object \x7b\"field\": <candidate>, \"confidence\": <0.0-1.0>\x7d " ++
    "and nothing else. The field must be one of the listed candidates."

def prompt (question : FieldQuestion) : String :=
  "Source dialect: " ++ question.source.displayName ++ "\nTarget dialect: " ++
    question.target.displayName ++ "\nField: " ++ question.field ++ "\nCandidates: " ++
    String.intercalate ", " question.candidates ++
    (if question.samples.isEmpty then ""
      else "\nSample values: " ++ String.intercalate ", " question.samples)

structure Request where
  path : String
  authorization : Option String
  body : Json

def userAgent : String := "rulebridge/0.1.0"

def line (request : Request) : String := "POST " ++ request.path ++ " HTTP/1.1"

def message (role content : String) : Json :=
  .object [("role", .str role), ("content", .str content)]

/-- Writes a character of a path by its bytes if it may not stand there. -/
def pathChar (c : Char) : List Char :=
  let isPlain := 0x20 < c.toNat && c.toNat < 0x7F &&
    c ∉ ['"', '<', '>', '\x60', '\x7b', '\x7d', '^']
  if isPlain then [c]
  else (String.singleton c).toUTF8.toList.flatMap fun byte =>
    let digits := (Nat.toDigits 16 byte.toNat).map Char.toUpper
    '%' :: List.replicate (2 - digits.length) '0' ++ digits

def afterScheme : List Char → List Char
  | ':' :: '/' :: '/' :: rest => rest
  | _ :: rest => afterScheme rest
  | [] => []

/-- The path of the service at an address, which may end in slashes. A fragment is left out. -/
def path (endpoint : String) : String :=
  let trimmed := (endpoint.toList.reverse.dropWhile (· == '/')).reverse
  let whole := afterScheme (trimmed ++ "/v1/chat/completions".toList)
  let below := (whole.dropWhile (· ∉ ['/', '?', '#'])).takeWhile (· != '#')
  let rooted := if below.head? == some '/' then below else '/' :: below
  String.ofList (rooted.flatMap pathChar)

def isHeaderText (text : String) : Bool :=
  text.toList.all fun c => c == '\t' || (0x20 ≤ c.toNat && c.toNat != 0x7F)

def endpoint (config : AdvisorConfig) : Except AdvisorError String :=
  match config.endpoint with
  | some endpoint => .ok endpoint
  | none => .error (.configuration "no endpoint configured")

def request (config : AdvisorConfig) (endpoint : String) (question : FieldQuestion) :
    Except AdvisorError Request :=
  if config.apiKey.all isHeaderText then
    .ok {
      path := path endpoint
      authorization := config.apiKey.map fun key => "Bearer " ++ key
      body := .object
        [("model", .str config.model), ("temperature", .float config.temperature),
          ("max_tokens", .ofNat config.maxTokens.toNat),
          ("messages", .array [message "system" instructions, message "user" (prompt question)])] }
  else .error (.unavailable "<transport error>")

/-- The standard phrase for a status. -/
def reason : Nat → String
  | 200 => "OK" | 201 => "Created" | 202 => "Accepted" | 203 => "Non Authoritative Information"
  | 204 => "No Content" | 205 => "Reset Content" | 206 => "Partial Content"
  | 207 => "Multi-Status" | 208 => "Already Reported" | 226 => "IM Used"
  | 300 => "Multiple Choices" | 301 => "Moved Permanently" | 302 => "Found" | 303 => "See Other"
  | 304 => "Not Modified" | 305 => "Use Proxy" | 307 => "Temporary Redirect"
  | 308 => "Permanent Redirect" | 400 => "Bad Request" | 401 => "Unauthorized"
  | 402 => "Payment Required" | 403 => "Forbidden" | 404 => "Not Found"
  | 405 => "Method Not Allowed" | 406 => "Not Acceptable"
  | 407 => "Proxy Authentication Required" | 408 => "Request Timeout" | 409 => "Conflict"
  | 410 => "Gone" | 411 => "Length Required" | 412 => "Precondition Failed"
  | 413 => "Payload Too Large" | 414 => "URI Too Long" | 415 => "Unsupported Media Type"
  | 416 => "Range Not Satisfiable" | 417 => "Expectation Failed" | 418 => "I'm a teapot"
  | 421 => "Misdirected Request" | 422 => "Unprocessable Entity" | 423 => "Locked"
  | 424 => "Failed Dependency" | 425 => "Too Early" | 426 => "Upgrade Required"
  | 428 => "Precondition Required" | 429 => "Too Many Requests"
  | 431 => "Request Header Fields Too Large" | 451 => "Unavailable For Legal Reasons"
  | 500 => "Internal Server Error" | 501 => "Not Implemented" | 502 => "Bad Gateway"
  | 503 => "Service Unavailable" | 504 => "Gateway Timeout" | 505 => "HTTP Version Not Supported"
  | 506 => "Variant Also Negotiates" | 507 => "Insufficient Storage" | 508 => "Loop Detected"
  | 510 => "Not Extended" | 511 => "Network Authentication Required"
  | _ => "<unknown status code>"

def statusText (status : Nat) : String := "HTTP " ++ toString status ++ " " ++ reason status

def shape : Shape := .record
  [("choices", .list (.record
    [("message", .record [("content", .optional .text, false)], true)]), false)]

/-- The text of the first choice. -/
def firstContent? (json : Json) : Option String := do
  let choices ← (← json.member? "choices").array?
  (← (← choices.head?).member? "message").member? "content" |>.bind Json.str?

inductive Outcome where
  | answered (status : Nat) (body : String)
  | unreachable
  | stalled

def read (config : AdvisorConfig) : Outcome → Except AdvisorError FieldSuggestion
  | .unreachable => .error (.unavailable "<transport error>")
  | .stalled => .error (.timeout config.timeoutSeconds)
  | .answered status body =>
      if (500 ≤ status && status ≤ 599) || status == 429 then
        .error (.unavailable (statusText status))
      else if status < 200 || 299 < status then .error (.invalidResponse (statusText status))
      else
        match shape.fitText body with
        | .error _ => .error (.invalidResponse "error decoding response body")
        | .ok json =>
            match firstContent? json with
            | none => .error (.invalidResponse "empty completion")
            | some content => FieldSuggestion.ofText content

end DetectionRules.Completion
