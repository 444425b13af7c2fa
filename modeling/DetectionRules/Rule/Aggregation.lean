import DetectionRules.Text.Basic

/-!
Thresholds on the number of matching events: what is counted, per which
fields, how the count compares and over which stretch of time.
-/

namespace DetectionRules

inductive Comparison where
  | gt
  | gte
  | lt
  | lte
  | eq
deriving DecidableEq

namespace Comparison

def all : List Comparison := [gt, gte, lt, lte, eq]

def name : Comparison → String
  | gt => "gt"
  | gte => "gte"
  | lt => "lt"
  | lte => "lte"
  | eq => "eq"

def ofName? (name : String) : Option Comparison := all.find? fun comparison => comparison.name == name

def sign : Comparison → String
  | gt => ">"
  | gte => ">="
  | lt => "<"
  | lte => "<="
  | eq => "=="

def singleSign : Comparison → String
  | eq => "="
  | comparison => comparison.sign

/-- Equality may be written with one sign or with two. -/
def ofSign? : String → Option Comparison
  | ">" => some gt
  | ">=" => some gte
  | "<" => some lt
  | "<=" => some lte
  | "=" | "==" => some eq
  | _ => none

end Comparison

inductive TimeUnit where
  | second
  | minute
  | hour
  | day
deriving DecidableEq

namespace TimeUnit

def seconds : TimeUnit → Nat
  | second => 1
  | minute => 60
  | hour => 3600
  | day => 86400

def letter : TimeUnit → Char
  | second => 's'
  | minute => 'm'
  | hour => 'h'
  | day => 'd'

/-- Reads a short or spelled-out name; the case of letters does not matter. -/
def ofName? (name : String) : Option TimeUnit :=
  match Text.lower name with
  | "s" | "sec" | "secs" | "second" | "seconds" => some second
  | "m" | "min" | "mins" | "minute" | "minutes" => some minute
  | "h" | "hr" | "hrs" | "hour" | "hours" => some hour
  | "d" | "day" | "days" => some day
  | _ => none

end TimeUnit

structure TimeWindow where
  seconds : UInt64
deriving DecidableEq

namespace TimeWindow

/-- A positive number of units whose seconds fit 64 bits. -/
def ofAmount? (amount : UInt64) (timeUnit : TimeUnit) : Option TimeWindow :=
  let seconds := amount.toNat * timeUnit.seconds
  if 0 < seconds ∧ seconds < UInt64.size then some ⟨UInt64.ofNat seconds⟩ else none

/-- Reads digits followed by the name of a unit, such as `5m` or `10 minutes`. -/
def ofText? (text : String) : Option TimeWindow :=
  let characters := (Text.trim text).toList
  let digits := characters.takeWhile Char.isDigit
  let unitName := characters.dropWhile Char.isDigit
  if unitName.isEmpty then none
  else do
    let amount ← Text.uint64OfDigits? digits
    let timeUnit ← TimeUnit.ofName? (Text.trim (String.ofList unitName))
    ofAmount? amount timeUnit

/-- The largest unit that divides the window, and how many of them it takes. -/
def amount (window : TimeWindow) : UInt64 × TimeUnit :=
  match [TimeUnit.day, .hour, .minute].find? fun timeUnit =>
      window.seconds.toNat % timeUnit.seconds == 0 with
  | some timeUnit => (UInt64.ofNat (window.seconds.toNat / timeUnit.seconds), timeUnit)
  | none => (window.seconds, .second)

def text (window : TimeWindow) : String :=
  let (amount, timeUnit) := window.amount
  toString amount ++ timeUnit.letter.toString

end TimeWindow

/-- What is counted: the events, or the different values of a field. -/
inductive Counted where
  | events
  | distinct (field : String)
deriving DecidableEq

structure Aggregation where
  counted : Counted
  groupBy : List String
  comparison : Comparison
  threshold : UInt64
  window : Option TimeWindow
deriving DecidableEq

def Aggregation.fields (aggregation : Aggregation) : List String :=
  match aggregation.counted with
  | .events => aggregation.groupBy
  | .distinct field => aggregation.groupBy ++ [field]

end DetectionRules
