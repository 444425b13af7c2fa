import DetectionRules.Config.Json
import DetectionRules.Number.Literal

/-!
The settings of the command line: those of translations, and how the program
itself behaves. Settings from several places are laid over each other; what a
place leaves at its default does not count.

Single settings by their keys: how each one is shown as text, and how a text
changes it.
-/

namespace DetectionRules

structure OutputSettings where
  /-- The name of the format that results are shown in. -/
  format : String := "plain"
  color : Bool := true
  progress : Bool := true
deriving DecidableEq

structure Settings where
  logLevel : String := "warn"
  bind : String := "127.0.0.1:8080"
  output : OutputSettings := {}
  engine : Config := {}
deriving DecidableEq

namespace Settings

open Json (Shape)

/-- The second value, unless it is the default. -/
def override {Value : Type} [DecidableEq Value] (default first second : Value) : Value :=
  if second = default then first else second

def overrideEngine (first second : Config) : Config :=
  let defaults : Config := {}
  { jobTimeoutSeconds :=
      override defaults.jobTimeoutSeconds first.jobTimeoutSeconds second.jobTimeoutSeconds
    batch := override defaults.batch first.batch second.batch
    retry := override defaults.retry first.retry second.retry
    cache := override defaults.cache first.cache second.cache
    validation := override defaults.validation first.validation second.validation
    advisor := override defaults.advisor first.advisor second.advisor }

/-- Lays settings over others. The settings of translations count section by section. -/
def merge (first second : Settings) : Settings :=
  let defaults : Settings := {}
  { logLevel := override defaults.logLevel first.logLevel second.logLevel
    bind := override defaults.bind first.bind second.bind
    output :=
      { format := override defaults.output.format first.output.format second.output.format
        color := first.output.color && second.output.color
        progress := first.output.progress && second.output.progress }
    engine := overrideEngine first.engine second.engine }

def shape : Shape := .record
  [("general", .record [("log_level", .text, false)], false),
    ("server", .record [("bind", .text, false)], false),
    ("output", .record
      [("format", .text, false), ("color", .flag, false), ("progress", .flag, false)], false),
    ("engine", Config.shape, false)]

def ofFitted (json : Json) : Settings :=
  let defaults : Settings := {}
  let output := Config.part "output" json
  { logLevel := Config.member (Config.part "general" json) "log_level" Json.str? defaults.logLevel
    bind := Config.member (Config.part "server" json) "bind" Json.str? defaults.bind
    output :=
      { format := Config.member output "format" Json.str? defaults.output.format
        color := Config.member output "color" Json.bool? defaults.output.color
        progress := Config.member output "progress" Json.bool? defaults.output.progress }
    engine := Config.ofFitted (Config.part "engine" json) }

def toJson (settings : Settings) : Json := .object
  [("general", .object [("log_level", .str settings.logLevel)]),
    ("server", .object [("bind", .str settings.bind)]),
    ("output", .object
      [("format", .str settings.output.format), ("color", .bool settings.output.color),
        ("progress", .bool settings.output.progress)]),
    ("engine", settings.engine.toJson)]

end Settings

inductive SettingKey where
  | logLevel
  | bind
  | outputFormat
  | color
  | progress
  | jobTimeout
  | maxConcurrent
  | maxBatchSize
  | continueOnError
  | maxAttempts
  | cacheEnabled
  | cacheLifetime
  | qualityThreshold
  | advisorEnabled
  | advisorEndpoint
  | advisorModel
  | advisorTimeout
deriving DecidableEq

namespace SettingKey

def all : List SettingKey :=
  [logLevel, bind, outputFormat, color, progress, jobTimeout, maxConcurrent, maxBatchSize,
    continueOnError, maxAttempts, cacheEnabled, cacheLifetime, qualityThreshold, advisorEnabled,
    advisorEndpoint, advisorModel, advisorTimeout]

theorem mem_all (key : SettingKey) : key ∈ all := by cases key <;> decide

def name : SettingKey → String
  | logLevel => "general.log_level"
  | bind => "server.bind"
  | outputFormat => "output.format"
  | color => "output.color"
  | progress => "output.progress"
  | jobTimeout => "engine.job_timeout_secs"
  | maxConcurrent => "engine.batch.max_concurrent"
  | maxBatchSize => "engine.batch.max_batch_size"
  | continueOnError => "engine.batch.continue_on_error"
  | maxAttempts => "engine.retry.max_attempts"
  | cacheEnabled => "engine.cache.enabled"
  | cacheLifetime => "engine.cache.ttl_secs"
  | qualityThreshold => "engine.validation.quality_threshold"
  | advisorEnabled => "engine.collaborator.enabled"
  | advisorEndpoint => "engine.collaborator.endpoint"
  | advisorModel => "engine.collaborator.model"
  | advisorTimeout => "engine.collaborator.timeout_secs"

def ofName? (name : String) : Option SettingKey := all.find? (·.name == name)

def boolText (value : Bool) : String := if value then "true" else "false"

/-- The text of a setting; a setting that may be missing may have none. -/
def text? (settings : Settings) : SettingKey → Option String
  | logLevel => settings.logLevel
  | bind => settings.bind
  | outputFormat => settings.output.format
  | color => boolText settings.output.color
  | progress => boolText settings.output.progress
  | jobTimeout => toString settings.engine.jobTimeoutSeconds
  | maxConcurrent => toString settings.engine.batch.maxConcurrent
  | maxBatchSize => toString settings.engine.batch.maxBatchSize
  | continueOnError => boolText settings.engine.batch.continueOnError
  | maxAttempts => toString settings.engine.retry.maxAttempts
  | cacheEnabled => boolText settings.engine.cache.enabled
  | cacheLifetime => toString settings.engine.cache.ttlSeconds
  | qualityThreshold => settings.engine.validation.qualityThreshold.text
  | advisorEnabled => boolText settings.engine.advisor.enabled
  | advisorEndpoint => settings.engine.advisor.endpoint
  | advisorModel => settings.engine.advisor.model
  | advisorTimeout => toString settings.engine.advisor.timeoutSeconds

def readBool (text : String) : Except String Bool :=
  (Number.bool text).mapError ("Invalid boolean value: " ++ ·)

def invalidInteger (reason : String) : String := "Invalid integer value: " ++ reason

def readUInt64 (text : String) : Except String UInt64 :=
  (Number.uint64 text).mapError invalidInteger

def readUInt32 (text : String) : Except String UInt32 :=
  (Number.uint32 text).mapError invalidInteger

def readFloat (text : String) : Except String Binary64 :=
  (Number.float text).mapError ("Invalid number: " ++ ·)

def set (settings : Settings) (text : String) : SettingKey → Except String Settings
  | logLevel => .ok { settings with logLevel := text }
  | bind => .ok { settings with bind := text }
  | outputFormat => .ok { settings with output.format := text }
  | color => do return { settings with output.color := ← readBool text }
  | progress => do return { settings with output.progress := ← readBool text }
  | jobTimeout => do return { settings with engine.jobTimeoutSeconds := ← readUInt64 text }
  | maxConcurrent => do return { settings with engine.batch.maxConcurrent := ← readUInt64 text }
  | maxBatchSize => do return { settings with engine.batch.maxBatchSize := ← readUInt64 text }
  | continueOnError => do return { settings with engine.batch.continueOnError := ← readBool text }
  | maxAttempts => do return { settings with engine.retry.maxAttempts := ← readUInt32 text }
  | cacheEnabled => do return { settings with engine.cache.enabled := ← readBool text }
  | cacheLifetime => do return { settings with engine.cache.ttlSeconds := ← readUInt64 text }
  | qualityThreshold => do
      return { settings with engine.validation.qualityThreshold := ← readFloat text }
  | advisorEnabled => do return { settings with engine.advisor.enabled := ← readBool text }
  | advisorEndpoint => .ok { settings with engine.advisor.endpoint := some text }
  | advisorModel => .ok { settings with engine.advisor.model := text }
  | advisorTimeout => do return { settings with engine.advisor.timeoutSeconds := ← readUInt64 text }

end SettingKey

end DetectionRules
