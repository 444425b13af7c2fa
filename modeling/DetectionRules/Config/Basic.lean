import DetectionRules.Job.Error
import DetectionRules.Time.Retry

/-!
Settings of translations, with their defaults, and the first setting that
translations cannot run with.
-/

namespace DetectionRules

structure BatchConfig where
  /-- Concurrent items when a request does not say. -/
  maxConcurrent : UInt64 := 10
  maxConcurrentLimit : UInt64 := 50
  maxBatchSize : UInt64 := 100
  continueOnError : Bool := true
deriving DecidableEq

structure RetryConfig where
  maxAttempts : UInt32 := 3
  initialBackoffMs : UInt64 := 200
  backoffFactor : Binary64 := .finite 2
  maxBackoffMs : UInt64 := 5000
deriving DecidableEq

structure CacheConfig where
  enabled : Bool := true
  ttlSeconds : UInt64 := 3600
  maxEntries : UInt64 := 1024
  /-- Translations with less confidence are not kept. -/
  minConfidence : Binary64 := .finite 85
deriving DecidableEq

structure ValidationConfig where
  /-- The confidence from which a translation meets the quality bar. -/
  qualityThreshold : Binary64 := .finite 95
deriving DecidableEq

structure AdvisorConfig where
  enabled : Bool := false
  endpoint : Option String := none
  /-- A secret, which is never shown. -/
  apiKey : Option String := none
  model : String := "gpt-4"
  temperature : Binary64 := .finite (Binary64.round (mkRat 2 10))
  maxTokens : UInt32 := 4096
  timeoutSeconds : UInt64 := 60
  /-- Suggestions with less confidence are not taken. -/
  minConfidence : Binary64 := .finite (Binary64.round (mkRat 85 100))
  maxAttempts : UInt32 := 2
deriving DecidableEq

structure Config where
  /-- The time limit of one attempt at a job. -/
  jobTimeoutSeconds : UInt64 := 30
  batch : BatchConfig := {}
  retry : RetryConfig := {}
  cache : CacheConfig := {}
  validation : ValidationConfig := {}
  advisor : AdvisorConfig := {}
deriving DecidableEq

def RetryConfig.backoff (config : RetryConfig) : Backoff :=
  .exponential config.initialBackoffMs.toNat config.backoffFactor config.maxBackoffMs.toNat

def RetryConfig.jobPolicy (config : RetryConfig) : RetryPolicy JobError :=
  ⟨config.maxAttempts.toNat, config.backoff, JobError.isRetryable⟩

def Config.advisorPolicy (config : Config) : RetryPolicy AdvisorError :=
  ⟨config.advisor.maxAttempts.toNat, config.retry.backoff, AdvisorError.isRetryable⟩

def Config.jobTimeout (config : Config) : Nat := config.jobTimeoutSeconds.toNat * 1000

def AdvisorConfig.timeout (config : AdvisorConfig) : Nat := config.timeoutSeconds.toNat * 1000

/-- Why a setting cannot be used. -/
def Config.complaint? (config : Config) : Option String :=
  if config.jobTimeoutSeconds == 0 then some "job_timeout_secs must be positive"
  else if config.batch.maxConcurrent == 0 || config.batch.maxConcurrentLimit == 0 then
    some "batch concurrency must be at least 1"
  else if config.batch.maxBatchSize == 0 then some "batch.max_batch_size must be at least 1"
  else if config.retry.maxAttempts == 0 then some "retry.max_attempts must be at least 1"
  else if config.retry.backoffFactor.isBelow (.finite 1) then some "retry.backoff_factor must be at least 1.0"
  else if !config.validation.qualityThreshold.isWithin 0 100 then
    some "validation.quality_threshold must be within 0-100"
  else if !config.advisor.minConfidence.isWithin 0 1 then
    some "collaborator.min_confidence must be within 0.0-1.0"
  else if config.advisor.enabled && config.advisor.endpoint.isNone then
    some "collaborator.endpoint is required when the collaborator is enabled"
  else none

def Config.check (config : Config) : Except JobError Unit :=
  match config.complaint? with
  | some complaint => .error (.invalidRequest complaint)
  | none => .ok ()

end DetectionRules
