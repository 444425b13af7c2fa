import DetectionRules.Config.Basic
import DetectionRules.Json.Shape

/-!
Settings as JSON documents. What a document leaves out has its default; the
secret of the advisor is read and never written.
-/

namespace DetectionRules

open Json (Shape)

namespace Config

def uint64 : Shape := .natural UInt64.size

def uint32 : Shape := .natural UInt32.size

def advisorShape : Shape := .record
  [("enabled", .flag, false), ("endpoint", .optional .text, false),
    ("api_key", .optional .text, false), ("model", .text, false), ("temperature", .float, false),
    ("max_tokens", uint32, false), ("timeout_secs", uint64, false),
    ("min_confidence", .float, false), ("max_attempts", uint32, false)]

def cacheShape : Shape := .record
  [("enabled", .flag, false), ("ttl_secs", uint64, false), ("max_entries", uint64, false),
    ("min_confidence", .float, false)]

def shape : Shape := .record
  [("job_timeout_secs", uint64, false),
    ("batch", .record
      [("max_concurrent", uint64, false), ("max_concurrent_limit", uint64, false),
        ("max_batch_size", uint64, false), ("continue_on_error", .flag, false)], false),
    ("retry", .record
      [("max_attempts", uint32, false), ("initial_backoff_ms", uint64, false),
        ("backoff_factor", .float, false), ("max_backoff_ms", uint64, false)], false),
    ("cache", cacheShape, false),
    ("validation", .record [("quality_threshold", .float, false)], false),
    ("collaborator", advisorShape, false)]

def member {Value : Type} (json : Json) (name : String) (read : Json → Option Value)
    (default : Value) : Value :=
  ((json.member? name).bind read).getD default

def uint64? (json : Json) : Option UInt64 := json.nat?.map UInt64.ofNat

def uint32? (json : Json) : Option UInt32 := json.nat?.map UInt32.ofNat

def part (name : String) (json : Json) : Json := (json.member? name).getD (.object [])

def batchOfJson (defaults : BatchConfig) (json : Json) : BatchConfig where
  maxConcurrent := member json "max_concurrent" uint64? defaults.maxConcurrent
  maxConcurrentLimit := member json "max_concurrent_limit" uint64? defaults.maxConcurrentLimit
  maxBatchSize := member json "max_batch_size" uint64? defaults.maxBatchSize
  continueOnError := member json "continue_on_error" Json.bool? defaults.continueOnError

def retryOfJson (defaults : RetryConfig) (json : Json) : RetryConfig where
  maxAttempts := member json "max_attempts" uint32? defaults.maxAttempts
  initialBackoffMs := member json "initial_backoff_ms" uint64? defaults.initialBackoffMs
  backoffFactor := member json "backoff_factor" Json.float? defaults.backoffFactor
  maxBackoffMs := member json "max_backoff_ms" uint64? defaults.maxBackoffMs

def cacheOfJson (defaults : CacheConfig) (json : Json) : CacheConfig where
  enabled := member json "enabled" Json.bool? defaults.enabled
  ttlSeconds := member json "ttl_secs" uint64? defaults.ttlSeconds
  maxEntries := member json "max_entries" uint64? defaults.maxEntries
  minConfidence := member json "min_confidence" Json.float? defaults.minConfidence

def advisorOfJson (defaults : AdvisorConfig) (json : Json) : AdvisorConfig where
  enabled := member json "enabled" Json.bool? defaults.enabled
  endpoint := (json.member? "endpoint").bind Json.str?
  apiKey := (json.member? "api_key").bind Json.str?
  model := member json "model" Json.str? defaults.model
  temperature := member json "temperature" Json.float? defaults.temperature
  maxTokens := member json "max_tokens" uint32? defaults.maxTokens
  timeoutSeconds := member json "timeout_secs" uint64? defaults.timeoutSeconds
  minConfidence := member json "min_confidence" Json.float? defaults.minConfidence
  maxAttempts := member json "max_attempts" uint32? defaults.maxAttempts

def ofFitted (json : Json) : Config where
  jobTimeoutSeconds := member json "job_timeout_secs" uint64? ({} : Config).jobTimeoutSeconds
  batch := batchOfJson {} (part "batch" json)
  retry := retryOfJson {} (part "retry" json)
  cache := cacheOfJson {} (part "cache" json)
  validation := ⟨member (part "validation" json) "quality_threshold" Json.float?
    ({} : ValidationConfig).qualityThreshold⟩
  advisor := advisorOfJson {} (part "collaborator" json)

def ofJson? (document : Json) : Option Config := (shape.fit? document).map ofFitted

def toJson (config : Config) : Json := .object
  [("job_timeout_secs", .ofNat config.jobTimeoutSeconds.toNat),
    ("batch", .object
      [("max_concurrent", .ofNat config.batch.maxConcurrent.toNat),
        ("max_concurrent_limit", .ofNat config.batch.maxConcurrentLimit.toNat),
        ("max_batch_size", .ofNat config.batch.maxBatchSize.toNat),
        ("continue_on_error", .bool config.batch.continueOnError)]),
    ("retry", .object
      [("max_attempts", .ofNat config.retry.maxAttempts.toNat),
        ("initial_backoff_ms", .ofNat config.retry.initialBackoffMs.toNat),
        ("backoff_factor", .float config.retry.backoffFactor),
        ("max_backoff_ms", .ofNat config.retry.maxBackoffMs.toNat)]),
    ("cache", .object
      [("enabled", .bool config.cache.enabled), ("ttl_secs", .ofNat config.cache.ttlSeconds.toNat),
        ("max_entries", .ofNat config.cache.maxEntries.toNat),
        ("min_confidence", .float config.cache.minConfidence)]),
    ("validation", .object [("quality_threshold", .float config.validation.qualityThreshold)]),
    ("collaborator", .object
      [("enabled", .bool config.advisor.enabled),
        ("endpoint", .ofOption .str config.advisor.endpoint), ("model", .str config.advisor.model),
        ("temperature", .float config.advisor.temperature),
        ("max_tokens", .ofNat config.advisor.maxTokens.toNat),
        ("timeout_secs", .ofNat config.advisor.timeoutSeconds.toNat),
        ("min_confidence", .float config.advisor.minConfidence),
        ("max_attempts", .ofNat config.advisor.maxAttempts.toNat)])]

end Config

end DetectionRules
