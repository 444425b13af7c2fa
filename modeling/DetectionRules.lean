import DetectionRules.Advisor.Completion
import DetectionRules.Advisor.Script
import DetectionRules.CommandLine.Files
import DetectionRules.Detection
import DetectionRules.Main
import DetectionRules.Service.Answer
import DetectionRules.Proofs.Logic
import DetectionRules.Proofs.Rule
import DetectionRules.Proofs.Selections
import DetectionRules.Proofs.Number
import DetectionRules.Proofs.Scanning
import DetectionRules.Proofs.Parsing
import DetectionRules.Proofs.Grammar
import DetectionRules.Proofs.Dialect
import DetectionRules.Proofs.Kql.Test
import DetectionRules.Proofs.Kql.Filter
import DetectionRules.Proofs.Kql.Summary
import DetectionRules.Proofs.Kql.Query
import DetectionRules.Proofs.YaraL.Test
import DetectionRules.Proofs.YaraL.Events
import DetectionRules.Proofs.Named
import DetectionRules.Proofs.YaraL.Placeholder
import DetectionRules.Proofs.YaraL.Summary
import DetectionRules.Proofs.YaraL.Rule
import DetectionRules.Proofs.Yara.Caseless
import DetectionRules.Proofs.QRadar.Query
import DetectionRules.Proofs.Json.Reading
import DetectionRules.Proofs.Json.Fitting
import DetectionRules.Proofs.PaloAlto.Condition
import DetectionRules.Proofs.PaloAlto.Rule
import DetectionRules.Proofs.Activity
import DetectionRules.Proofs.Adaptation.Resolution
import DetectionRules.Proofs.Adaptation.Remainder
import DetectionRules.Proofs.Adaptation.WellFormed
import DetectionRules.Proofs.Adaptation.Losses
import DetectionRules.Proofs.Ensuring
import DetectionRules.Proofs.Accepted
import DetectionRules.Proofs.Adaptation.Identity
import DetectionRules.Proofs.Adaptation.Return
import DetectionRules.Proofs.Adaptation.Advice
import DetectionRules.Proofs.Glob
import DetectionRules.Proofs.CrowdStrike.Pattern
import DetectionRules.Proofs.CrowdStrike.Test
import DetectionRules.Proofs.CrowdStrike.Source
import DetectionRules.Proofs.CrowdStrike.Filter
import DetectionRules.Proofs.CrowdStrike.Summary
import DetectionRules.Proofs.CrowdStrike.Query
import DetectionRules.Proofs.Values
import DetectionRules.Proofs.CrowdStrike.Accepted
import DetectionRules.Proofs.Validation
import DetectionRules.Proofs.Engine.Translation
import DetectionRules.Proofs.Engine.Use
import DetectionRules.Proofs.Engine.Verdict
import DetectionRules.Proofs.Engine.Transparency
import DetectionRules.Proofs.Crew.Progress
import DetectionRules.Proofs.Crew.Results
import DetectionRules.Proofs.Crew.Order
import DetectionRules.Proofs.Crew.Turns
import DetectionRules.Proofs.Crew.Pool
import DetectionRules.Proofs.Engine.Batch
import DetectionRules.Proofs.Engine.FailFast
import DetectionRules.Proofs.Engine.Consistency
import DetectionRules.Proofs.CommandLine.Files
import DetectionRules.Proofs.CommandLine.Outputs
import DetectionRules.Proofs.CommandLine.ExitCode
import DetectionRules.Proofs.Lifting
import DetectionRules.Proofs.Sigma.Document
import DetectionRules.Proofs.Splunk.Reread
import DetectionRules.Proofs.Absence
import DetectionRules.Proofs.Runs
import DetectionRules.Proofs.Kql.Time
import DetectionRules.Proofs.YaraL.Condition
import DetectionRules.Proofs.Thresholds
import DetectionRules.Proofs.Sigma.Reread
import DetectionRules.Proofs.Literal
import DetectionRules.Proofs.Slashed
import DetectionRules.Proofs.Yara.Modifiers
import DetectionRules.Proofs.Cache.History
import DetectionRules.Proofs.Places
import DetectionRules.Proofs.Score
import DetectionRules.Proofs.Service.Batch
import DetectionRules.Proofs.Access.Adapters
import DetectionRules.Proofs.Precedence
import DetectionRules.Proofs.Spans
import DetectionRules.Proofs.Requoting
import DetectionRules.Proofs.Kql.Depth
import DetectionRules.Proofs.Retry
