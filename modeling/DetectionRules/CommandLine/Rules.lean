import DetectionRules.CommandLine.Command
import DetectionRules.CommandLine.ExitCode
import DetectionRules.CommandLine.Terminal
import DetectionRules.Dialect.Detection
import DetectionRules.Engine.Translation

/-!
What the commands on rules have in common: reading rules from files, finding out
their dialects, and showing what was found in them.

Translating and validating single rules.
-/

namespace DetectionRules.CommandLine

namespace RuleFile

variable {m : Type → Type} [Monad m] [Host m]

/-- The text of a rule in a file or, for a single hyphen, on the standard input. -/
def read (path : String) : Task m String :=
  if Path.isStandardInput path then
    Task.onFile (some "Failed to read rule from stdin") Host.readInput
  else Task.onFile (some ("Failed to read rule file: " ++ path)) (Host.readFile path)

/-- The dialect that was given, or else that of the file extension, or else the one that the text
looks like. -/
def format? (given : Option Format) (path content : String) : Option Format :=
  given.or (((Path.extension? path).bind Format.ofExtension?).or (Dialect.detect? content))

def format (given : Option Format) (path content : String) : Except Failure Format :=
  match format? given path content with
  | some format => .ok format
  | none => .error
      (.refused ("Could not determine the format of " ++ path ++ "; pass it explicitly"))

def load (given : Option Format) (path : String) : Task m DetectionText := do
  let content ← read path
  return ⟨content, ← ExceptT.mk (pure (format given path content))⟩

/-- Where a translated rule is written: under the name of its file, with the extension of the
target dialect. -/
def translatedPath (folder source : String) (target : Format) : String :=
  let stem := ((Path.stem? source).filter fun stem => stem != "" && stem != "-").getD "rule"
  Path.join folder (stem ++ "." ++ target.fileExtension)

end RuleFile

/-- The advisor of a program without a network. -/
def unreachableAdvisor : Advisor Unit := fun _ =>
  return .error (.unavailable "no network")

def engineFor (config : Config) : Except Failure (Engine Unit) :=
  match config.check with
  | .error error => .error (.refused ("Invalid engine configuration: " ++ error.message))
  | .ok () => .ok { config, advisor := if config.advisor.enabled then some unreachableAdvisor else none }

def durationText (milliseconds : Nat) : String :=
  if milliseconds < 1000 then toString milliseconds ++ " ms"
  else if milliseconds < 60000 then Number.fixed 1 (mkRat (milliseconds : Nat) 1000) ++ " s"
  else toString (milliseconds / 60000) ++ "m " ++ toString (milliseconds % 60000 / 1000) ++ "s"

namespace Terminal

def severityLabel (terminal : Terminal) (severity : Severity) : String :=
  let looks : List Look := match severity with
    | .high => [.bold, .red]
    | .medium => [.yellow]
    | .low => [.cyan]
  terminal.paint looks severity.name

def verdictLabel (terminal : Terminal) (verdict : Verdict) : String :=
  let look : Look := match verdict with
    | .success => .green
    | .warning => .yellow
    | .error => .red
  terminal.paint [.bold, look] verdict.name

def confidenceLabel (terminal : Terminal) (score : Rat) (meetsBar : Bool) : String :=
  terminal.paint [if meetsBar then .green else .yellow] (Number.fixed 1 score)

def issueLines (terminal : Terminal) (issue : Issue) : List String :=
  ("  [" ++ terminal.severityLabel issue.severity ++ "] " ++ issue.message ++ " (" ++
      terminal.paint [.dimmed] issue.code ++ ") at " ++ issue.location) ::
    issue.suggestions.map fun suggestion =>
      "    " ++ terminal.paint [.green] "Fix" ++ ": " ++ suggestion

def recommendationLines (terminal : Terminal) (recommendations : List String) : List String :=
  if recommendations.isEmpty then []
  else terminal.paint [.bold] "Recommendations:" :: recommendations.map ("  - " ++ ·)

def validationLines (terminal : Terminal) (result : ValidationResult) : List String :=
  (terminal.paint [.bold] "Validation" ++ " " ++ result.source.name ++ " -> " ++
      result.target.name ++ ": " ++ terminal.verdictLabel result.verdict ++ " (confidence " ++
      terminal.confidenceLabel result.score result.meetsQualityBar ++ ")") ::
    (result.issues.flatMap terminal.issueLines ++
      terminal.recommendationLines result.recommendations)

end Terminal

end DetectionRules.CommandLine

namespace DetectionRules.CommandLine

variable {m : Type → Type} [Monad m] [Host m]

namespace Terminal

def jobError (terminal : Terminal) (error : ErrorReport) : Task m Unit := do
  Task.reportLine (terminal.paint [.bold, .red] "Error:" ++ " " ++ error.message ++ " (" ++
    terminal.paint [.dimmed] error.code ++ ")")
  if !error.details.isNull then Task.reportLine ("  " ++ error.details.sorted.text)

/-- Shows a job to readers, with the rule unless it went elsewhere. -/
def job (terminal : Terminal) (job : Job) (showsRule : Bool) (duration : Nat) : Task m Unit := do
  match job.error with
  | some error => terminal.jobError error
  | none =>
      if showsRule then
        if let some text := job.translation then
          Task.printLine (String.ofList (Text.trimBlanksEnd text.toList))
          Task.printLine ""
      match job.validation, job.confidence with
      | some result, _ => (terminal.validationLines result).forM Task.printLine
      | none, some score =>
          Task.printLine (terminal.paint [.bold] "Confidence:" ++ " " ++
            terminal.confidenceLabel score true)
      | none, none => pure ()
      Task.reportLine (terminal.paint [.dimmed] "Done:" ++ " " ++ toString job.attempts ++
        " attempt(s) in " ++ durationText duration)

end Terminal

namespace TranslateCommand

def run (command : TranslateCommand) (terminal : Terminal) (config : Config) : Task m ExitCode := do
  let rule ← RuleFile.load command.source command.input
  let engine ← ExceptT.mk (pure (engineFor config))
  let request : TranslationRequest := ⟨rule.format, command.target, rule.content, command.validates⟩
  let (job, moment) := (engine.translate request).run ⟨0, engine.initialState ()⟩
  if let (some path, some text) := (command.out, job.translation) then
    Task.onFile (some ("Failed to write translated rule: " ++ path)) (Host.writeFile path text)
  if terminal.format.isMachine then terminal.document job.toJson
  else
    terminal.job job command.out.isNone moment.now
    if let some path := command.out then
      if job.isSuccess then terminal.success ("Translated rule written to: " ++ path)
  return .ofJob job

end TranslateCommand

namespace ValidateCommand

def run (command : ValidateCommand) (terminal : Terminal) (config : Config) : Task m ExitCode := do
  let source ← RuleFile.read command.source
  let target ← RuleFile.read command.target
  let formatOf (given : Option Format) (path content : String) : Task m Format :=
    ExceptT.mk (pure (RuleFile.format given path content))
  let sourceFormat ← formatOf command.sourceFormat command.source source
  let targetFormat ← formatOf command.targetFormat command.target target
  let engine ← ExceptT.mk (pure (engineFor config))
  let result := engine.validate ⟨⟨source, sourceFormat⟩, ⟨target, targetFormat⟩⟩
  if terminal.format.isMachine then terminal.document result.toJson
  else (terminal.validationLines result).forM Task.printLine
  return .ofValidation result

end ValidateCommand

end DetectionRules.CommandLine
