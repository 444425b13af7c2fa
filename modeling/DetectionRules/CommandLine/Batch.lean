import DetectionRules.CommandLine.Command
import DetectionRules.CommandLine.Rules
import DetectionRules.CommandLine.Terminal

/-!
Translating many rule files into one dialect. Files that hold no rule fail in
their place; the rules between them are translated in chunks. When a run stops
at its first failure, what comes after it is not run.
-/

namespace DetectionRules.CommandLine

/-- A rule to be translated, or the failure of a file that holds none. -/
abbrev Loaded := Except BatchResult BatchItem

namespace Loaded

def report (path : String) (failure : Failure) : ErrorReport :=
  ⟨if failure.isFile then "IO_ERROR" else "UNSUPPORTED_FORMAT", failure.message,
    .object [("path", .str path)]⟩

def ofFile (path : String) (target : Format) (outcome : Except Failure DetectionText) : Loaded :=
  match outcome with
  | .ok rule => .ok ⟨path, rule.content, rule.format⟩
  | .error failure => .error ⟨path, .rejected 0 "" target (report path failure)⟩

end Loaded

structure BatchRun where
  engine : Engine Unit
  target : Format
  continueOnError : Option Bool
  maxConcurrent : Option UInt64

namespace BatchRun

abbrev Moment := Activity.Moment (EngineState Unit)

/-- Results so far, whether a failure has stopped the run, and the moment after them. -/
structure Progress where
  results : List BatchResult
  stopped : Bool
  moment : Moment

def stopsOnFailure (run : BatchRun) : Bool :=
  !(run.continueOnError.getD run.engine.config.batch.continueOnError)

def chunkSize (run : BatchRun) : Nat := max 1 run.engine.config.batch.maxBatchSize.toNat

/-- Lists of a size that together are the list; only the last of them may be shorter. -/
def chunks {Item : Type} (size : Nat) (items : List Item) : List (List Item) :=
  match items with
  | [] => []
  | first :: rest =>
      (first :: rest.take (size - 1)) :: chunks size (rest.drop (size - 1))
termination_by items.length
decreasing_by simp only [List.length_drop, List.length_cons]; omega

/-- Runs one chunk after another until a failure stops the run. -/
def runChunks (run : BatchRun) (moment : Moment) :
    List (List BatchItem) → Except JobError Progress
  | [] => .ok ⟨[], false, moment⟩
  | chunk :: rest => do
      let (summary, moment) ← run.engine.translateBatch
        ⟨chunk, run.target, run.continueOnError, run.maxConcurrent⟩ moment
      if run.stopsOnFailure && 0 < summary.failed then return ⟨summary.results, true, moment⟩
      else
        let others ← run.runChunks moment rest
        return { others with results := summary.results ++ others.results }

def runItems (run : BatchRun) (moment : Moment) (items : List BatchItem) : Except JobError Progress :=
  run.runChunks moment (chunks run.chunkSize items)

/-- Runs entries after the items that wait to be run. -/
def runEntries (run : BatchRun) (moment : Moment) (waiting : List BatchItem) :
    List Loaded → Except JobError Progress
  | [] => run.runItems moment waiting
  | .ok item :: rest => run.runEntries moment (waiting ++ [item]) rest
  | .error failed :: rest => do
      let progress ← run.runItems moment waiting
      if progress.stopped then return progress
      let results := progress.results ++ [failed]
      if run.stopsOnFailure then return { progress with results, stopped := true }
      else
        let others ← run.runEntries progress.moment [] rest
        return { others with results := results ++ others.results }

def summarize (run : BatchRun) (entries : List Loaded) : Except JobError (BatchSummary × Nat) := do
  let progress ← run.runEntries ⟨0, run.engine.initialState ()⟩ [] entries
  return (.ofResults run.engine.rounded progress.results, progress.moment.now)

end BatchRun

namespace BatchCommand

variable {m : Type → Type} [Monad m] [Host m]

/-- The paths on the lines of a text; blank lines and comments are none. -/
def pathsOfText (text : String) : List String :=
  ((Text.splitWhen (· == '\n') text.toList).map fun line => String.ofList (Text.trimBlanks line)).filter
    fun line => line != "" && !Text.startsWith line "#"

def isRuleFile (path : String) : Bool :=
  ((Path.extension? path).bind Format.ofExtension?).isSome

def filesOf (path : String) : Task m (List String) := do
  if Path.isStandardInput path then
    return pathsOfText (← Task.onFile (some "Failed to read paths from stdin") Host.readInput)
  else if ← ExceptT.lift (Host.isFolder path) then
    let files ← ExceptT.lift (Host.filesUnder path)
    return (files.filter isRuleFile).mergeSort Path.comesBefore
  else return [path]

def filesOfAll : List String → Task m (List String)
  | [] => return []
  | path :: rest => do
      let files ← filesOf path
      return files ++ (← filesOfAll rest)

/-- Loads each file, whatever becomes of the others. -/
def loadAll (command : BatchCommand) : List String → m (List Loaded)
  | [] => return []
  | path :: rest => do
      let outcome ← (RuleFile.load command.source path : Task m DetectionText).run
      return .ofFile path command.target outcome :: (← loadAll command rest)

/-- Writes what was translated, and gives the path for each result that was. -/
def writeOutputs (folder : String) (target : Format) : List BatchResult → Task m (List (Option String))
  | [] => return []
  | result :: rest => do
      let text := if result.job.isSuccess then result.job.translation else none
      let path ← match text with
        | none => pure none
        | some text => do
            let path := RuleFile.translatedPath folder result.id target
            Task.onFile (some ("Failed to write translated rule: " ++ path)) (Host.writeFile path text)
            pure (some path)
      return path :: (← writeOutputs folder target rest)

def lineJson (result : BatchResult) (output : Option String) : Json := Json.ofMembers
  [some ("path", .str result.id), some ("status", .str result.job.status.name),
    some ("confidenceScore", .ofOption .ofRat result.job.confidence),
    result.job.error.map fun error => ("error", error.toJson),
    output.map fun path => ("output", .str path)]

def summaryJson (summary : BatchSummary) (total : Nat) : Json := .object
  [("summary", .object
    [("total", .ofNat total), ("processed", .ofNat summary.processed),
      ("successful", .ofNat summary.successful), ("failed", .ofNat summary.failed),
      ("cancelled", .ofNat summary.cancelled), ("notRun", .ofNat (total - summary.total)),
      ("averageConfidence", .ofRat summary.averageConfidence),
      ("errorSummary", .object (summary.errors.map fun (code, count) => (code, .ofNat count)))])]

def jsonLines (summary : BatchSummary) (written : List (Option String)) (total : Nat) : List String :=
  let outputs := if written.isEmpty then summary.results.map fun _ => none else written
  (List.zipWith lineJson summary.results outputs ++ [summaryJson summary total]).map Json.text

def resultLine (terminal : Terminal) (result : BatchResult) : String :=
  let job := result.job
  if job.isSuccess then
    "  " ++ terminal.paint [.green] "✓" ++ " " ++ result.id ++ " (" ++
      Number.fixed 1 (job.confidence.getD 0) ++ ")"
  else match job.error with
    | some error =>
        "  " ++ terminal.paint [.red] "✗" ++ " " ++ result.id ++ " " ++
          terminal.paint [.red] error.code ++ " " ++ error.message
    | none => "  " ++ terminal.paint [.dimmed] "○" ++ " " ++ result.id ++ " " ++ job.status.name

def summaryLines (terminal : Terminal) (summary : BatchSummary) (total duration : Nat) : List String :=
  ["", terminal.paint [.bold] "Batch Summary", String.ofList (List.replicate 40 '─'),
    "  Rules:      " ++ toString total,
    "  Successful: " ++ terminal.paint [.green] (toString summary.successful),
    "  Failed:     " ++ terminal.paint [.red] (toString summary.failed)]
  ++ (if summary.cancelled = 0 then [] else ["  Cancelled:  " ++ toString summary.cancelled])
  ++ (if total ≤ summary.total then [] else ["  Not run:    " ++ toString (total - summary.total)])
  ++ ["  Confidence: " ++ Number.fixed 1 summary.averageConfidence ++ " (average)"]
  ++ summary.errors.map (fun (code, count) =>
      "  " ++ terminal.paint [.dimmed] code ++ ": " ++ toString count)
  ++ ["  Duration:   " ++ durationText duration]

def tableRow (result : BatchResult) : List String :=
  [result.id, result.job.status.name, (result.job.confidence.map (Number.fixed 1)).getD "-",
    result.job.errorCode?.getD "-"]

def tableText (summary : BatchSummary) : String :=
  Table.text ["Rule", "Status", "Confidence", "Error"] (summary.results.map tableRow) ++
    "\n\nTotal: " ++ toString summary.total ++ " rules, " ++ toString summary.successful ++
    " successful, " ++ toString summary.failed ++ " failed"

def present (command : BatchCommand) (terminal : Terminal) (summary : BatchSummary)
    (written : List (Option String)) (total duration : Nat) : Task m Unit := do
  if command.asLines then (jsonLines summary written total).forM Task.printLine
  else match terminal.format with
    | .json | .yaml => terminal.document summary.toJson
    | .table => Task.printLine (tableText summary)
    | .plain => do
        (summary.results.map (resultLine terminal)).forM Task.printLine
        (summaryLines terminal summary total duration).forM Task.printLine

def run (command : BatchCommand) (terminal : Terminal) (config : Config) (showsProgress : Bool) :
    Task m ExitCode := do
  let showsProgress := showsProgress && !command.hidesProgress
  let files ← filesOfAll command.paths
  let entries ← ExceptT.lift (command.loadAll files)
  let total := entries.length
  if total = 0 then
    if showsProgress then Task.reportLine "No rules to process."
    return .noItems
  if showsProgress then
    Task.reportLine ("Translating " ++ toString total ++ " rules to " ++
      command.target.displayName ++ "...")
  let engine ← ExceptT.mk (pure (engineFor config))
  let run : BatchRun := ⟨engine, command.target, command.continueOnError, command.maxConcurrent⟩
  let (summary, duration) ← ExceptT.mk (pure ((run.summarize entries).mapError fun error =>
    .refused ("Batch request rejected: " ++ error.message)))
  if summary.total < total && showsProgress then
    terminal.warn ("Stopped after a failed rule; " ++ toString (total - summary.total) ++ " not run")
  let written ← match command.outFolder with
    | none => pure []
    | some folder => do
        Task.onFile (some ("Failed to create output directory: " ++ folder)) (Host.makeFolder folder)
        writeOutputs folder command.target summary.results
  command.present terminal summary written total duration
  return .ofBatch summary

end BatchCommand

end DetectionRules.CommandLine
