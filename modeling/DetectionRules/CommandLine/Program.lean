import DetectionRules.CommandLine.Address
import DetectionRules.CommandLine.Batch
import DetectionRules.CommandLine.ExitCode
import DetectionRules.CommandLine.Listing
import DetectionRules.CommandLine.Rules
import DetectionRules.CommandLine.Terminal
import DetectionRules.Settings.Basic
import DetectionRules.Settings.Place

/-!
Commands that show and change settings.

The program as a whole: reads arguments, loads settings, and runs a command.
What a run prints and the code that it ends with depend only on the arguments,
the environment and the answers of the system.
-/

namespace DetectionRules.CommandLine.SettingsCommand

variable {m : Type → Type} [Monad m] [Host m]

def orRefuse {Result : Type} (outcome : Except String Result) : Task m Result :=
  ExceptT.mk (pure (outcome.mapError .refused))

def showAll (terminal : Terminal) (settings : Settings) : Task m ExitCode := do
  if terminal.format.isMachine then terminal.document settings.toJson
  else Task.printLine (← orRefuse settings.toToml)
  return .success

def writeDefaults (terminal : Terminal) (environment : Environment) : Task m ExitCode := do
  let path ← Settings.save {} environment
  terminal.success ("Configuration initialized at: " ++ path)
  return .success

def change (terminal : Terminal) (environment : Environment) (settings : Settings)
    (key value : String) : Task m ExitCode := do
  match SettingKey.ofName? key with
  | none => throw (.refused ("Unknown configuration key '" ++ key ++ "'"))
  | some setting =>
      let _ ← (← orRefuse (setting.set settings value)).save environment
      terminal.success ("Set " ++ key ++ " = " ++ value)
      return .success

def showOne (settings : Settings) (key : String) : Task m ExitCode := do
  match (SettingKey.ofName? key).bind (SettingKey.text? settings) with
  | none => throw (.refused ("Configuration key '" ++ key ++ "' not found"))
  | some text =>
      Task.printLine text
      return .success

end DetectionRules.CommandLine.SettingsCommand

namespace DetectionRules.CommandLine

namespace Stop

def message : Stop → String
  | help _ | version _ => ""
  | unknown argument => "unexpected argument '" ++ argument ++ "' found"
  | missingValue option => "a value is required for '--" ++ option ++ "' but none was supplied"
  | unneededValue option => "unexpected value for '--" ++ option ++ "' found; no more were expected"
  | invalidValue name value => "invalid value '" ++ value ++ "' for '" ++ name ++ "'"
  | repeated option => "the argument '--" ++ option ++ "' cannot be used multiple times"
  | missing names =>
      "the following required arguments were not provided: " ++ String.intercalate ", " names
  | conflict first second =>
      "the argument '--" ++ first ++ "' cannot be used with '--" ++ second ++ "'"

end Stop

structure Surroundings where
  environment : Environment
  build : Build := {}

namespace Program

variable {m : Type → Type} [Monad m] [Host m]

def commandsUnder (grammar : Grammar) : List String → List String
  | [] => grammar.commands.map (·.1)
  | name :: rest =>
      match grammar.commands.lookup name with
      | some inner => commandsUnder inner rest
      | none => []

def helpText (path : List String) : String :=
  let usage := "Usage: " ++ String.intercalate " " (Listing.programName :: path) ++ " [OPTIONS]\n"
  usage ++ String.join ((commandsUnder Command.grammar path).map fun name => "  " ++ name ++ "\n")

def stop : Stop → m ExitCode
  | .help path => do
      Host.print (helpText path)
      return .success
  | .version path => do
      Host.print (String.intercalate "-" (Listing.programName :: path) ++ " " ++
        Listing.programVersion ++ "\n")
      return .success
  | reason => do
      Host.report ("error: " ++ reason.message ++ "\n")
      return .invalidArguments

/-- Whether colours are asked for even where nobody can be seen to look. -/
def forcesColor (environment : Environment) : Bool :=
  (environment.lookup "CLICOLOR_FORCE").any (· != "0")

def terminalFor (surroundings : Surroundings) (invocation : Invocation) (settings : Settings) :
    Terminal where
  format := invocation.output.getD ((OutputFormat.ofName? settings.output.format).getD .plain)
  isColoured := forcesColor surroundings.environment && !invocation.hidesColor &&
    !invocation.isMachine && settings.output.color

/-- Checks where to listen. The program has no network of its own. -/
def serve (bind : String) (config : Config) : Task m ExitCode := do
  if !Address.isAddress bind then
    throw (.refused ("Invalid listen address: " ++ bind ++ ": invalid socket address syntax"))
  let _ ← (ExceptT.mk (pure (engineFor config)) : Task m (Engine Unit))
  throw (.refused ("Server on " ++ bind ++ " failed: no network"))

def run (surroundings : Surroundings) (invocation : Invocation) (settings : Settings) :
    Task m ExitCode :=
  let terminal := terminalFor surroundings invocation settings
  let environment := surroundings.environment
  match invocation.command with
  | .translate command => command.run terminal settings.engine
  | .batch command =>
      command.run terminal settings.engine (!invocation.isMachine && settings.output.progress)
  | .validate command => command.run terminal settings.engine
  | .formats => Listing.formats terminal
  | .serve bind => serve (bind.getD settings.bind) settings.engine
  | .showSettings => SettingsCommand.showAll terminal settings
  | .writeDefaults => SettingsCommand.writeDefaults terminal environment
  | .changeSetting key value => SettingsCommand.change terminal environment settings key value
  | .showSetting key => SettingsCommand.showOne settings key
  | .completions shell folder => shell.complete folder
  | .version => Listing.version surroundings.build terminal
  | .exitCodes => Listing.exitCodes terminal

def giveUp (terminal : Terminal) (failure : Failure) : m ExitCode := do
  Host.report (terminal.paint [.bold, .red] "Error:" ++ " " ++ failure.message ++ "\n")
  return if failure.isFile then .fileError else .generalError

/-- A run of the program. -/
def start (surroundings : Surroundings) (arguments : List String) : m ExitCode := do
  let environment := surroundings.environment
  match Invocation.read environment arguments with
  | .error reason => stop reason
  | .ok invocation =>
      match ← (Settings.load environment invocation.settingsPath : Task m Settings).run with
      | .error failure =>
          Host.report ("Configuration error: " ++ failure.message ++ "\n")
          return .configError
      | .ok settings =>
          match ← (run surroundings invocation settings : Task m ExitCode).run with
          | .ok code => return code
          | .error failure => giveUp (terminalFor surroundings invocation settings) failure

end Program

end DetectionRules.CommandLine
