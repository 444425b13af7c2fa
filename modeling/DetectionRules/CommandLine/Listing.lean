import DetectionRules.CommandLine.Command
import DetectionRules.CommandLine.ExitCode
import DetectionRules.CommandLine.Terminal

/-!
Commands that only show what the program knows: the dialects, the exit codes and
the version.

Scripts that let shells complete the names of commands.
-/

namespace DetectionRules.CommandLine

/-- Puts blanks behind a text, or before it, up to a width. -/
def padEnd (width : Nat) (text : String) : String :=
  text ++ String.ofList (List.replicate (width - text.length) ' ')

def padStart (width : Nat) (text : String) : String :=
  String.ofList (List.replicate (width - text.length) ' ') ++ text

namespace Listing

variable {m : Type → Type} [Monad m] [Host m]

def threshold (format : Format) : Rat := Binary64.round (mkRat (format.confidencePercent : Nat) 100)

def formatJson (format : Format) : Json := .object
  [("name", .str format.name), ("displayName", .str format.displayName),
    ("extension", .str format.fileExtension), ("supportsCorrelation", .bool format.supportsCorrelation),
    ("confidenceThreshold", .ofRat (threshold format))]

def formatRow (format : Format) : List String :=
  [format.name, format.displayName, format.fileExtension,
    if format.supportsCorrelation then "true" else "false", Number.text (threshold format)]

def formatLine (terminal : Terminal) (format : Format) : String :=
  let correlation :=
    if format.supportsCorrelation then terminal.paint [.green] "correlation"
    else terminal.paint [.dimmed] "no correlation"
  terminal.paint [.bold] (padEnd 12 format.name) ++ " " ++ padEnd 28 format.displayName ++ " ." ++
    padEnd 6 format.fileExtension ++ " " ++ correlation

def formats (terminal : Terminal) : Task m ExitCode := do
  match terminal.format with
  | .json | .yaml => terminal.document (.array (Format.all.map formatJson))
  | .table =>
      Task.printLine (Table.text ["Name", "Dialect", "Extension", "Correlation", "Threshold"]
        (Format.all.map formatRow))
  | .plain => Format.all.forM fun format => Task.printLine (formatLine terminal format)
  return .success

def exitCodeJson (code : ExitCode) : Json := .object
  [("code", .ofNat code.number), ("name", .str code.name), ("description", .str code.description),
    ("category", .str code.category)]

def exitCodeLine (code : ExitCode) : String :=
  "  " ++ padStart 3 (toString code.number) ++ "  " ++ padEnd 26 code.name ++ "  " ++
    code.description

/-- The lines of exit codes, with a heading where a category begins and a gap before it unless it
is the first. -/
def exitCodeLines (category : String) : List ExitCode → List String
  | [] => []
  | code :: rest =>
      let heading :=
        if code.category == category then []
        else (if category == "" then [] else [""]) ++ [code.category ++ ":"]
      heading ++ exitCodeLine code :: exitCodeLines code.category rest

def exitCodes (terminal : Terminal) : Task m ExitCode := do
  if terminal.format.isMachine then terminal.document (.array (ExitCode.all.map exitCodeJson))
  else
    ["Exit Codes for rulebridge", "=========================", ""].forM Task.printLine
    (exitCodeLines "" ExitCode.all).forM Task.printLine
  return .success

end Listing

structure Build where
  commit : String := "unknown"
  date : String := "unknown"
  target : String := "unknown"

namespace Listing

variable {m : Type → Type} [Monad m] [Host m]

def programName : String := "rulebridge"

def programVersion : String := "0.1.0"

def version (build : Build) (terminal : Terminal) : Task m ExitCode := do
  if terminal.format.isMachine then
    terminal.document <| .object
      [("name", .str programName), ("version", .str programVersion),
        ("engine_version", .str programVersion), ("mapping_table_version", .str Catalog.version),
        ("git_commit", .str build.commit), ("build_date", .str build.date),
        ("target", .str build.target)]
  else
    [programName ++ " " ++ programVersion, "Mapping tables: " ++ Catalog.version,
      "Git commit: " ++ build.commit, "Build date: " ++ build.date,
      "Target: " ++ build.target].forM Task.printLine
  return .success

end Listing

end DetectionRules.CommandLine

namespace DetectionRules.CommandLine.Shell

/-- The name under which a shell looks for a script. -/
def scriptName : Shell → String
  | bash => "rulebridge.bash"
  | zsh => "_rulebridge"
  | fish => "rulebridge.fish"
  | elvish => "rulebridge.elv"
  | powershell => "_rulebridge.ps1"

def commandNames : String :=
  String.intercalate " " (Command.grammar.commands.map (·.1) ++ ["help"])

def script : Shell → String
  | bash => "complete -W '" ++ commandNames ++ "' rulebridge\n"
  | zsh => "#compdef rulebridge\n_arguments '1:command:(" ++ commandNames ++ ")'\n"
  | fish => "complete -c rulebridge -n __fish_use_subcommand -f -a '" ++ commandNames ++ "'\n"
  | elvish =>
      "set edit:completion:arg-completer[rulebridge] = \x7b|@words| put " ++ commandNames ++ " \x7d\n"
  | powershell =>
      "Register-ArgumentCompleter -Native -CommandName rulebridge -ScriptBlock \x7b '" ++
        commandNames ++ "' -split ' ' \x7d\n"

variable {m : Type → Type} [Monad m] [Host m]

def complete (shell : Shell) (folder : Option String) : Task m ExitCode := do
  match folder with
  | none => Task.print shell.script
  | some folder =>
      let path := Path.join folder shell.scriptName
      Task.onFile none (Host.makeFolder folder)
      Task.onFile none (Host.writeFile path shell.script)
      Task.reportLine ("Generated: " ++ path)
  return .success

end DetectionRules.CommandLine.Shell
