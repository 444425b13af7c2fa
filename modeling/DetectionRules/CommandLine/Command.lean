import DetectionRules.CommandLine.Arguments
import DetectionRules.CommandLine.Terminal
import DetectionRules.Format
import DetectionRules.Number.Literal

/-!
The commands of the program, and how they are written as arguments.
-/

namespace DetectionRules.CommandLine

inductive Shell where
  | bash
  | elvish
  | fish
  | powershell
  | zsh
deriving DecidableEq

namespace Shell

def all : List Shell := [bash, elvish, fish, powershell, zsh]

def name : Shell → String
  | bash => "bash"
  | elvish => "elvish"
  | fish => "fish"
  | powershell => "powershell"
  | zsh => "zsh"

def ofName? (name : String) : Option Shell := all.find? (·.name == name)

end Shell

structure TranslateCommand where
  input : String
  target : Format
  source : Option Format
  validates : Bool
  out : Option String

structure BatchCommand where
  paths : List String
  target : Format
  source : Option Format
  continueOnError : Option Bool
  maxConcurrent : Option UInt64
  /-- The folder to write translated rules into. -/
  outFolder : Option String
  asLines : Bool
  hidesProgress : Bool

structure ValidateCommand where
  source : String
  target : String
  sourceFormat : Option Format
  targetFormat : Option Format

inductive Command where
  | translate (command : TranslateCommand)
  | batch (command : BatchCommand)
  | validate (command : ValidateCommand)
  | formats
  | serve (bind : Option String)
  | showSettings
  | writeDefaults
  | changeSetting (key value : String)
  | showSetting (key : String)
  | completions (shell : Shell) (folder : Option String)
  | version
  | exitCodes

structure Invocation where
  output : Option OutputFormat
  settingsPath : Option String
  hidesColor : Bool
  isMachine : Bool
  command : Command

namespace Command

def isPath (text : String) : Bool := text != ""

def isFormat (text : String) : Bool := (Format.ofName? text).isSome

def commonOptions : List OptionSpec :=
  [{ name := "output", letter := some 'o', accepts := some fun text => (OutputFormat.ofName? text).isSome
     variableName := some "RULEBRIDGE_OUTPUT" },
    { name := "verbose", letter := some 'v', isRepeatable := true },
    { name := "quiet", letter := some 'q' },
    { name := "config", letter := some 'c', accepts := some isPath
      variableName := some "RULEBRIDGE_CONFIG" },
    { name := "no-color", variableName := some "NO_COLOR" },
    { name := "machine", variableName := some "RULEBRIDGE_MACHINE" }]

def formatOption (name : String) (letter : Option Char) (isRequired : Bool) : OptionSpec :=
  { name, letter, accepts := some isFormat, isRequired }

def leaf (options : List OptionSpec) (words : List WordSpec) (conflicts : List (String × String)) :
    Grammar :=
  .command (options ++ commonOptions) words conflicts []

def plain : Grammar := leaf [] [] []

def anyText (_ : String) : Bool := true

def grammar : Grammar := .command commonOptions [] []
  [("translate", leaf
      [formatOption "to" (some 't') true, formatOption "from" (some 'f') false,
        { name := "no-validate" }, { name := "out", accepts := some isPath }]
      [⟨"input", isPath, false, false⟩] []),
    ("batch", leaf
      [formatOption "to" (some 't') true, formatOption "from" (some 'f') false,
        { name := "continue-on-error" }, { name := "fail-fast" },
        { name := "parallel", letter := some 'j'
          accepts := some fun text => (Number.uint64 text).toBool },
        { name := "out-dir", accepts := some isPath }, { name := "jsonl" },
        { name := "no-progress" }]
      [⟨"paths", isPath, true, true⟩] [("continue-on-error", "fail-fast")]),
    ("validate", leaf
      [{ name := "source", letter := some 's', accepts := some isPath, isRequired := true },
        { name := "target", letter := some 't', accepts := some isPath, isRequired := true },
        formatOption "source-format" none false, formatOption "target-format" none false] [] []),
    ("formats", plain),
    ("serve", leaf
      [{ name := "bind", letter := some 'b', accepts := some anyText
         variableName := some "RULEBRIDGE_BIND" }] [] []),
    ("config", .command commonOptions [] []
      [("show", plain), ("init", plain),
        ("set", leaf [] [⟨"key", anyText, true, false⟩, ⟨"value", anyText, true, false⟩] []),
        ("get", leaf [] [⟨"key", anyText, true, false⟩] [])]),
    ("completions", leaf [{ name := "dir", accepts := some isPath }]
      [⟨"shell", fun text => (Shell.ofName? text).isSome, true, false⟩] []),
    ("version", plain), ("exit-codes", plain)]

def format? (arguments : Arguments) (name : String) : Option Format :=
  (arguments.value? name).bind Format.ofName?

def ofArguments? (arguments : Arguments) : Option Command :=
  match arguments.path, arguments.words with
  | ["translate"], words => do
      return .translate
        { input := words.head?.getD "-"
          target := ← format? arguments "to"
          source := format? arguments "from"
          validates := !arguments.isSet "no-validate"
          out := arguments.value? "out" }
  | ["batch"], paths => do
      return .batch
        { paths
          target := ← format? arguments "to"
          source := format? arguments "from"
          continueOnError :=
            if arguments.isSet "continue-on-error" then some true
            else if arguments.isSet "fail-fast" then some false
            else none
          maxConcurrent := (arguments.value? "parallel").bind fun text => (Number.uint64 text).toOption
          outFolder := arguments.value? "out-dir"
          asLines := arguments.isSet "jsonl"
          hidesProgress := arguments.isSet "no-progress" }
  | ["validate"], _ => do
      return .validate
        { source := ← arguments.value? "source"
          target := ← arguments.value? "target"
          sourceFormat := format? arguments "source-format"
          targetFormat := format? arguments "target-format" }
  | ["formats"], _ => some .formats
  | ["serve"], _ => some (.serve (arguments.value? "bind"))
  | ["config", "show"], _ => some .showSettings
  | ["config", "init"], _ => some .writeDefaults
  | ["config", "set"], [key, value] => some (.changeSetting key value)
  | ["config", "get"], [key] => some (.showSetting key)
  | ["completions"], [shell] => do
      return .completions (← Shell.ofName? shell) (arguments.value? "dir")
  | ["version"], _ => some .version
  | ["exit-codes"], _ => some .exitCodes
  | _, _ => none

end Command

def Invocation.read (environment : List (String × String)) (arguments : List String) :
    Except Stop Invocation := do
  let arguments ← Command.grammar.read environment arguments
  match Command.ofArguments? arguments with
  | none => throw (.missing ["command"])
  | some command =>
      return {
        output := (arguments.value? "output").bind OutputFormat.ofName?
        settingsPath := arguments.value? "config"
        hidesColor := arguments.isSet "no-color"
        isMachine := arguments.isSet "machine"
        command }

end DetectionRules.CommandLine
