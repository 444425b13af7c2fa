import DetectionRules.Text.Basic

/-!
Reading arguments. A command has options, takes words, and may have commands of
its own, of which one must follow. An option is a flag or takes a value, stands
with its name behind two hyphens or with its letter behind one, and may be given
once; letters of flags may share a hyphen. Options that stand for a variable of
the environment take their value from there when they are not given.
-/

namespace DetectionRules.CommandLine

structure OptionSpec where
  name : String
  letter : Option Char := none
  /-- Which values there are; a flag takes none. -/
  accepts : Option (String → Bool) := none
  isRequired : Bool := false
  isRepeatable : Bool := false
  /-- The variable of the environment that stands for the option. -/
  variableName : Option String := none

structure WordSpec where
  name : String
  accepts : String → Bool
  isRequired : Bool
  /-- Whether any number of words may follow in its place. -/
  isList : Bool := false

inductive Grammar where
  | command (options : List OptionSpec) (words : List WordSpec) (conflicts : List (String × String))
      (commands : List (String × Grammar))

namespace Grammar

def options : Grammar → List OptionSpec
  | command options _ _ _ => options

def words : Grammar → List WordSpec
  | command _ words _ _ => words

def conflicts : Grammar → List (String × String)
  | command _ _ conflicts _ => conflicts

def commands : Grammar → List (String × Grammar)
  | command _ _ _ commands => commands

end Grammar

inductive Stop where
  | help (path : List String)
  | version (path : List String)
  | unknown (argument : String)
  | missingValue (option : String)
  | unneededValue (option : String)
  | invalidValue (name value : String)
  | repeated (option : String)
  | missing (names : List String)
  | conflict (first second : String)
deriving DecidableEq

/-- What was given to one command; flags have an empty value. -/
structure Given where
  options : List (String × String) := []
  words : List String := []
  defaults : List (String × String) := []

/-- A command by its names, with what was given to each command on the way to it, the last
first. -/
structure Arguments where
  path : List String
  levels : List Given

namespace Arguments

/-- The value of an option: the last that was given, or else the one from the environment. -/
def value? (arguments : Arguments) (name : String) : Option String :=
  (arguments.levels.findSome? fun level => level.options.lookup name).or
    (arguments.levels.findSome? fun level => level.defaults.lookup name)

def isGiven (arguments : Arguments) (name : String) : Bool := (arguments.value? name).isSome

def isSet (arguments : Arguments) (name : String) : Bool :=
  (arguments.value? name).any (· != "false")

def words (arguments : Arguments) : List String := (arguments.levels.head?.map (·.words)).getD []

end Arguments

namespace Grammar

def give (spec : OptionSpec) (value : String) (given : Given) : Except Stop Given :=
  if !spec.isRepeatable && (given.options.lookup spec.name).isSome then
    .error (.repeated spec.name)
  else .ok { given with options := given.options ++ [(spec.name, value)] }

def giveValue (spec : OptionSpec) (accepts : String → Bool) (value : String) (given : Given) :
    Except Stop Given :=
  if accepts value then give spec value given else .error (.invalidValue spec.name value)

def isOption (argument : String) : Bool := Text.startsWith argument "-" && argument != "-"

/-- The value of an option: one that is attached to it, or else the next argument. -/
def takeValue (spec : OptionSpec) (accepts : String → Bool) (attached : Option String)
    (given : Given) (rest : List String) : Except Stop (Given × List String) :=
  match attached, rest with
  | some value, rest => do return (← giveValue spec accepts value given, rest)
  | none, value :: rest =>
      if isOption value then .error (.missingValue spec.name)
      else do return (← giveValue spec accepts value given, rest)
  | none, [] => .error (.missingValue spec.name)

def splitEquals (text : String) : String × Option String :=
  let name := text.toList.takeWhile (· != '=')
  match text.toList.drop name.length with
  | [] => (text, none)
  | _ :: value => (String.ofList name, some (String.ofList value))

/-- An option by its name, without the hyphens. -/
def takeLong (grammar : Grammar) (path : List String) (text : String) (given : Given)
    (rest : List String) : Except Stop (Given × List String) :=
  let (name, attached) := splitEquals text
  let stop (stop : List String → Stop) : Except Stop (Given × List String) :=
    .error (if attached.isSome then .unneededValue name else stop path)
  if name == "help" then stop .help
  else if name == "version" then stop .version
  else match grammar.options.find? (·.name == name) with
    | none => .error (.unknown ("--" ++ text))
    | some spec =>
        match spec.accepts, attached with
        | none, none => do return (← give spec "" given, rest)
        | none, some _ => .error (.unneededValue name)
        | some accepts, attached => takeValue spec accepts attached given rest

/-- Options by their letters, without the hyphen. -/
def takeShort (grammar : Grammar) (path : List String) (given : Given) (rest : List String) :
    List Char → Except Stop (Given × List String)
  | [] => .ok (given, rest)
  | letter :: more =>
      match grammar.options.find? (·.letter == some letter) with
      | some spec =>
          match spec.accepts with
          | none => do takeShort grammar path (← give spec "" given) rest more
          | some accepts =>
              let attached := match more with
                | [] => none
                | '=' :: value => some (String.ofList value)
                | value => some (String.ofList value)
              takeValue spec accepts attached given rest
      | none =>
          if letter = 'h' then .error (.help path)
          else if letter = 'V' then .error (.version path)
          else .error (.unknown ("-" ++ letter.toString))

def nextWord? : List WordSpec → Nat → Option WordSpec
  | [], _ => none
  | spec :: _, 0 => some spec
  | spec :: rest, count + 1 => if spec.isList then some spec else nextWord? rest count

def takeWord (grammar : Grammar) (word : String) (given : Given) : Except Stop Given :=
  match nextWord? grammar.words given.words.length with
  | none => .error (.unknown word)
  | some spec =>
      if spec.accepts word then .ok { given with words := given.words ++ [word] }
      else .error (.invalidValue spec.name word)

def takeDefaults (environment : List (String × String)) (given : Given) :
    List OptionSpec → Except Stop Given
  | [] => .ok given
  | spec :: rest =>
      match spec.variableName.bind (environment.lookup ·) with
      | none => takeDefaults environment given rest
      | some value =>
          let accepts := spec.accepts.getD (["true", "false"].contains ·)
          if (given.options.lookup spec.name).isSome then takeDefaults environment given rest
          else if accepts value then
            takeDefaults environment
              { given with defaults := given.defaults ++ [(spec.name, value)] } rest
          else .error (.invalidValue spec.name value)

/-- Whether everything is there that a command needs, and nothing that goes against something
else. -/
def check (grammar : Grammar) (given : Given) : Except Stop Unit := do
  let isGiven (name : String) : Bool := (given.options.lookup name).isSome
  match grammar.conflicts.find? fun (first, second) => isGiven first && isGiven second with
  | some (first, second) => throw (.conflict first second)
  | none => pure ()
  let options := (grammar.options.filter fun spec => spec.isRequired && !isGiven spec.name).map (·.name)
  let words := ((grammar.words.drop given.words.length).filter (·.isRequired)).map (·.name)
  if !(options ++ words).isEmpty then throw (.missing (options ++ words))

def helpOn (grammar : Grammar) (path : List String) : List String → Stop
  | [] => .help path
  | name :: rest =>
      match grammar.commands.lookup name with
      | some inner => helpOn inner (path ++ [name]) rest
      | none => if name == "help" && !grammar.commands.isEmpty && rest.isEmpty then .help path
          else .unknown name

/-- Takes an argument that names no command, perhaps with the value behind it. -/
def takeArgument (grammar : Grammar) (path : List String) (given : Given) (wordsOnly : Bool)
    (argument : String) (rest : List String) : Except Stop (Given × List String) :=
  if wordsOnly || !isOption argument then do return (← grammar.takeWord argument given, rest)
  else if Text.startsWith argument "--" then
    grammar.takeLong path (String.ofList (argument.toList.drop 2)) given rest
  else grammar.takeShort path given rest (argument.toList.drop 1)

def inner? (grammar : Grammar) (wordsOnly : Bool) (argument : String) : Option Grammar :=
  if wordsOnly then none else grammar.commands.lookup argument

/-- Reads what follows the names of a path, given what came before the last name and after it.
Behind two hyphens there are only words. -/
def readFrom (environment : List (String × String)) (grammar : Grammar) (path : List String)
    (outer : List Given) (given : Given) (wordsOnly : Bool) :
    List String → Except Stop Arguments
  | [] => do
      if !grammar.commands.isEmpty then throw (.missing ["command"])
      grammar.check given
      return ⟨path, (← takeDefaults environment given grammar.options) :: outer⟩
  | argument :: rest =>
      if !wordsOnly && argument == "--" then
        readFrom environment grammar path outer given true rest
      else if !wordsOnly && argument == "help" && !grammar.commands.isEmpty then
        .error (helpOn grammar path rest)
      else match inner? grammar wordsOnly argument with
        | some inner => do
            let given ← takeDefaults environment given grammar.options
            readFrom environment inner (path ++ [argument]) (given :: outer) {} false rest
        | none => do
            let (given, after) ← grammar.takeArgument path given wordsOnly argument rest
            if after.length ≤ rest.length then
              readFrom environment grammar path outer given wordsOnly after
            else throw (.unknown argument)
termination_by arguments => arguments.length

def read (grammar : Grammar) (environment : List (String × String)) (arguments : List String) :
    Except Stop Arguments :=
  grammar.readFrom environment [] [] {} false arguments

end Grammar

end DetectionRules.CommandLine
