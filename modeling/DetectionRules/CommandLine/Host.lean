import DetectionRules.Text.Basic

/-!
Paths as text. A path is a list of names between slashes; names that are empty
or a single point lead nowhere else and do not count.

What commands ask of the system that they run on: files and folders, the
standard input, and two places to write to. Any monad that can answer will do.
-/

namespace DetectionRules.Path

def isAbsolute (path : String) : Bool := Text.startsWith path "/"

/-- The names between the slashes. -/
def pieces (path : String) : List String :=
  (Text.splitWhen (· == '/') path.toList).map String.ofList

def parts (path : String) : List String :=
  (pieces path).filter fun part => part != "" && part != "."

/-- Whether a path stands for the standard input. A point in front names a file of that name. -/
def isStandardInput (path : String) : Bool :=
  (pieces path).head? == some "-" && parts path == ["-"]

/-- The last name, unless it leads to the folder above. -/
def fileName? (path : String) : Option String := (parts path).getLast?.filter (· != "..")

/-- A file name before its last point, and what comes after the point. A point that comes first
belongs to the name. -/
def splitName (name : String) : String × Option String :=
  let reversed := name.toList.reverse
  let ending := reversed.takeWhile (· != '.')
  match reversed.drop (ending.length + 1) with
  | [] => (name, none)
  | stem => (String.ofList stem.reverse, some (String.ofList ending.reverse))

def stem? (path : String) : Option String := (fileName? path).map fun name => (splitName name).1

def extension? (path : String) : Option String :=
  (fileName? path).bind fun name => (splitName name).2

def join (folder name : String) : String :=
  if folder == "" || Text.endsWith folder "/" then folder ++ name else folder ++ "/" ++ name

/-- The order of paths that begin alike, name by name. -/
def comesBefore (first second : String) : Bool := go (parts first) (parts second)
where
  go : List String → List String → Bool
    | [], _ => true
    | _ :: _, [] => false
    | name :: names, other :: others => name < other || (name == other && go names others)

end DetectionRules.Path

namespace DetectionRules.CommandLine

inductive FileFault where
  | notFound
  | alreadyThere
  | notFolder
  | isFolder
  | nameTooLong
  | notText
  | zeroInPath
  | other (reason : String)
deriving DecidableEq

namespace FileFault

def message : FileFault → String
  | notFound => "No such file or directory (os error 2)"
  | alreadyThere => "File exists (os error 17)"
  | notFolder => "Not a directory (os error 20)"
  | isFolder => "Is a directory (os error 21)"
  | nameTooLong => "File name too long (os error 36)"
  | notText => "stream did not contain valid UTF-8"
  | zeroInPath => "file name contained an unexpected NUL byte"
  | other reason => reason

end FileFault

class Host (m : Type → Type) where
  readFile : String → m (Except FileFault String)
  /-- Writes a whole file, which need not be there yet. -/
  writeFile : String → String → m (Except FileFault Unit)
  /-- Makes a folder, and those that it lies in. -/
  makeFolder : String → m (Except FileFault Unit)
  isThere : String → m Bool
  isFolder : String → m Bool
  /-- The files in a folder and in the folders inside of it. -/
  filesUnder : String → m (List String)
  /-- What is left of the standard input. -/
  readInput : m (Except FileFault String)
  print : String → m Unit
  report : String → m Unit

inductive Failure where
  /-- Something could not be done with a file, while something else was being done. -/
  | file (attempt : Option String) (fault : FileFault)
  | refused (reason : String)
deriving DecidableEq

namespace Failure

def message : Failure → String
  | file (some attempt) fault => attempt ++ ": " ++ fault.message
  | file none fault => fault.message
  | refused reason => reason

def isFile : Failure → Bool
  | file .. => true
  | refused _ => false

end Failure

/-- Commands, which may give up. -/
abbrev Task (m : Type → Type) := ExceptT Failure m

namespace Task

variable {m : Type → Type} [Monad m] [Host m] {Result : Type}

def print (text : String) : Task m Unit := ExceptT.lift (Host.print text)

def printLine (text : String) : Task m Unit := print (text ++ "\n")

def reportLine (text : String) : Task m Unit := ExceptT.lift (Host.report (text ++ "\n"))

def onFile (attempt : Option String) (action : m (Except FileFault Result)) : Task m Result :=
  ExceptT.mk do return (← action).mapError (.file attempt)

end Task

end DetectionRules.CommandLine
