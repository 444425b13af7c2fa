import DetectionRules.CommandLine.Host

/-!
Files and folders as a value, and commands that run on it. A place is the list
of names that leads to it from the root, which is always a folder.
-/

namespace DetectionRules.CommandLine

abbrev Place := List String

inductive FileItem where
  | folder
  | text (content : String)
  /-- A file that does not hold text. -/
  | bytes
deriving DecidableEq

structure Files where
  /-- Where paths that are not absolute begin. -/
  here : Place := []
  items : List (Place × FileItem) := []

namespace Files

def lookup (files : Files) (place : Place) : Option FileItem :=
  if place.isEmpty then some .folder else files.items.lookup place

def put (files : Files) (place : Place) (item : FileItem) : Files :=
  { files with items := (place, item) :: files.items.filter (·.1 != place) }

def isFolderAt (files : Files) (place : Place) : Bool := files.lookup place == some .folder

def maxNameSize : Nat := 255

/-- Follows names from a folder. The last name may lead to nothing, but no name follows one that
does not lead to a folder. -/
def follow (files : Files) (place : Place) : List String → Except FileFault Place
  | [] => .ok place
  | name :: rest =>
      match files.lookup place with
      | none => .error .notFound
      | some .folder =>
          if name == "" || name == "." then follow files place rest
          else if name == ".." then follow files place.dropLast rest
          else if maxNameSize < name.utf8ByteSize then .error .nameTooLong
          else follow files (place ++ [name]) rest
      | some _ => .error .notFolder

def place (files : Files) (path : String) : Except FileFault Place :=
  if path == "" then .error .notFound
  else if Text.containsChar path '\x00' then .error .zeroInPath
  else files.follow (if Path.isAbsolute path then [] else files.here) (Path.pieces path)

def find (files : Files) (path : String) : Except FileFault (Option FileItem) :=
  (files.place path).map files.lookup

def read (files : Files) (path : String) : Except FileFault String := do
  match ← files.find path with
  | none => throw .notFound
  | some .folder => throw .isFolder
  | some .bytes => throw .notText
  | some (.text content) => return content

def write (files : Files) (path content : String) : Except FileFault Files := do
  if Text.endsWith path "/" then
    let _ ← files.follow (if Path.isAbsolute path then [] else files.here)
      (Path.parts path).dropLast
    throw .isFolder
  let place ← files.place path
  match files.lookup place with
  | some .folder => throw .isFolder
  | _ => return files.put place (.text content)

def makeOne (files : Files) (start : Place) (names : List String) : Except FileFault Files := do
  let place ← files.follow start names
  match files.lookup place with
  | some _ => throw .alreadyThere
  | none => return files.put place .folder

/-- Makes a folder and those on the way to it, given the names in reverse. -/
def makeAll (files : Files) (start : Place) : List String → Except FileFault Files
  | [] => .ok files
  | name :: above =>
      let names := (name :: above).reverse
      match files.makeOne start names with
      | .ok files => .ok files
      | .error .notFound => do
          let files ← makeAll files start above
          finish files (files.makeOne start names) names
      | .error fault => finish files (.error fault) names
where
  /-- A folder that is already there will do. -/
  finish (files : Files) (outcome : Except FileFault Files) (names : List String) :
      Except FileFault Files :=
    match outcome with
    | .ok files => .ok files
    | .error fault =>
        match files.follow start names with
        | .ok place => if files.isFolderAt place then .ok files else .error fault
        | .error _ => .error fault

def makeFolder (files : Files) (path : String) : Except FileFault Files :=
  if Text.containsChar path '\x00' then .error .zeroInPath
  else files.makeAll (if Path.isAbsolute path then [] else files.here) (Path.parts path).reverse

def isThere (files : Files) (path : String) : Bool :=
  match files.find path with
  | .ok (some _) => true
  | _ => false

def isFolder (files : Files) (path : String) : Bool :=
  match files.find path with
  | .ok (some .folder) => true
  | _ => false

/-- The files under a folder, as paths that begin with the path of the folder. -/
def filesUnder (files : Files) (path : String) : List String :=
  match files.place path with
  | .error _ => []
  | .ok place => files.items.filterMap fun (other, item) =>
      if item != .folder && place.isPrefixOf other then
        some (Path.join path (String.intercalate "/" (other.drop place.length)))
      else none

/-- Adds an item and the folders on the way to it. -/
def add (files : Files) (place : Place) (item : FileItem) : Files :=
  let folders := (List.range place.length).map place.take
  let files := folders.foldl (fun files folder =>
    if (files.lookup folder).isSome then files else files.put folder .folder) files
  files.put place item

end Files

structure Session where
  files : Files
  /-- What is left of the standard input. -/
  input : String := ""
  output : String := ""
  errors : String := ""

namespace Session

def changeFiles (change : Files → Except FileFault Files) : StateM Session (Except FileFault Unit) :=
  fun session =>
    match change session.files with
    | .ok files => (.ok (), { session with files })
    | .error fault => (.error fault, session)

instance : Host (StateM Session) where
  readFile path := do return (← get).files.read path
  writeFile path content := changeFiles (·.write path content)
  makeFolder path := changeFiles (·.makeFolder path)
  isThere path := do return (← get).files.isThere path
  isFolder path := do return (← get).files.isFolder path
  filesUnder path := do return (← get).files.filesUnder path
  readInput := modifyGet fun session => (.ok session.input, { session with input := "" })
  print text := modify fun session => { session with output := session.output ++ text }
  report text := modify fun session => { session with errors := session.errors ++ text }

end Session

end DetectionRules.CommandLine
