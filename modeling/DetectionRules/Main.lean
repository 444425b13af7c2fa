import DetectionRules.CommandLine.Program

/-!
The program on a real system.
-/

namespace DetectionRules.CommandLine

def faultOf : IO.Error → FileFault
  | .noFileOrDirectory .. => .notFound
  | .alreadyExists .. => .alreadyThere
  | .inappropriateType .. => .notFolder
  | .illegalOperation .. => .isFolder
  | error => .other (toString error)

def attempt {Result : Type} (action : IO Result) : IO (Except FileFault Result) := do
  try return .ok (← action)
  catch error => return .error (faultOf error)

def textOf (bytes : ByteArray) : Except FileFault String :=
  match String.fromUTF8? bytes with
  | some text => .ok text
  | none => .error .notText

/-- The files in a folder and in those inside of it, in at most so many levels. -/
def filesWithin : Nat → String → IO (List String)
  | 0, _ => return []
  | levels + 1, folder => do
      let mut found := []
      for entry in ← (System.mkFilePath [folder]).readDir do
        let path := Path.join folder entry.fileName
        match (← (System.mkFilePath [path]).metadata).type with
        | .dir => found := found ++ (← filesWithin levels path)
        | .file => found := found ++ [path]
        | _ => pure ()
      return found

instance : Host IO where
  readFile path := do
    let bytes ← attempt (IO.FS.readBinFile path)
    return bytes.bind textOf
  writeFile path content := attempt (IO.FS.writeFile path content)
  makeFolder path := attempt (IO.FS.createDirAll path)
  isThere path := (System.mkFilePath [path]).pathExists
  isFolder path := (System.mkFilePath [path]).isDir
  filesUnder path := filesWithin 256 path
  readInput := do
    let bytes ← attempt (do (← IO.getStdin).readBinToEnd)
    return bytes.bind textOf
  print text := do (← IO.getStdout).putStr text
  report text := do (← IO.getStderr).putStr text

/-- The variables of the environment that the program looks at. -/
def variableNames : List String :=
  ["HOME", "XDG_CONFIG_HOME", "NO_COLOR", "CLICOLOR_FORCE", "RULEBRIDGE_OUTPUT",
    "RULEBRIDGE_CONFIG", "RULEBRIDGE_MACHINE", "RULEBRIDGE_BIND", "RULEBRIDGE_LOG_LEVEL",
    "RULEBRIDGE_OUTPUT_FORMAT", "RULEBRIDGE_JOB_TIMEOUT", "RULEBRIDGE_MAX_CONCURRENT",
    "RULEBRIDGE_LLM_ENDPOINT", "RULEBRIDGE_LLM_API_KEY"]

def readEnvironment : IO Environment := do
  let found ← variableNames.mapM fun name => do
    return (← IO.getEnv name).map fun value => (name, value)
  return found.filterMap id

end DetectionRules.CommandLine

open DetectionRules.CommandLine in
def main (arguments : List String) : IO UInt32 := do
  let code ← Program.start { environment := ← readEnvironment } arguments
  return UInt32.ofNat code.number
