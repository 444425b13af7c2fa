import DetectionRules.CommandLine.Host
import DetectionRules.Settings.Basic
import DetectionRules.Toml.Reader
import DetectionRules.Toml.Writer
import DetectionRules.Yaml.Fitting
import DetectionRules.Number.Literal

/-!
Settings in files. The extension of a file says how it is written; a file
without a known extension may be written in any of the three ways.

Where settings come from: a file in the folder for configuration, a file in the
home folder, a file in the working folder, and the environment, each of them
laid over those before. A file that is named takes the place of the files.
-/

namespace DetectionRules.Settings

def ofToml? (text : String) : Option Settings := do
  return ofFitted (← shape.fit? (← Toml.read? text))

def ofYaml? (text : String) : Option Settings := (Yaml.fit? shape text).map ofFitted

def ofJsonText? (text : String) : Option Settings := (shape.fitText text).toOption.map ofFitted

/-- What is said of a file that holds no settings. -/
def complaint (language : String) : String := "Failed to parse " ++ language ++ " config"

def ofFile (path text : String) : Except String Settings :=
  match Path.extension? path with
  | some "toml" => (ofToml? text).elim (.error (complaint "TOML")) .ok
  | some "yaml" | some "yml" => (ofYaml? text).elim (.error (complaint "YAML")) .ok
  | some "json" => (ofJsonText? text).elim (.error (complaint "JSON")) .ok
  | _ =>
      let found := (ofToml? text).or ((ofYaml? text).or (ofJsonText? text))
      found.elim (.error "Failed to parse config file") .ok

def toToml (settings : Settings) : Except String String := Toml.write settings.toJson

end DetectionRules.Settings

namespace DetectionRules

abbrev Environment := List (String × String)

namespace Settings

open CommandLine

def folder? (environment : Environment) : Option String :=
  let base := match (environment.lookup "XDG_CONFIG_HOME").filter Path.isAbsolute with
    | some folder => some folder
    | none => (home? environment).map (Path.join · ".config")
  base.map (Path.join · "rulebridge")
where
  home? (environment : Environment) : Option String :=
    (environment.lookup "HOME").filter (· != "")

def fileName : String := "config.toml"

def readVariable {Value : Type} (environment : Environment) (name complaint : String)
    (read : String → Except String Value) (default : Value) : Except String Value :=
  match environment.lookup name with
  | none => .ok default
  | some text => (read text).mapError fun reason =>
      name ++ " " ++ complaint ++ ": " ++ text ++ ": " ++ reason

/-- Lays the environment over settings. -/
def withEnvironment (settings : Settings) (environment : Environment) : Except String Settings := do
  let own? (name : String) : Option String := environment.lookup name
  let jobTimeoutSeconds ← readVariable environment "RULEBRIDGE_JOB_TIMEOUT"
    "is not a number of seconds" Number.uint64 settings.engine.jobTimeoutSeconds
  let maxConcurrent ← readVariable environment "RULEBRIDGE_MAX_CONCURRENT" "is not a number"
    Number.uint64 settings.engine.batch.maxConcurrent
  let advisor := settings.engine.advisor
  let endpoint := own? "RULEBRIDGE_LLM_ENDPOINT"
  return { settings with
    logLevel := (own? "RULEBRIDGE_LOG_LEVEL").getD settings.logLevel
    bind := (own? "RULEBRIDGE_BIND").getD settings.bind
    output := { settings.output with
      format := (own? "RULEBRIDGE_OUTPUT_FORMAT").getD settings.output.format
      color := settings.output.color && (own? "NO_COLOR").isNone }
    engine := { settings.engine with
      jobTimeoutSeconds
      batch := { settings.engine.batch with maxConcurrent }
      advisor := { advisor with
        enabled := advisor.enabled || endpoint.isSome
        endpoint := endpoint.or advisor.endpoint
        apiKey := (own? "RULEBRIDGE_LLM_API_KEY").or advisor.apiKey } } }

variable {m : Type → Type} [Monad m] [Host m]

def ofPath (path : String) : Task m Settings := do
  let text ← Task.onFile (some ("Failed to read config file: " ++ path)) (Host.readFile path)
  ExceptT.mk (pure ((ofFile path text).mapError .refused))

def localNames : List String := [".rulebridge.toml", ".rulebridge.yaml", ".rulebridge.json"]

/-- The first of some paths that leads to something. -/
def firstThere? : List String → m (Option String)
  | [] => return none
  | path :: rest => do
      if ← Host.isThere path then return some path else firstThere? rest

def mergePath (settings : Settings) (path : String) : Task m Settings := do
  return settings.merge (← ofPath path)

def ofFiles (environment : Environment) : Task m Settings := do
  let own := ((folder? environment).map (Path.join · fileName)).toList
  let settings ← match ← ExceptT.lift (firstThere? own) with
    | some path => ofPath path
    | none => pure {}
  let home := ((folder?.home? environment).map (Path.join · ".rulebridge.toml")).toList
  let settings ← match ← ExceptT.lift (firstThere? home) with
    | some path => mergePath settings path
    | none => pure settings
  match ← ExceptT.lift (firstThere? localNames) with
  | some path => mergePath settings path
  | none => return settings

/-- The settings of a file that is named, or else of the files in their places, and of the
environment. -/
def load (environment : Environment) (path : Option String) : Task m Settings := do
  let settings ← match path with
    | some path => ofPath path
    | none => ofFiles environment
  ExceptT.mk (pure ((settings.withEnvironment environment).mapError .refused))

def heading : String := "# SPDX-License-Identifier: PMPL-1.0-or-later\n# rulebridge configuration\n\n"

/-- Writes settings into the folder for configuration, and says where. -/
def save (settings : Settings) (environment : Environment) : Task m String := do
  match folder? environment with
  | none => throw (.refused "Could not determine config directory")
  | some folder =>
      Task.onFile (some ("Failed to create config directory: " ++ folder)) (Host.makeFolder folder)
      match settings.toToml with
      | .error reason => throw (.refused reason)
      | .ok text =>
          let path := Path.join folder fileName
          Task.onFile (some ("Failed to write config file: " ++ path))
            (Host.writeFile path (heading ++ text))
          return path

end Settings

end DetectionRules
