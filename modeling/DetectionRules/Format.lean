import DetectionRules.Text.Basic

/-!
The eight rule dialects and what is fixed for each of them: its name on the
wire, its spoken name, the file extension of its rules, the confidence that is
published for it, and whether it can count events over time.
-/

namespace DetectionRules

inductive Format where
  | splunk
  | qradar
  | sigma
  | kql
  | paloalto
  | crowdstrike
  | yara
  | yaral
deriving DecidableEq

namespace Format

def all : List Format := [splunk, qradar, sigma, kql, paloalto, crowdstrike, yara, yaral]

theorem mem_all (format : Format) : format ∈ all := by cases format <;> decide

def name : Format → String
  | splunk => "splunk"
  | qradar => "qradar"
  | sigma => "sigma"
  | kql => "kql"
  | paloalto => "paloalto"
  | crowdstrike => "crowdstrike"
  | yara => "yara"
  | yaral => "yaral"

def displayName : Format → String
  | splunk => "Splunk SPL"
  | qradar => "IBM QRadar AQL"
  | sigma => "SIGMA"
  | kql => "Microsoft KQL"
  | paloalto => "Palo Alto Networks"
  | crowdstrike => "CrowdStrike Falcon LogScale"
  | yara => "YARA"
  | yaral => "Chronicle YARA-L 2.0"

/-- Whether rules of the dialect may hold an aggregation. -/
def supportsCorrelation : Format → Bool
  | paloalto | yara => false
  | _ => true

/-- The published confidence, in hundredths. -/
def confidencePercent : Format → Nat
  | splunk => 95
  | qradar => 92
  | sigma => 90
  | kql => 93
  | paloalto => 94
  | crowdstrike => 91
  | yara | yaral => 96

def fileExtension : Format → String
  | splunk => "spl"
  | qradar => "aql"
  | sigma => "yml"
  | kql => "kql"
  | paloalto => "json"
  | crowdstrike => "lql"
  | yara => "yar"
  | yaral => "yaral"

def ofName? (name : String) : Option Format := all.find? fun format => format.name == name

theorem of_name_name (format : Format) : ofName? format.name = some format := by
  cases format <;> decide

/-- Reads a file extension; the case of letters does not matter. -/
def ofExtension? (extension : String) : Option Format :=
  match Text.lower extension with
  | "spl" | "splunk" => some splunk
  | "aql" => some qradar
  | "yml" | "yaml" => some sigma
  | "kql" | "kusto" => some kql
  | "json" | "panw" => some paloalto
  | "lql" | "cql" => some crowdstrike
  | "yar" | "yara" => some yara
  | "yaral" | "yl2" => some yaral
  | _ => none

end Format

end DetectionRules
