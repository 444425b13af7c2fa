import DetectionRules.Rule.Basic

/-!
The names that each dialect gives to the properties of events. A property has
at most one name in a dialect, and no two properties share one. A name that the
dialect of a rule does not know is looked up as the name of a property.
-/

namespace DetectionRules

/-- A property of events with its name in each dialect that has one. -/
structure EventProperty where
  name : String
  natives : List (Format × String)

namespace Catalog

def version : String := "2024.1"

def properties : List EventProperty :=
  [ ⟨"EventID", [(.sigma, "EventID"), (.splunk, "EventCode"), (.qradar, "EventID"),
      (.kql, "EventID"), (.crowdstrike, "EventCode"), (.yaral, "metadata.product_event_type")]⟩,
    ⟨"Image", [(.sigma, "Image"), (.splunk, "process_path"), (.qradar, "Process Path"),
      (.kql, "FolderPath"), (.crowdstrike, "ImageFileName"),
      (.yaral, "target.process.file.full_path")]⟩,
    ⟨"CommandLine", [(.sigma, "CommandLine"), (.splunk, "process_command_line"),
      (.qradar, "Command"), (.kql, "ProcessCommandLine"), (.crowdstrike, "CommandLine"),
      (.yaral, "target.process.command_line")]⟩,
    ⟨"ParentImage", [(.sigma, "ParentImage"), (.splunk, "parent_process_path"),
      (.qradar, "Parent Process Path"), (.kql, "InitiatingProcessFolderPath"),
      (.crowdstrike, "ParentBaseFileName"), (.yaral, "principal.process.file.full_path")]⟩,
    ⟨"ParentCommandLine", [(.sigma, "ParentCommandLine"),
      (.splunk, "parent_process_command_line"), (.qradar, "Parent Command"),
      (.kql, "InitiatingProcessCommandLine"), (.crowdstrike, "ParentCommandLine"),
      (.yaral, "principal.process.command_line")]⟩,
    ⟨"User", [(.sigma, "User"), (.splunk, "user"), (.qradar, "username"), (.kql, "AccountName"),
      (.paloalto, "src_user"), (.crowdstrike, "UserName"), (.yaral, "principal.user.userid")]⟩,
    ⟨"Computer", [(.sigma, "Computer"), (.splunk, "host"), (.qradar, "Hostname"),
      (.kql, "Computer"), (.crowdstrike, "ComputerName"), (.yaral, "principal.hostname")]⟩,
    ⟨"SourceIp", [(.sigma, "SourceIp"), (.splunk, "src_ip"), (.qradar, "sourceip"),
      (.kql, "LocalIP"), (.paloalto, "src"), (.crowdstrike, "LocalAddressIP4"),
      (.yaral, "principal.ip")]⟩,
    ⟨"DestinationIp", [(.sigma, "DestinationIp"), (.splunk, "dest_ip"),
      (.qradar, "destinationip"), (.kql, "RemoteIP"), (.paloalto, "dst"),
      (.crowdstrike, "RemoteAddressIP4"), (.yaral, "target.ip")]⟩,
    ⟨"SourcePort", [(.sigma, "SourcePort"), (.splunk, "src_port"), (.qradar, "sourceport"),
      (.kql, "LocalPort"), (.paloalto, "sport"), (.crowdstrike, "LocalPort"),
      (.yaral, "principal.port")]⟩,
    ⟨"DestinationPort", [(.sigma, "DestinationPort"), (.splunk, "dest_port"),
      (.qradar, "destinationport"), (.kql, "RemotePort"), (.paloalto, "dport"),
      (.crowdstrike, "RemotePort"), (.yaral, "target.port")]⟩,
    ⟨"SourceHostname", [(.sigma, "SourceHostname"), (.splunk, "src_host"), (.kql, "DeviceName"),
      (.yaral, "principal.asset.hostname")]⟩,
    ⟨"DestinationHostname", [(.sigma, "DestinationHostname"), (.splunk, "dest_host"),
      (.kql, "RemoteUrl"), (.yaral, "target.hostname")]⟩,
    ⟨"TargetFilename", [(.sigma, "TargetFilename"), (.splunk, "file_path"),
      (.qradar, "Filename"), (.kql, "FileName"), (.crowdstrike, "TargetFileName"),
      (.yaral, "target.file.full_path")]⟩,
    ⟨"TargetObject", [(.sigma, "TargetObject"), (.splunk, "registry_path"),
      (.qradar, "Registry Key"), (.kql, "RegistryKey"), (.crowdstrike, "RegObjectName"),
      (.yaral, "target.registry.registry_key")]⟩,
    ⟨"QueryName", [(.sigma, "QueryName"), (.splunk, "query"), (.kql, "Name"),
      (.crowdstrike, "DomainName"), (.yaral, "network.dns.questions.name")]⟩,
    ⟨"LogonType", [(.sigma, "LogonType"), (.splunk, "Logon_Type"), (.qradar, "Logon Type"),
      (.kql, "LogonType"), (.crowdstrike, "LogonType"), (.yaral, "extensions.auth.mechanism")]⟩,
    ⟨"ProcessId", [(.sigma, "ProcessId"), (.splunk, "process_id"), (.kql, "ProcessId"),
      (.crowdstrike, "TargetProcessId"), (.yaral, "target.process.pid")]⟩,
    ⟨"Hashes", [(.sigma, "Hashes"), (.splunk, "file_hash"), (.kql, "SHA256"),
      (.crowdstrike, "SHA256HashData"), (.yaral, "target.process.file.sha256")]⟩,
    ⟨"Application", [(.sigma, "Application"), (.splunk, "app"), (.qradar, "Application"),
      (.kql, "Application"), (.paloalto, "app")]⟩,
    ⟨"Action", [(.sigma, "Action"), (.splunk, "action"), (.kql, "DeviceAction"),
      (.paloalto, "action"), (.yaral, "security_result.action")]⟩,
    ⟨"content", [(.splunk, "_raw"), (.sigma, "keywords"), (.crowdstrike, "@rawstring"),
      (.yara, "content")]⟩,
    ⟨"content_hex", [(.sigma, "content_hex"), (.yara, "content_hex")]⟩ ]

def native (property : EventProperty) (format : Format) : Option String :=
  (property.natives.find? (·.1 == format)).map (·.2)

def canonical? (format : Format) (field : String) : Option String :=
  (properties.find? fun property => native property format == some field).map (·.name)

def native? (format : Format) (canonical : String) : Option String :=
  (properties.find? (·.name == canonical)).bind (native · format)

/-- The name in the target dialect of a field of the source dialect. -/
def translate? (source target : Format) (field : String) : Option String :=
  if source = target then some field
  else native? target ((canonical? source field).getD field)

/-- All names of a dialect in the order of their characters. -/
def fields (format : Format) : List String :=
  (properties.filterMap (native · format)).mergeSort fun first second => decide (first ≤ second)

/-- Whether a dialect has a spelling for an operator on one of its fields. -/
def supports (format : Format) (field : String) (op : Operator) : Bool :=
  match format, canonical? format field with
  | .yara, some "content" => op == .contains || op == .regex
  | .yara, some "content_hex" => op == .equals
  | .yara, _ => false
  | .sigma, some "content" => op == .contains
  | _, _ => true

def carries (format : Format) (part : LogSourcePart) : Bool :=
  !(format == .crowdstrike && part == .service)

end Catalog

end DetectionRules
