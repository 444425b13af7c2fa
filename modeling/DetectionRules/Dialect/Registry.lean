import DetectionRules.Dialect.CrowdStrike
import DetectionRules.Dialect.Kql
import DetectionRules.Dialect.PaloAlto
import DetectionRules.Dialect.QRadar
import DetectionRules.Dialect.Sigma
import DetectionRules.Dialect.Splunk
import DetectionRules.Dialect.Yara
import DetectionRules.Dialect.YaraL

/-!
The reader and the writer of each dialect.
-/

namespace DetectionRules

def Format.read : Format → String → Except RuleError Rule
  | .splunk => Splunk.read
  | .qradar => QRadar.read
  | .sigma => Sigma.read
  | .kql => Kql.read
  | .paloalto => PaloAlto.read
  | .crowdstrike => CrowdStrike.read
  | .yara => Yara.read
  | .yaral => YaraL.read

def Format.write : Format → Rule → Except RuleError String
  | .splunk => Splunk.write
  | .qradar => QRadar.write
  | .sigma => Sigma.write
  | .kql => Kql.write
  | .paloalto => PaloAlto.write
  | .crowdstrike => CrowdStrike.write
  | .yara => Yara.write
  | .yaral => YaraL.write

end DetectionRules
