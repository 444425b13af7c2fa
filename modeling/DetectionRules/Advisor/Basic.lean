import DetectionRules.Field.Catalog
import DetectionRules.Job.Error
import DetectionRules.Time.Activity

/-!
The advisor, who is asked for a name in the target dialect when the catalog has
none. What an advisor does is an activity: answers may take time, may be wrong
and may fail to come.
-/

namespace DetectionRules

structure FieldQuestion where
  field : String
  source : Format
  target : Format
  /-- All names of the target dialect. -/
  candidates : List String
  samples : List String
deriving DecidableEq

structure FieldSuggestion where
  field : String
  /-- Between zero and one. -/
  confidence : Binary64
deriving DecidableEq

/-- How an advisor answers in a world. -/
abbrev Advisor (World : Type) : Type :=
  FieldQuestion → Activity World (Except AdvisorError FieldSuggestion)

end DetectionRules
