import DetectionRules.Format
import DetectionRules.Text.Basic

/-!
Guessing the dialect of a rule text from its shape. Patterns are looked for
whatever the case of ASCII letters, except where a dialect fixes the case.
-/

namespace DetectionRules.Dialect

def isTableName (text : List Char) : Bool :=
  text.head?.any Char.isAlpha && text.all fun c => c.isAlphanum || c == '_'

/-- The dialect of text that begins with a rule name. -/
def detectNamed? (folded : String) : Option Format :=
  if Text.startsWith folded "rule " || Text.contains folded "\nrule " then
    if Text.contains folded "events:" then some .yaral
    else if Text.contains folded "\"conditions\"" then some .paloalto
    else if Text.contains folded "condition:" then some .yara
    else none
  else none

def detect? (content : String) : Option Format :=
  let text := Text.trim content
  let folded := Text.lower text
  let firstWord := text.toList.takeWhile fun c => !(Text.isBlank c || c == '|')
  if text.isEmpty then none
  else match detectNamed? folded with
    | some format => some format
    | none =>
        if Text.contains folded "detection:" && Text.contains folded "condition:" then some .sigma
        else if Text.startsWith folded "select " && Text.contains folded " from " then some .qradar
        else if ["#event_simpleName", "groupBy(", "event_platform="].any (Text.contains text) then
          some .crowdstrike
        else if isTableName firstWord && ["| where", "|where"].any (Text.contains folded)
            && Text.contains text "==" then some .kql
        else if Text.containsChar text '=' then some .splunk
        else none

end DetectionRules.Dialect
