import DetectionRules.Dialect.Basic

/-!
What the dialects share whose rules have a name and a section of metadata. The
name is an identifier, so a title with other characters goes to the metadata.
-/

namespace DetectionRules.Named

def isNameStart (c : Char) : Bool := c.isAlpha || c == '_'

def isNamePart (c : Char) : Bool := c.isAlphanum || c == '_'

def isIdentifier (name : String) : Bool :=
  name.toList.head?.any isNameStart && name.toList.all isNamePart

/-- A text with an underscore for each character that no identifier has. -/
def toIdentifier (text : String) : String :=
  let characters := text.toList.map fun c => if isNamePart c then c else '_'
  String.ofList (if characters.head?.any isNameStart then characters else '_' :: characters)

def defaultTitle : String := "translated_detection"

/-- Keys with their values, the latest first. -/
abbrev Metadata := List (String × String)

namespace Metadata

def logSource (metadata : Metadata) : LogSource :=
  ⟨metadata.lookup "product", metadata.lookup "category", metadata.lookup "service"⟩

def ofRule (rule : Rule) (name : String) : Metadata :=
  [("title", rule.title.filter (· != name)), ("description", rule.description),
    ("product", rule.logSource.product), ("category", rule.logSource.category),
    ("service", rule.logSource.service)].filterMap fun (key, value) => value.map (key, ·)

def line (entry : String × String) : String := entry.1 ++ " = " ++ Text.doubleQuote entry.2

end Metadata

/-- The metadata up to the first token where `stop` holds, if a section of them comes next. -/
def metadata (stop : List Token → Bool) : Parser Metadata := do
  if !(← Parser.takeWord "meta:") then return []
  let entries ← Parser.many do
    if ← Parser.sees (fun tokens => tokens.isEmpty || stop tokens) then return none
    let key ← Parser.word "a meta key"
    Parser.sign "="
    return some (key, (← Parser.literal "a meta value").text)
  return entries.reverse

def heading (word : String) : Parser Unit := do
  if !(← Parser.takeWord word) then Parser.expected ("'" ++ word ++ "'")

end DetectionRules.Named
