import DetectionRules.Dialect.Basic
import DetectionRules.Expression.Grammar
import DetectionRules.Yaml.Reader
import DetectionRules.Yaml.Writer

/-!
Reading Sigma rules. The detection section of a YAML document names selections
and a condition over the names. A selection is a mapping of fields with
modifiers, a list of such mappings, which are alternatives, or a list of
keywords. Faults of the document are shown at its start, faults of the
condition at their place in the condition. Why a text is not YAML, and at which
place, is not described here: such a fault has no place, and a fixed text stands
for what the reader of YAML says.

Writing Sigma rules. Tests of a selection that differ only in their value
become one field whose values must all match. A literal asterisk in an equality
has no spelling.
-/

namespace DetectionRules.Sigma

def connectives : Expression.Connectives where
  conjunction := "and"
  disjunction := "or"
  negations := ["not"]
  adjacency := false
  exactCase := false

/-- The field that keywords are looked for in. -/
def keywordField : String := "keywords"

abbrev Reading := Except RuleError

abbrev Entries := List (Yaml × Yaml)

def fault {Result : Type} (reason : String) : Reading Result :=
  .error (.malformed .sigma (some Position.start) reason)

def unsupported {Result : Type} (construct : String) : Reading Result :=
  .error (.unsupported .sigma construct)

def orFault {Result : Type} (reason : String) : Option Result → Reading Result
  | some result => .ok result
  | none => fault reason

def scalarText? : Yaml → Option String
  | .scalar (.str text) => some text
  | .scalar (.int value) => some (toString value)
  | .scalar (.float text) => some text
  | .scalar (.bool value) => some (if value then "true" else "false")
  | _ => none

def isNull : Yaml → Bool
  | .scalar .null => true
  | _ => false

def optionalText (entries : Entries) (key : String) : Reading (Option String) :=
  match (Yaml.lookup? key entries).filter (!isNull ·) with
  | none => .ok none
  | some value => (orFault ("'" ++ key ++ "' must be a string") (scalarText? value)).map some

def requiredText (entries : Entries) (key : String) : Reading String := do
  orFault ("missing required key '" ++ key ++ "'") (← optionalText entries key)

def logSource (entries : Entries) : Reading LogSource := do
  let value ← orFault "missing required key 'logsource'" (Yaml.lookup? "logsource" entries)
  if isNull value then return {}
  let source ← orFault "'logsource' must be a mapping" value.entries?
  return ⟨← optionalText source "product", ← optionalText source "category",
    ← optionalText source "service"⟩

/-- An operator with a value it is applied to. -/
abbrev Alternative := Operator × Value

def pattern (alternative : Alternative) : String :=
  let (op, value) := alternative
  let escaped := Regex.escape value.text
  match op with
  | .contains => escaped
  | .startsWith => "^" ++ escaped
  | .endsWith => escaped ++ "$"
  | .regex => value.text
  | _ => "^" ++ escaped ++ "$"

/-- One test for alternatives, which is for a regular expression if they differ in the operator. -/
def merge (field : String) (alternatives : List Alternative) : FieldTest :=
  let first := alternatives.head?.elim .equals (·.1)
  if alternatives.all (·.1 = first) then
    ⟨field, first, (alternatives.map (·.2)).foldl Expression.addValue []⟩
  else ⟨field, .regex, alternatives.map fun alternative => .str (pattern alternative)⟩

def globAlternative (glob : String) : Alternative :=
  let (op, text) := Glob.classify '*' glob.toList
  (op, .str (String.ofList text))

def keyword (selection : String) (value : Yaml) : Reading Alternative := do
  let text ← orFault ("selection '" ++ selection ++ "' has a non-scalar keyword") (scalarText? value)
  if Text.containsChar text '*' then return globAlternative text
  else return (.contains, .str text)

def valueOf (field : String) (value : Yaml) : Reading Value :=
  match value with
  | .scalar (.int number) => .ok ((Text.int64? number).elim (.str (toString number)) .int)
  | .scalar .null => unsupported ("null match on field '" ++ field ++ "'")
  | value => (orFault ("field '" ++ field ++ "' has a non-scalar value") (scalarText? value)).map .str

def valuesOf (field : String) (value : Yaml) : Reading (List Value) := do
  let values ← match value with
    | .sequence items => items.mapM (valueOf field)
    | value => do pure [← valueOf field value]
  if values.isEmpty then fault ("field '" ++ field ++ "' has no values") else return values

structure Modifiers where
  op : Option Operator := none
  /-- Whether all values must match. -/
  all : Bool := false

def operatorOf? : String → Option Operator
  | "contains" => some .contains
  | "startswith" => some .startsWith
  | "endswith" => some .endsWith
  | "re" => some .regex
  | "gt" => some .gt
  | "gte" => some .gte
  | "lt" => some .lt
  | "lte" => some .lte
  | _ => none

def isUnsupportedModifier (modifier : String) : Bool :=
  ["cased", "windash", "base64", "base64offset", "wide", "utf16", "utf16le", "utf16be", "cidr",
    "exists", "fieldref", "expand"].contains modifier

def addModifier (field : String) (modifiers : Modifiers) (modifier : String) :
    Reading Modifiers :=
  match operatorOf? modifier with
  | some op =>
      if modifiers.op.isSome then fault ("conflicting modifiers on '" ++ field ++ "'")
      else .ok { modifiers with op := some op }
  | none =>
      if modifier = "all" then .ok { modifiers with all := true }
      else if isUnsupportedModifier modifier then unsupported ("the '" ++ modifier ++ "' modifier")
      else fault ("unknown modifier '" ++ modifier ++ "' on '" ++ field ++ "'")

def equalityAlternative (value : Value) : Alternative :=
  match value with
  | .str text => if Text.containsChar text '*' then globAlternative text else (.equals, value)
  | .int _ => (.equals, value)

def asText (value : Value) : Value := .str value.text

def fieldTest (field : String) (op : Option Operator) (values : List Value) :
    Reading FieldTest :=
  match op with
  | none => .ok (merge field (values.map equalityAlternative))
  | some op =>
      if op.isComparison then
        if values.length == 1 && values.all (·.int?.isSome) then .ok ⟨field, op, values⟩
        else fault ("'" ++ field ++ "|" ++ op.name ++ "' needs one integer")
      else if op = .regex && !values.all (fun value => Regex.isValid value.text) then
        fault ("invalid regular expression on '" ++ field ++ "': <regex error>")
      else .ok ⟨field, op, values.map asText⟩

/-- The tests of a field with its modifiers, as in `field|contains|all`. -/
def fieldTests (key : String) (value : Yaml) : Reading (List FieldTest) :=
  match (Text.splitWhen (· == '|') key.toList).map String.ofList with
  | [] => .ok []
  | field :: names => do
      if field.isEmpty then fault ("field name missing in '" ++ key ++ "'")
      let modifiers ← names.foldlM (addModifier field) {}
      let values ← valuesOf field value
      if modifiers.all then values.mapM fun value => fieldTest field modifiers.op [value]
      else return [← fieldTest field modifiers.op values]

def mappingTests (selection : String) (entries : Entries) : Reading (List FieldTest) := do
  let tests ← entries.mapM fun (key, value) => do
    let key ← orFault ("selection '" ++ selection ++ "' has a non-string field") key.str?
    fieldTests key value
  if tests.flatten.isEmpty then fault ("selection '" ++ selection ++ "' is empty")
  else return tests.flatten

/-- Selections for one name, and the condition that the name stands for. -/
abbrev Named := List Selection × Logic String

def single (name : String) (tests : List FieldTest) : Named := ([⟨name, tests⟩], .term name)

def keywords (name : String) (values : List Yaml) : Reading Named := do
  let alternatives ← values.mapM (keyword name)
  if alternatives.isEmpty then fault ("selection '" ++ name ++ "' is empty")
  else return single name [merge keywordField alternatives]

/-- Selections for mappings that are alternatives, numbered from `number` on. -/
def alternatives (name : String) (number : Nat) : List Entries → Reading (List Selection)
  | [] => .ok []
  | entries :: rest => do
      let tests ← mappingTests name entries
      let others ← alternatives name (number + 1) rest
      return ⟨name ++ "_" ++ toString number, tests⟩ :: others

def selections (name : String) : Yaml → Reading Named
  | .mapping entries => return single name (← mappingTests name entries)
  | .sequence [.mapping entries] => return single name (← mappingTests name entries)
  | .sequence items =>
      match items.mapM Yaml.entries? with
      | some (first :: second :: others) => do
          let selections ← alternatives name 1 (first :: second :: others)
          return (selections, Logic.disj (selections.map fun selection => .term selection.name))
      | _ => keywords name items
  | value => keywords name [value]

structure Detection where
  selections : List Selection := []
  names : List (String × Logic String) := []
  condition : Option String := none
  window : Option TimeWindow := none

def addEntry (detection : Detection) (entry : Yaml × Yaml) : Reading Detection := do
  let (key, value) := entry
  match ← orFault "detection keys must be strings" key.str? with
  | "condition" =>
      let text ← orFault "condition must be a single expression" value.str?
      return { detection with condition := some text }
  | "timeframe" =>
      let text ← orFault "timeframe must be a duration such as 5m" (scalarText? value)
      let window ← orFault ("invalid timeframe '" ++ text ++ "'") (TimeWindow.ofText? text)
      return { detection with window := some window }
  | name =>
      let (selections, condition) ← selections name value
      return { detection with
        selections := detection.selections ++ selections
        names := detection.names ++ [(name, condition)] }

/-- What is left of a name after each number of characters of its first line. -/
def tails : List Char → List (List Char)
  | [] => [[]]
  | c :: rest => (c :: rest) :: if c = '\n' then [] else tails rest

/-- Whether a glob matches a name; an asterisk does not match across lines. -/
def globMatches : List Char → List Char → Bool
  | [], name => name.isEmpty
  | c :: glob, name =>
      if c = '*' then (tails name).any (globMatches glob)
      else match name with
        | [] => false
        | first :: rest => first == c && globMatches glob rest

def quantified (names : List (String × Logic String)) (all : Bool) : Parser (Logic String) := do
  let (pattern, offset) ← Parser.wordAt "a selection pattern or 'them'"
  let picked := names.filter fun (name, _) =>
    if pattern == "them" then !Text.startsWith name "_"
    else globMatches pattern.toList name.toList
  if picked.isEmpty then Parser.failAt offset ("'" ++ pattern ++ "' matches no selection")
  return (if all then Logic.conj else Logic.disj) (picked.map (·.2))

/-- A name, or several with a quantifier as in `1 of sel*`. -/
def reference (names : List (String × Logic String)) : Parser (Logic String) := do
  let (word, offset) ← Parser.wordAt "a selection name"
  let quantifier := Text.lower word
  let isQuantifier := ["1", "any", "all"].contains quantifier
  if ← Parser.takeIf fun tokens => isQuantifier && Parser.nextIsKeyword "of" tokens then
    quantified names (quantifier == "all")
  else match names.lookup word with
    | some condition => return condition
    | none => Parser.failAt offset ("unknown selection '" ++ word ++ "'")

def counted : Parser Counted := do
  Parser.keyword "count"
  Parser.sign "("
  let isWord ← Parser.sees fun
    | ⟨.word _, _⟩ :: _ => true
    | _ => false
  let counted ← if isWord then do pure (Counted.distinct (← Parser.word "a field"))
    else pure Counted.events
  Parser.sign ")"
  return counted

def aggregation (window : Option TimeWindow) : Parser Aggregation := do
  let counted ← counted
  let groupBy ←
    if ← Parser.takeKeyword "by" then
      Parser.sepBy (Parser.takeSign ",") (Parser.word "a group-by field")
    else pure []
  let comparison ← Dialect.comparison
  return ⟨counted, groupBy, comparison, ← Parser.number "a threshold", window⟩

def conditionParser (detection : Detection) : Parser (Logic String × Option Aggregation) := do
  let condition ←
    Expression.parse connectives (Parser.nextIsSign "|") (reference detection.names)
  let aggregation ←
    if ← Parser.takeSign "|" then do pure (some (← aggregation detection.window)) else pure none
  if !(← Parser.atEnd) then Parser.expected "end of condition"
  return (condition, aggregation)

def readCondition (detection : Detection) (text : String) :
    Except Fault (Logic String × Option Aggregation) := do
  let (result, _) ← conditionParser detection (← Token.list {} text)
  return result

def toRule (document : Yaml) : Reading Rule := do
  let root ← orFault "document must be a mapping" document.entries?
  let title ← requiredText root "title"
  let description ← optionalText root "description"
  let logSource ← logSource root
  let value ← orFault "missing required key 'detection'" (Yaml.lookup? "detection" root)
  let entries ← orFault "'detection' must be a mapping" value.entries?
  let detection ← entries.foldlM addEntry {}
  let text ← orFault "detection has no condition" detection.condition
  let (condition, aggregation) ←
    (readCondition detection text).mapError (·.toError .sigma text)
  return {
    dialect := .sigma
    title := some title
    description
    logSource
    selections := detection.selections
    condition
    aggregation }

def read (text : String) : Except RuleError Rule := do
  Dialect.located .sigma text (Dialect.ensureContent text)
  match Yaml.read? text with
  -- The text stands for what the reader of YAML says.
  | none => .error (.malformed .sigma none "<yaml error>")
  | some document =>
      let rule ← toRule document
      Dialect.located .sigma text (Dialect.checked rule)

end DetectionRules.Sigma

namespace DetectionRules.Sigma

open Yaml (Document)

def defaultTitle : String := "Translated detection"

def valueDocument : Value → Document
  | .int number => .int number.toInt
  | .str text => .text text

def valuesDocument (values : List Value) : Document :=
  match values with
  | [value] => valueDocument value
  | values => .list (values.map valueDocument)

def modifier? : Operator → Option String
  | .equals => none
  | .regex => some "re"
  | op => some op.name

def fieldKey (test : FieldTest) : Reading String :=
  match modifier? test.op with
  | some modifier => .ok (test.field ++ "|" ++ modifier)
  | none =>
      if test.values.any fun value => value.str?.any (Text.containsChar · '*') then
        unsupported ("a literal '*' in an equality on '" ++ test.field ++ "'")
      else .ok test.field

def addTest (groups : List (String × List FieldTest)) (key : String) (test : FieldTest) :
    List (String × List FieldTest) :=
  match groups with
  | [] => [(key, [test])]
  | (other, tests) :: rest =>
      if other = key then (other, tests ++ [test]) :: rest else (other, tests) :: addTest rest key test

def groupTests (tests : List FieldTest) : Reading (List (String × List FieldTest)) :=
  tests.foldlM (fun groups test => do return addTest groups (← fieldKey test) test) []

def fieldDocument (group : String × List FieldTest) : Reading (String × Document) :=
  match group with
  | (key, [test]) => .ok (key, valuesDocument test.values)
  | (key, tests) =>
      if tests.all (·.values.length == 1) then
        .ok (key ++ "|all", .list (tests.flatMap fun test => test.values.map valueDocument))
      else unsupported ("repeated multi-value matches on '" ++ key ++ "' in one selection")

def setField (fields : List (String × Document)) (field : String × Document) :
    List (String × Document) :=
  match fields with
  | [] => [field]
  | other :: rest =>
      if other.1 = field.1 then field :: rest else other :: setField rest field

def selectionDocument (selection : Selection) : Reading Document := do
  match selection.tests with
  | [test] =>
      if test.field = keywordField ∧ test.op = .contains then
        return .list (test.values.map valueDocument)
      else recordOf selection.tests
  | tests => recordOf tests
where
  recordOf (tests : List FieldTest) : Reading Document := do
    let fields ← (← groupTests tests).mapM fieldDocument
    return .record (fields.foldl setField [])

def spelling : Expression.Spelling String where
  term := .ok
  conjunction := " and "
  disjunction := " or "
  negation := fun inner => "not " ++ inner

def aggregationText (aggregation : Aggregation) : String :=
  let field := match aggregation.counted with
    | .events => ""
    | .distinct field => field
  let groups := if aggregation.groupBy.isEmpty then ""
    else " by " ++ String.intercalate ", " aggregation.groupBy
  " | count(" ++ field ++ ")" ++ groups ++ " " ++ aggregation.comparison.sign ++ " "
    ++ toString aggregation.threshold

def detectionDocument (rule : Rule) : Reading Document := do
  let selections ← rule.selections.mapM fun selection => do
    return (selection.name, ← selectionDocument selection)
  let window := (rule.aggregation.bind (·.window)).map fun window =>
    ("timeframe", Document.text window.text)
  let condition ← Expression.render spelling rule.condition
  let entry := ("condition", Document.text (condition ++ rule.aggregation.elim "" aggregationText))
  return .record ((selections ++ window.toList ++ [entry]).foldl setField [])

def sourceDocument (source : LogSource) : Document :=
  .record ([("product", source.product), ("category", source.category),
    ("service", source.service)].filterMap fun (key, value) =>
      value.map fun text => (key, Document.text text))

def write (rule : Rule) : Except RuleError String := do
  Dialect.ensureWritable .sigma rule
  let detection ← detectionDocument rule
  let description := rule.description.map fun text => ("description", Document.text text)
  return Yaml.write ([("title", Document.text (rule.title.getD defaultTitle))] ++ description.toList
    ++ [("logsource", sourceDocument rule.logSource), ("detection", detection)])

end DetectionRules.Sigma
