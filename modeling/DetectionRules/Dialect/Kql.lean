import DetectionRules.Dialect.Basic
import DetectionRules.Expression.Grammar

/-!
Reading Kusto queries: a table that says where events come from, filters, and
at most one count whose result a later filter compares. Filters on the time of
an event only bound a search, so they are dropped.

Writing Kusto queries, one stage a line. The table is the one whose events come
from where the rule says, or else the closest one.
-/

namespace DetectionRules.Kql

def connectives : Expression.Connectives where
  conjunction := "and"
  disjunction := "or"
  negations := []
  adjacency := false
  exactCase := true

def quoting : Quoting := { single := true }

/-- How deep calls of `not` may nest. -/
def maxNegations : Nat := 32

def isShaping (operator : String) : Bool :=
  ["project", "project-away", "sort", "order", "take", "limit"].contains operator

def timeFields : List String := ["TimeGenerated", "Timestamp"]

structure Table where
  name : String
  source : LogSource

def windows (category service : Option String) : LogSource := ⟨some "windows", category, service⟩

def tables : List Table :=
  [⟨"SecurityEvent", windows none (some "security")⟩,
    ⟨"WindowsEvent", windows none none⟩,
    ⟨"DeviceProcessEvents", windows (some "process_creation") none⟩,
    ⟨"DeviceNetworkEvents", windows (some "network_connection") none⟩,
    ⟨"DeviceFileEvents", windows (some "file_event") none⟩,
    ⟨"DeviceRegistryEvents", windows (some "registry_event") none⟩,
    ⟨"DeviceImageLoadEvents", windows (some "image_load") none⟩,
    ⟨"DnsEvents", ⟨none, some "dns", none⟩⟩,
    ⟨"CommonSecurityLog", ⟨none, some "firewall", none⟩⟩,
    ⟨"Syslog", ⟨some "linux", none, none⟩⟩,
    ⟨"SigninLogs", ⟨some "azure", none, some "signinlogs"⟩⟩,
    ⟨"AuditLogs", ⟨some "azure", none, some "auditlogs"⟩⟩,
    ⟨"OfficeActivity", ⟨some "m365", none, none⟩⟩]

def isTableName (name : String) : Bool :=
  match name.toList with
  | [] => false
  | c :: rest =>
      c.isAlpha && name.utf8ByteSize ≤ 64 && rest.all fun c => c.isAlphanum || c == '_'

/-- Where the events of a table come from; an unknown table is a service of its own. -/
def sourceOfTable (name : String) : LogSource :=
  match tables.find? (·.name == name) with
  | some table => table.source
  | none => { service := some name }

def atPipe (tokens : List Token) : Bool := Parser.nextIsSign "|" tokens

def column : Parser String := do
  if ← Parser.takeSign "[" then
    let name ← Parser.literal "a column name"
    Parser.sign "]"
    return name.text
  else Parser.word "a column"

/-- Only literals without quotes may stand for numbers. -/
def valueOf (literal : Parser.Literal) : Value :=
  if literal.quoted then .str literal.text else .ofLiteral literal.text

def value : Parser Value := return valueOf (← Parser.literal "a value")

def integer : Parser Value := do
  let literal ← Parser.literal "a value"
  match valueOf literal with
  | .int number => return .int number
  | .str _ => Parser.failAt literal.offset "comparison needs an integer"

def stringValue : Parser Value := return .str (← Parser.literal "a string").text

def nextIsCall (name : String) : List Token → Bool
  | token :: rest => Parser.nextIsWord name [token] && Parser.nextIsSign "(" rest
  | [] => false

def takeCall (name : String) : Parser Bool := do
  if ← Parser.takeIf (nextIsCall name) then
    Parser.skip
    return true
  else return false

/-- What follows the parenthesis that closes the outermost of `depth` open ones. -/
def afterClosing? : Nat → List Token → Option (List Token)
  | 0, tokens => some tokens
  | _ + 1, [] => none
  | depth + 1, token :: rest =>
      if token.lexeme = .symbol "(" then afterClosing? (depth + 2) rest
      else if token.lexeme = .symbol ")" then afterClosing? depth rest
      else afterClosing? (depth + 1) rest

def timeExpression : Parser Unit := do
  let (name, offset) ← Parser.wordAt "a time expression"
  unless ["ago", "now", "datetime", "startofday", "endofday"].contains name do
    Parser.failAt offset ("unsupported time expression '" ++ name ++ "'")
  Parser.sign "("
  match afterClosing? 1 (← get) with
  | some rest => set rest
  | none => Parser.failAt none "unterminated time expression"

def valueList : Parser (List Value) := do
  Parser.sign "("
  let values ← Parser.sepBy (Parser.takeSign ",") value
  Parser.sign ")"
  return values.foldl Expression.addValue []

def regularExpression : Parser Value := do
  Parser.keyword "regex"
  let literal ← Parser.literal "a regular expression"
  Dialect.ensureRegex literal.offset literal.text
  return .str literal.text

/-- A test spelled with a word, after `!` if it is negated. -/
def wordTest (field : String) (negated : Bool) : Parser FieldTest := do
  let (operator, offset) ← Parser.wordAt "an operator"
  let unsupported : Parser FieldTest :=
    Parser.failAt offset ("unsupported operator '" ++ operator ++ "'")
  match operator with
  | "in" | "in~" => return ⟨field, .equals, ← valueList⟩
  | "has" | "has_cs" | "contains" | "contains_cs" => return .single field .contains (← stringValue)
  | "startswith" | "startswith_cs" => return .single field .startsWith (← stringValue)
  | "endswith" | "endswith_cs" => return .single field .endsWith (← stringValue)
  | "matches" => if negated then unsupported else return .single field .regex (← regularExpression)
  | _ => unsupported

def nextIsEquality (tokens : List Token) : Bool :=
  Parser.nextIsSign "==" tokens || Parser.nextIsSign "=~" tokens

def nextIsInequality (tokens : List Token) : Bool :=
  Parser.nextIsSign "!=" tokens || Parser.nextIsSign "!~" tokens

def nextIsAnySign : List Token → Bool
  | ⟨.symbol _, _⟩ :: _ => true
  | _ => false

def kept (test : FieldTest) : Logic (Option FieldTest) := .term (some test)

/-- The test of a field after its name; a test of the time is no test of the event. -/
def testOf (field : String) : Parser (Logic (Option FieldTest)) := do
  match ← Dialect.takeComparison? with
  | some op =>
      if timeFields.contains field then
        timeExpression
        return .term none
      else return kept (.single field op (← integer))
  | none =>
      if ← Parser.takeIf nextIsEquality then return kept (.single field .equals (← value))
      else if ← Parser.takeIf nextIsInequality then
        return Logic.negate (kept (.single field .equals (← value)))
      else if ← Parser.takeSign "!" then return Logic.negate (kept (← wordTest field true))
      else if ← Parser.sees nextIsAnySign then Parser.expected "an operator"
      else return kept (← wordTest field false)

/-- A test, or the negation of an expression between parentheses. -/
def term (expression : Parser (Option (Logic FieldTest))) : Parser (Logic (Option FieldTest)) := do
  if ← takeCall "not" then
    let inner ← expression
    Parser.sign ")"
    return match inner with
      | some inner => Logic.negate (inner.map some)
      | none => .term none
  else testOf (← column)

/-- A filter without its tests of the time, given how many calls of `not` may follow. -/
def expression : Nat → Parser (Option (Logic FieldTest))
  | 0 => Parser.fail "expression nested too deeply"
  | negations + 1 => do
      let logic ← Expression.parse connectives atPipe (term (expression negations))
      return logic.flatten

/-- What `summarize` counts, the name of the result, and per which fields and time. -/
structure Summary where
  counted : Counted
  result : String
  groupBy : List String := []
  window : Option TimeWindow := none

def countCall : Parser (Counted × String) := do
  let (name, offset) ← Parser.wordAt "an aggregation function"
  Parser.sign "("
  let result ← match name with
    | "count" => pure (Counted.events, "count_")
    | "dcount" => do
        let field ← column
        pure (Counted.distinct field, "dcount_" ++ field)
    | _ => Parser.failAt offset ("unsupported aggregation '" ++ name ++ "'")
  Parser.sign ")"
  return result

def bin : Parser TimeWindow := do
  let field ← column
  if !timeFields.contains field then
    Parser.fail ("bin over non-time column '" ++ field ++ "'")
  Parser.sign ","
  let span ← Parser.literal "a bin size"
  match TimeWindow.ofText? span.text with
  | some window =>
      Parser.sign ")"
      return window
  | none => Parser.failAt span.offset ("invalid bin size '" ++ span.text ++ "'")

def groupItem : Parser (TimeWindow ⊕ String) := do
  if ← takeCall "bin" then return .inl (← bin) else return .inr (← column)

def Summary.add (summary : Summary) : TimeWindow ⊕ String → Summary
  | .inl window => { summary with window := some window }
  | .inr field => { summary with groupBy := summary.groupBy ++ [field] }

def nextIsNamed : List Token → Bool
  | _ :: rest => Parser.nextIsSign "=" rest
  | [] => false

def summarize : Parser Summary := do
  let name ← if ← Parser.sees nextIsNamed then do
      let name ← Parser.word "an alias"
      Parser.skip
      pure (some name)
    else pure none
  let (counted, result) ← countCall
  let items ← if ← Parser.takeIf (Parser.nextIsWord "by") then
      Parser.sepBy (Parser.takeSign ",") groupItem
    else pure []
  return items.foldl Summary.add { counted, result := name.getD result }

def thresholdOn (result : String) : Parser (Comparison × UInt64) := do
  let (subject, offset) ← Parser.wordAt "the summarize result"
  if subject != result then
    Parser.failAt offset ("where after summarize must compare '" ++ result ++ "'")
  let comparison ← Dialect.comparison
  return (comparison, ← Parser.number "a threshold")

structure Query where
  conjuncts : List (Logic FieldTest) := []
  summary : Option Summary := none
  threshold : Option (Comparison × UInt64) := none

def whereStage (query : Query) : Parser Query := do
  match query.summary with
  | some summary => return { query with threshold := some (← thresholdOn summary.result) }
  | none =>
      let filter ← expression (maxNegations + 1)
      return { query with conjuncts := query.conjuncts ++ filter.toList }

def stage (query : Query) : Parser Query := do
  let (operator, offset) ← Parser.wordAt "a tabular operator"
  match operator with
  | "where" => whereStage query
  | "summarize" => return { query with summary := some (← summarize) }
  | known =>
      if isShaping known then
        Parser.skipUntil atPipe
        return query
      else Parser.failAt offset ("unsupported operator '" ++ operator ++ "'")

def table : Parser LogSource := do
  if ← Parser.takeIf (Parser.nextIsWord "union") then
    if ← Parser.takeIf (Parser.nextIsWord "*") then return {}
    else Parser.expected "'*'"
  else
    let (name, offset) ← Parser.wordAt "a table name"
    if isTableName name then return sourceOfTable name
    else Parser.failAt offset ("invalid table name '" ++ name ++ "'")

def Query.aggregation (query : Query) : Option Aggregation :=
  query.summary.map fun summary =>
    let (comparison, threshold) := query.threshold.getD (.gt, 0)
    ⟨summary.counted, summary.groupBy, comparison, threshold, summary.window⟩

def Query.toRule (query : Query) (source : LogSource) : Rule :=
  let (selections, condition) := match Logic.group? Logic.conj query.conjuncts with
    | some expression => Expression.toSelections expression
    | none => ([], .all [])
  { dialect := .kql
    title := none
    description := none
    logSource := source
    selections
    condition
    aggregation := query.aggregation }

def query : Parser Rule := do
  let source ← table
  let query ← Parser.iterate (fun query => do
    if ← Parser.takeSign "|" then return some (← stage query) else return none) {}
  if !(← Parser.atEnd) then Parser.expected "'|' or end of query"
  return query.toRule source

def read (text : String) : Except RuleError Rule :=
  Dialect.located .kql text (Dialect.readTokens quoting query text)

end DetectionRules.Kql

namespace DetectionRules.Kql

def serviceTable? (source : LogSource) : Option String :=
  match source with
  | ⟨none, none, some service⟩ => if isTableName service then some service else none
  | _ => none

def exactTable? (source : LogSource) : Option String :=
  (tables.find? (·.source = source)).map (·.name)

def closeTable? (source : LogSource) : Option String :=
  (tables.find? fun table =>
    table.source.product = source.product && table.source.category = source.category).map (·.name)

def productTable? (source : LogSource) : Option String :=
  (tables.find? fun table => table.source.product.isSome
    && table.source.product = source.product && table.source.category.isNone).map (·.name)

/-- The table to search; no table stands for all of them. -/
def tableOfSource? (source : LogSource) : Option String :=
  if source.isEmpty then none
  else (exactTable? source).or ((serviceTable? source).or
    ((closeTable? source).or (productTable? source)))

def columnText (field : String) : String :=
  if isTableName field then field else "[" ++ Text.singleQuote field ++ "]"

def valueText : Value → String
  | .int number => (Value.int number).text
  | .str text => Text.doubleQuote text

def disjunctionText : String := " or "

def wordTestText (word : String) : FieldTest → Except RuleError String :=
  Expression.renderAlternatives disjunctionText fun test =>
    .ok (columnText test.field ++ " " ++ word ++ " " ++
      Text.doubleQuote (test.values.head?.elim "" (·.text)))

def renderTest (test : FieldTest) : Except RuleError String :=
  match test.op with
  | .equals =>
      match test.values with
      | [value] => .ok (columnText test.field ++ " == " ++ valueText value)
      | values => .ok (columnText test.field ++ " in (" ++
          String.intercalate ", " (values.map valueText) ++ ")")
  | .gt | .gte | .lt | .lte =>
      .ok (columnText test.field ++ " " ++ test.op.sign?.getD ">" ++ " " ++
        test.values.head?.elim "" (·.text))
  | .contains => wordTestText "contains" test
  | .startsWith => wordTestText "startswith" test
  | .endsWith => wordTestText "endswith" test
  | .regex => wordTestText "matches regex" test

def spelling : Expression.Spelling FieldTest where
  term := renderTest
  conjunction := " and "
  disjunction := disjunctionText
  negation := fun inner => "not(" ++ inner ++ ")"
  negationEncloses := true

def countName : String := "EventCount"

def aggregationLines (aggregation : Aggregation) : List String :=
  let counted := match aggregation.counted with
    | .events => "count()"
    | .distinct field => "dcount(" ++ columnText field ++ ")"
  let bins := match aggregation.window with
    | some window => ["bin(TimeGenerated, " ++ window.text ++ ")"]
    | none => []
  let groups := aggregation.groupBy.map columnText ++ bins
  let groupText := if groups.isEmpty then "" else " by " ++ String.intercalate ", " groups
  ["| summarize " ++ countName ++ " = " ++ counted ++ groupText,
    "| where " ++ countName ++ " " ++ aggregation.comparison.sign ++ " " ++
      toString aggregation.threshold]

def write (rule : Rule) : Except RuleError String := do
  Dialect.ensureWritable .kql rule
  let expression ← Dialect.expression .kql rule
  let filter ← Expression.render spelling expression
  return String.intercalate "\n"
    ([(tableOfSource? rule.logSource).getD "union *", "| where " ++ filter] ++
      rule.aggregation.elim [] aggregationLines)

end DetectionRules.Kql
