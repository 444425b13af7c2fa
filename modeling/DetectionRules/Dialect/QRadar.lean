import DetectionRules.Dialect.Basic
import DetectionRules.Expression.Grammar

/-!
Reading QRadar queries: the filter after `WHERE`, and the clauses that count.
Three calls in the filter name where events come from. Columns, ordering and
row limits do not change which events match.

Writing QRadar queries. `LIKE` has no escape for its wildcards, so texts that
hold one are matched by a regular expression.
-/

namespace DetectionRules.QRadar

def connectives : Expression.Connectives where
  conjunction := "AND"
  disjunction := "OR"
  negations := ["NOT"]
  adjacency := false
  exactCase := false

def quoting : Quoting := { single := true }

def typeCall : String := "LOGSOURCETYPENAME(devicetype)"

def categoryCall : String := "CATEGORYNAME(category)"

def sourceCall : String := "LOGSOURCENAME(logsourceid)"

def sourceCalls : List String := [typeCall, categoryCall, sourceCall]

/-- The words that end the filter. -/
def atClause (tokens : List Token) : Bool :=
  ["GROUP", "HAVING", "ORDER", "LIMIT", "LAST", "START", "STOP"].any (Parser.nextIsKeyword · tokens)

/-- A word, a name in quotes, or a call that names where events come from. -/
def field : Parser String := do
  let name ← Parser.literal "a field"
  if ← Parser.takeSign "(" then
    let argument ← Parser.word "a function argument"
    Parser.sign ")"
    let call := Text.upper name.text ++ "(" ++ Text.lower argument ++ ")"
    if sourceCalls.contains call then return call
    else Parser.failAt name.offset ("unsupported function '" ++ name.text ++ "'")
  else return name.text

def valueOf (literal : Parser.Literal) : Value :=
  if literal.quoted then .str literal.text else .ofLiteral literal.text

def value : Parser Value := return valueOf (← Parser.literal "a value")

def integer : Parser Value := do
  let literal ← Parser.literal "a value"
  match valueOf literal with
  | .int number => return .int number
  | .str text =>
      Parser.failAt literal.offset ("comparison needs an integer, found '" ++ text ++ "'")

def valueList : Parser (List Value) := do
  Parser.sign "("
  let values ← Parser.sepBy (Parser.takeSign ",") value
  Parser.sign ")"
  return values.foldl Expression.addValue []

def regularExpression (caseInsensitive : Bool) : Parser Value := do
  let literal ← Parser.literal "a regular expression"
  Dialect.ensureRegex literal.offset literal.text
  return .str (if caseInsensitive then "(?i)" ++ literal.text else literal.text)

def wordTest (field : String) : Parser FieldTest := do
  if ← Parser.takeKeyword "IN" then return ⟨field, .equals, ← valueList⟩
  else if ← Parser.takeIf (fun tokens =>
      Parser.nextIsKeyword "LIKE" tokens || Parser.nextIsKeyword "ILIKE" tokens) then
    return .ofGlob field '%' (← Parser.literal "a LIKE pattern").text
  else if ← Parser.takeKeyword "MATCHES" then
    return .single field .regex (← regularExpression false)
  else if ← Parser.takeKeyword "IMATCHES" then
    return .single field .regex (← regularExpression true)
  else Parser.expected "a comparison"

/-- A test after its field and `NOT`, except those that negate by themselves. -/
def plainTest (field : String) : Parser FieldTest := do
  if ← Parser.takeSign "=" then return .single field .equals (← value)
  else match ← Dialect.takeComparison? with
    | some op => return .single field op (← integer)
    | none => wordTest field

def nextIsUnequal (tokens : List Token) : Bool :=
  Parser.nextIsSign "!=" tokens || Parser.nextIsSign "<>" tokens

def term : Parser (Logic FieldTest) := do
  let field ← field
  if ← Parser.takeKeyword "NOT" then return Logic.negate (.term (← plainTest field))
  else if ← Parser.takeIf nextIsUnequal then
    return Logic.negate (.term (.single field .equals (← value)))
  else return .term (← plainTest field)

structure Clauses where
  groupBy : Option (List String) := none
  having : Option (Counted × Comparison × UInt64) := none
  window : Option TimeWindow := none

def havingClause : Parser (Counted × Comparison × UInt64) := do
  let (name, offset) ← Parser.wordAt "COUNT or UNIQUECOUNT"
  Parser.sign "("
  let counted ← match Text.upper name with
    | "COUNT" => do
        Parser.skipUntil (Parser.nextIsSign ")")
        pure Counted.events
    | "UNIQUECOUNT" => do pure (Counted.distinct (← field))
    | _ => Parser.failAt offset ("unsupported aggregate '" ++ name ++ "'")
  Parser.sign ")"
  let comparison ← Dialect.comparison
  let threshold ← Parser.number "a threshold"
  return (counted, comparison, threshold)

def lastClause : Parser TimeWindow := do
  let amount ← Parser.number "a duration"
  let (name, offset) ← Parser.wordAt "a time unit"
  match (TimeUnit.ofName? name).bind (TimeWindow.ofAmount? amount) with
  | some window => return window
  | none =>
      Parser.failAt offset ("invalid time window '" ++ toString amount ++ " " ++ name ++ "'")

def clause (clauses : Clauses) : Parser (Option Clauses) := do
  if ← Parser.atEnd then return none
  let offset ← Parser.offset
  if ← Parser.takeKeyword "GROUP" then
    Parser.keyword "BY"
    return some { clauses with groupBy := some (← Parser.sepBy (Parser.takeSign ",") field) }
  else if ← Parser.takeKeyword "HAVING" then
    return some { clauses with having := some (← havingClause) }
  else if ← Parser.takeKeyword "ORDER" then
    Parser.keyword "BY"
    Parser.skipUntil fun tokens =>
      Parser.nextIsKeyword "LIMIT" tokens || Parser.nextIsKeyword "LAST" tokens
    return some clauses
  else if ← Parser.takeKeyword "LIMIT" then
    let _ ← Parser.number "a row limit"
    return some clauses
  else if ← Parser.takeKeyword "LAST" then
    return some { clauses with window := some (← lastClause) }
  else Parser.failAt offset "expected GROUP BY, HAVING, ORDER BY, LIMIT or LAST"

def Clauses.aggregation (clauses : Clauses) : Option Aggregation :=
  if clauses.groupBy.isNone && clauses.having.isNone then none
  else
    let (counted, comparison, threshold) := clauses.having.getD (.events, .gt, 0)
    some ⟨counted, clauses.groupBy.getD [], comparison, threshold, clauses.window⟩

def isSourceTest (test : FieldTest) : Bool :=
  test.op = .equals && test.values.length = 1 && sourceCalls.contains test.field

def addSource (source : LogSource) (test : FieldTest) : LogSource :=
  match test.values with
  | [] => source
  | value :: _ =>
      if test.field = typeCall then { source with product := some value.text }
      else if test.field = categoryCall then { source with category := some value.text }
      else { source with service := some value.text }

def toRule (filter : Option (Logic FieldTest)) (clauses : Clauses) : Rule :=
  let (sources, rest) := match filter with
    | some expression => Expression.liftTests isSourceTest expression
    | none => ([], none)
  let (selections, condition) := match rest with
    | some expression => Expression.toSelections expression
    | none => ([], .all [])
  { dialect := .qradar
    title := none
    description := none
    logSource := sources.foldl addSource {}
    selections
    condition
    aggregation := clauses.aggregation }

def query : Parser Rule := do
  Parser.keyword "SELECT"
  Parser.skipUntil (Parser.nextIsKeyword "FROM")
  Parser.keyword "FROM"
  let (table, offset) ← Parser.wordAt "'events' or 'flows'"
  unless ["events", "flows"].any (Text.sameLetters table) do
    Parser.failAt offset ("unknown table '" ++ table ++ "'")
  let filter ← if ← Parser.takeKeyword "WHERE" then do
      pure (some (← Expression.parse connectives atClause term))
    else pure none
  let clauses ← Parser.iterate clause {}
  return toRule filter clauses

def read (text : String) : Except RuleError Rule :=
  Dialect.located .qradar text (Dialect.readTokens quoting query text)

end DetectionRules.QRadar

namespace DetectionRules.QRadar

def isPlainColumn (field : String) : Bool :=
  !field.isEmpty && (field.toList.all (fun c => c.isAlphanum || c == '_' || c == '.')
    || sourceCalls.contains field)

def column (field : String) : String :=
  if isPlainColumn field then field else Text.doubleQuote field

def valueText : Value → String
  | .int number => (Value.int number).text
  | .str text => Text.singleQuote text

def anchored (op : Operator) (text : String) : String :=
  match op with
  | .startsWith => "^" ++ Regex.escape text
  | .endsWith => Regex.escape text ++ "$"
  | _ => Regex.escape text

def disjunctionText : String := " OR "

def matchesText (field pattern : String) : String :=
  column field ++ " MATCHES " ++ Text.singleQuote pattern

def globTest (test : FieldTest) : String :=
  let text := test.values.head?.elim "" (·.text)
  if Text.containsChar text '%' || Text.containsChar text '_' then
    matchesText test.field (anchored test.op text)
  else
    let glob := (Glob.ofOperator? '%' text.toList test.op).getD text.toList
    column test.field ++ " LIKE " ++ Text.singleQuote (String.ofList glob)

def regexTest (test : FieldTest) : String :=
  matchesText test.field (test.values.head?.elim "" (·.text))

def renderTest (test : FieldTest) : Except RuleError String :=
  match test.op with
  | .equals =>
      match test.values with
      | [value] => .ok (column test.field ++ " = " ++ valueText value)
      | values => .ok (column test.field ++ " IN (" ++
          String.intercalate ", " (values.map valueText) ++ ")")
  | .contains | .startsWith | .endsWith =>
      Expression.renderAlternatives disjunctionText (fun test => .ok (globTest test)) test
  | .regex => Expression.renderAlternatives disjunctionText (fun test => .ok (regexTest test)) test
  | .gt | .gte | .lt | .lte =>
      .ok (column test.field ++ " " ++ test.op.sign?.getD ">" ++ " " ++
        test.values.head?.elim "" (·.text))

def spelling : Expression.Spelling FieldTest where
  term := renderTest
  conjunction := " AND "
  disjunction := disjunctionText
  negation := fun inner => "NOT " ++ inner

def sourceTests (source : LogSource) : List String :=
  [(typeCall, source.product), (categoryCall, source.category), (sourceCall, source.service)].filterMap
    fun (call, value) => value.map fun value => call ++ " = " ++ Text.singleQuote value

def unitText : TimeUnit → String
  | .second => "SECONDS"
  | .minute => "MINUTES"
  | .hour => "HOURS"
  | .day => "DAYS"

def columnsText (aggregation : Option Aggregation) : String :=
  match aggregation with
  | some aggregation =>
      String.intercalate ", " (aggregation.groupBy.map column ++ ["COUNT(*) AS event_count"])
  | none => "*"

def aggregationText (aggregation : Aggregation) : String :=
  let groups := if aggregation.groupBy.isEmpty then ""
    else " GROUP BY " ++ String.intercalate ", " (aggregation.groupBy.map column)
  let counted := match aggregation.counted with
    | .events => "COUNT(*)"
    | .distinct field => "UNIQUECOUNT(" ++ column field ++ ")"
  let window := match aggregation.window with
    | some window =>
        let (amount, timeUnit) := window.amount
        " LAST " ++ toString amount ++ " " ++ unitText timeUnit
    | none => ""
  groups ++ " HAVING " ++ counted ++ " " ++ aggregation.comparison.singleSign ++ " " ++
    toString aggregation.threshold ++ window

def write (rule : Rule) : Except RuleError String := do
  Dialect.ensureWritable .qradar rule
  let expression ← Dialect.expression .qradar rule
  let sources := sourceTests rule.logSource
  let text ← Expression.render spelling expression
  let filter := sources ++ [Expression.encloseIf (expression.isDisjunction && !sources.isEmpty) text]
  return "SELECT " ++ columnsText rule.aggregation ++ " FROM events WHERE " ++
    String.intercalate " AND " filter ++ rule.aggregation.elim "" aggregationText

end DetectionRules.QRadar
