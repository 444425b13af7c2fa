import DetectionRules.Rule.Basic
import DetectionRules.Dialect.Basic
import DetectionRules.Expression.Grammar

/-!
What event names and platforms say about where events come from. Both tables
are read from left to right when a query is read, and from right to left when
one is written.

Reading CrowdStrike queries: stages between pipes. Filters of all stages are
conjoined; one stage may count events, and one after it may compare the count.
Stages that only shape the table are skipped.

Writing CrowdStrike queries. The source of events leads the filter as far as
the dialect has names for it, and the count follows with its threshold. A
literal asterisk and a field name with other characters than those of plain
names have no spelling.
-/

namespace DetectionRules.CrowdStrike

def eventField : String := "#event_simpleName"

def platformField : String := "event_platform"

/-- Event names and the categories of their events. -/
def events : List (String × String) :=
  [("ProcessRollup2", "process_creation"), ("NetworkConnectIP4", "network_connection"),
    ("DnsRequest", "dns_query"), ("NewExecutableWritten", "file_event"),
    ("RegGenericValueUpdate", "registry_set"), ("UserLogon", "authentication"),
    ("ImageHash", "image_load")]

def platforms : List (String × String) := [("Win", "windows"), ("Lin", "linux"), ("Mac", "macos")]

def categoryOf? (event : String) : Option String := events.lookup event

def productOf? (platform : String) : Option String := platforms.lookup platform

def eventOf? (category : String) : Option String :=
  (events.find? (·.2 == category)).map (·.1)

def platformOf? (product : String) : Option String :=
  (platforms.find? (·.2 == product)).map (·.1)

def sourceOf? (test : FieldTest) : Option LogSource :=
  match test.op, test.values with
  | .equals, [value] =>
      if test.field = eventField then
        (categoryOf? value.text).map fun category => { category := some category }
      else if test.field = platformField then
        (productOf? value.text).map fun product => { product := some product }
      else none
  | _, _ => none

/-- Adds a source to what is known, unless it says again what is known already. -/
def addSource? (known found : LogSource) : Option LogSource :=
  if (known.category.isSome && found.category.isSome)
      || (known.product.isSome && found.product.isSome) then none
  else some ⟨known.product.or found.product, known.category.or found.category, none⟩

end DetectionRules.CrowdStrike

namespace DetectionRules.CrowdStrike

/-- The field that quoted text without a field is looked for in. -/
def rawField : String := "@rawstring"

def countField : String := "_count"

def connectives : Expression.Connectives where
  conjunction := "and"
  disjunction := "or"
  negations := ["not", "!"]
  adjacency := true
  exactCase := false

def isShaping (call : String) : Bool :=
  ["table", "select", "sort", "head", "tail", "rename", "drop"].contains call

def isCounting (call : String) : Bool := ["groupby", "bucket", "count"].contains call

structure Stats where
  counted : Counted := .events
  groupBy : List String := []
  window : Option TimeWindow := none

/-- What the stages of a query have said so far. -/
structure Query where
  filters : List (Logic FieldTest) := []
  stats : Option Stats := none
  threshold : Option (Comparison × UInt64) := none

/-- Drops tokens up to the parenthesis that closes the innermost of `depth` calls. -/
def dropCall : Nat → List Token → Option (List Token)
  | 0, tokens => some tokens
  | _, [] => none
  | depth + 1, ⟨.symbol "(", _⟩ :: rest => dropCall (depth + 2) rest
  | depth + 1, ⟨.symbol ")", _⟩ :: rest => dropCall depth rest
  | depth + 1, _ :: rest => dropCall (depth + 1) rest

def skipCall : Parser Unit := do
  Parser.skip
  Parser.sign "("
  match dropCall 1 (← get) with
  | some rest => set rest
  | none =>
      set ([] : List Token)
      Parser.expected "')'"

/-- The test of a value that was written with or without quotes; only plain text without
quotes may stand for a number. -/
def literalTest (field : String) (literal : Parser.Literal) : FieldTest :=
  if literal.quoted && !Text.containsChar literal.text '*' then
    .single field .equals (.str literal.text)
  else .ofGlob field '*' literal.text

def equalityTest (field : String) : Parser FieldTest := do
  match ← get with
  | ⟨.pattern body flags, offset⟩ :: rest =>
      set rest
      return .single field .regex (← Dialect.slashedRegex (some offset) body flags)
  | _ => return literalTest field (← Parser.literal "a value")

def parameter? : Parser (Option String) := do
  if ← Parser.sees (Parser.secondIsSign "=") then
    let name ← Parser.word "a parameter"
    Parser.sign "="
    return some name
  else return none

def fieldName : Parser String := return (← Parser.literal "a field name").text

def comma : Parser Bool := Parser.takeSign ","

def fieldList : Parser (List String) := do
  if ← Parser.takeSign "[" then
    let fields ← Parser.sepBy comma fieldName
    Parser.sign "]"
    return fields
  else return [← fieldName]

def valueList : Parser (List Parser.Literal) := do
  Parser.sign "["
  if ← Parser.takeSign "]" then return []
  let values ← Parser.sepBy comma (Parser.literal "a value")
  Parser.sign "]"
  return values

def membershipArgument (arguments : Option String × List Parser.Literal) :
    Parser (Option String × List Parser.Literal) := do
  let (field, values) := arguments
  let offset ← Parser.offset
  match ← parameter? with
  | some "field" => return (some (← fieldName), values)
  | some "values" => return (field, ← valueList)
  | some name => Parser.failAt offset ("unsupported in() parameter '" ++ name ++ "'")
  | none =>
      if field.isNone then return (some (← fieldName), values)
      else Parser.expected "a named parameter"

/-- One or more arguments with commas between them, each given those before it. -/
def arguments {Arguments : Type} (argument : Arguments → Parser Arguments)
    (start : Arguments) : Parser Arguments := do
  let first ← argument start
  Parser.iterate (fun found => do
    if ← comma then return some (← argument found) else return none) first

/-- A test of a field against a list of values, as in `in(field=f, values=[a, "b", *c*])`. -/
def membership : Parser (Logic FieldTest) := do
  Parser.skip
  Parser.sign "("
  let (field, values) ← arguments membershipArgument (none, [])
  let closing ← Parser.offset
  Parser.sign ")"
  match field with
  | none => Parser.failAt closing "in() without a field"
  | some field =>
      if values.isEmpty then Parser.failAt closing "in() without values"
      return Logic.disj (values.map fun value => .term (literalTest field value))

def comparisonOf (field : Parser.Literal) : Parser (Logic FieldTest) := do
  if ← Parser.takeSign "=" then return .term (← equalityTest field.text)
  else if ← Parser.takeSign "!=" then
    return Logic.negate (.term (← equalityTest field.text))
  else match ← Dialect.takeComparison? with
    | some op => return .term (.single field.text op (← Parser.integer))
    | none =>
        let isAlone ← Parser.sees fun
          | ⟨.symbol _, _⟩ :: _ => false
          | _ => true
        if field.quoted && isAlone then
          return .term (.single rawField .contains (.str field.text))
        else Parser.expected "an operator"

def term : Parser (Logic FieldTest) := do
  if (Parser.nextCall? (← get)) == some "in" then membership
  else comparisonOf (← Parser.literal "a field filter")

def filter : Parser (Logic FieldTest) :=
  Expression.parse connectives (Parser.nextIsSign "|") term

def countArgument (field : Option String) (distinct : Bool) : Parser (Option String × Bool) := do
  let offset ← Parser.offset
  match ← parameter? with
  | some "field" | none => return ((← fieldList).head?, distinct)
  | some "distinct" => return (field, Text.sameLetters (← Parser.word "true or false") "true")
  | some name => Parser.failAt offset ("unsupported count() parameter '" ++ name ++ "'")

/-- A step through the arguments of `count`, with whether another argument may follow. -/
def countStep (state : (Option String × Bool) × Bool) :
    Parser (Option ((Option String × Bool) × Bool)) := do
  let ((field, distinct), more) := state
  if !more || (← Parser.sees (Parser.nextIsSign ")")) then return none
  else
    let found ← countArgument field distinct
    return some (found, ← comma)

/-- What is counted, as in `count()` or `count(f, distinct=true)`. -/
def countCall : Parser Counted := do
  let offset ← Parser.offset
  if (Parser.nextCall? (← get)) != some "count" then
    Parser.failAt offset "only count() aggregations are supported"
  Parser.skip
  Parser.sign "("
  let ((field, distinct), _) ← Parser.iterate countStep ((none, false), true)
  Parser.sign ")"
  match field, distinct with
  | some field, true => return .distinct field
  | none, true => Parser.failAt offset "distinct count without a field"
  | _, false => return .events

/-- One argument of `groupBy` or `bucket`; only the first of `groupBy` may lack a name. -/
def statsArgument (call : String) (state : Stats × Bool) : Parser (Stats × Bool) := do
  let (stats, isFirst) := state
  let offset ← Parser.offset
  match ← parameter? with
  | some "function" => return ({ stats with counted := ← countCall }, false)
  | some "field" => return ({ stats with groupBy := ← fieldList }, false)
  | some name =>
      if name == "span" && call == "bucket" then
        let literal ← Parser.literal "a time span"
        match TimeWindow.ofText? literal.text with
        | some window => return ({ stats with window := some window }, false)
        | none => Parser.failAt literal.offset ("invalid time span '" ++ literal.text ++ "'")
      else Parser.failAt offset ("unsupported " ++ call ++ "() parameter '" ++ name ++ "'")
  | none =>
      if isFirst && call == "groupby" then
        return ({ stats with groupBy := ← fieldList }, false)
      else Parser.expected "a named parameter"

def statsCall (call : String) : Parser Stats := do
  if call == "count" then return { counted := ← countCall }
  else
    Parser.skip
    Parser.sign "("
    let (stats, _) ← arguments (statsArgument call) ({}, true)
    Parser.sign ")"
    if call == "groupby" && stats.groupBy.isEmpty then
      Parser.fail "groupBy() needs at least one field"
    if call == "bucket" && stats.window.isNone then Parser.fail "bucket() needs a span"
    return stats

def threshold : Parser (Comparison × UInt64) := do
  let offset ← Parser.offset
  let field ← Parser.word countField
  if field != countField then
    Parser.failAt offset "only _count can be filtered after an aggregation"
  let comparison ← Dialect.comparisonOr "a comparison"
  return (comparison, ← Parser.number "a threshold")

/-- A stage that tests events, or their count once they are counted. -/
def testStage (query : Query) (offset : Option Nat) : Parser Query := do
  if query.stats.isSome then
    if query.threshold.isSome then Parser.failAt offset "only one _count filter is supported"
    return { query with threshold := some (← threshold) }
  else return { query with filters := query.filters ++ [← filter] }

def stage (query : Query) : Parser Query := do
  if ← Parser.atEnd then Parser.expected "a query stage"
  let offset ← Parser.offset
  match Parser.nextCall? (← get) with
  | none | some "in" => testStage query offset
  | some call =>
      if isCounting call then
        if query.stats.isSome then
          Parser.failAt offset "only one aggregation stage is supported"
        return { query with stats := some (← statsCall call) }
      else if isShaping call then
        skipCall
        return query
      else Parser.failAt offset ("unsupported function '" ++ call ++ "'")

/-- What tests say about the source of events, and the tests that say it again. -/
def liftSources (known : LogSource) : List FieldTest → LogSource × List FieldTest
  | [] => (known, [])
  | test :: rest =>
      match (sourceOf? test).bind (addSource? known) with
      | some source => liftSources source rest
      | none =>
          let (source, others) := liftSources known rest
          (source, test :: others)

/-- The source of events and the rest of an expression, which is left as it is if nothing
else is in it. -/
def liftSource (expression : Logic FieldTest) : LogSource × Logic FieldTest :=
  match Expression.liftTests (fun test => (sourceOf? test).isSome) expression with
  | (_, none) => ({}, expression)
  | (tests, some rest) =>
      let (source, others) := liftSources {} tests
      (source, Logic.conj (others.map .term ++ [rest]))

namespace Query

def aggregation (query : Query) : Option Aggregation :=
  query.stats.map fun stats =>
    let (comparison, threshold) := query.threshold.getD (.gt, 0)
    ⟨stats.counted, stats.groupBy, comparison, threshold, stats.window⟩

def toRule (query : Query) : Rule :=
  let (logSource, expression) := liftSource (Logic.conj query.filters)
  let (selections, condition) := Expression.toSelections expression
  { dialect := .crowdstrike
    title := none
    description := none
    logSource
    selections
    condition
    aggregation := query.aggregation }

end Query

def query : Parser Rule := do
  let first ← stage {}
  let query ← Parser.iterate (fun query => do
    if ← Parser.takeSign "|" then return some (← stage query) else return none) first
  if !(← Parser.atEnd) then Parser.expected "'|' or end of query"
  if query.filters.isEmpty then Parser.failAt (some 0) "query has no filter stage"
  return query.toRule

def read (text : String) : Except RuleError Rule :=
  Dialect.located .crowdstrike text (Dialect.readTokens { slashes := true } query text)

end DetectionRules.CrowdStrike

namespace DetectionRules.CrowdStrike

def isPlainField (field : String) : Bool :=
  !field.isEmpty && field.toList.all fun c => c.isAlphanum || "_.#@:-".toList.contains c

def fieldText (field : String) : Except RuleError String :=
  if isPlainField field then .ok field
  else .error (.unsupported .crowdstrike ("the field name '" ++ field ++ "'"))

/-- Whether a glob is read back as it is without quotes. -/
def isBareGlob (op : Operator) (glob : String) : Bool :=
  !glob.isEmpty && glob.toList.all (fun c => c.isAlphanum || "_.-:\\*".toList.contains c)
    && !(op = .equals && (Value.ofLiteral glob).int?.isSome)
    && ["and", "or", "not"].all (!Text.sameLetters glob ·)

def globText (op : Operator) (value : Value) : Except RuleError String :=
  match op, value with
  | .equals, .int number => .ok (Value.int number).text
  | op, value =>
      if Text.containsChar value.text '*' then
        .error (.unsupported .crowdstrike "a literal '*' in a value")
      else
        let text := value.text.toList
        let glob := String.ofList ((Glob.ofOperator? '*' text op).getD text)
        .ok (if isBareGlob op glob then glob else Text.doubleQuote glob)

/-- A pattern between slashes; a leading request to ignore case becomes a flag. -/
def slashed (pattern : String) : String :=
  let between (body : List Char) (flags : String) :=
    "/" ++ String.ofList (Text.replaceChar '/' ['\\', '/'] body) ++ "/" ++ flags
  match pattern.toList with
  | '(' :: '?' :: 'i' :: ')' :: body => between body "i"
  | body => between body ""

def firstText (test : FieldTest) : String := test.values.head?.elim "" (·.text)

def disjunctionText : String := " or "

def globTest (test : FieldTest) : Except RuleError String := do
  let globs ← test.values.mapM (globText test.op)
  match globs with
  | [glob] => return test.field ++ "=" ++ glob
  | globs =>
      return "in(field=" ++ Text.doubleQuote test.field ++ ", values=["
        ++ String.intercalate ", " globs ++ "])"

def renderTest (test : FieldTest) : Except RuleError String := do
  let field ← fieldText test.field
  match test.op with
  | .regex =>
      Expression.renderAlternatives disjunctionText
        (fun test => .ok (field ++ "=" ++ slashed (firstText test))) test
  | .gt | .gte | .lt | .lte => return field ++ test.op.sign?.getD ">" ++ firstText test
  | .contains =>
      if test.field = rawField then
        Expression.renderAlternatives disjunctionText
          (fun test => .ok (Text.doubleQuote (firstText test))) test
      else globTest test
  | .equals | .startsWith | .endsWith => globTest test

def spelling : Expression.Spelling FieldTest where
  term := renderTest
  conjunction := " "
  disjunction := disjunctionText
  negation := fun inner => "not " ++ inner

def countText : Counted → Except RuleError String
  | .events => .ok "count()"
  | .distinct field => do return "count(" ++ (← fieldText field) ++ ", distinct=true)"

def statsText (aggregation : Aggregation) : Except RuleError String := do
  let count ← countText aggregation.counted
  let fields ← aggregation.groupBy.mapM fieldText
  let list := "[" ++ String.intercalate ", " fields ++ "]"
  match aggregation.window, fields.isEmpty with
  | some window, true => return "bucket(span=" ++ window.text ++ ", function=" ++ count ++ ")"
  | some window, false =>
      return "bucket(span=" ++ window.text ++ ", field=" ++ list ++ ", function=" ++ count ++ ")"
  | none, true => return count
  | none, false => return "groupBy(" ++ list ++ ", function=" ++ count ++ ")"

def aggregationText (aggregation : Aggregation) : Except RuleError String := do
  return " | " ++ (← statsText aggregation) ++ " | " ++ countField ++ " "
    ++ aggregation.comparison.singleSign ++ " " ++ toString aggregation.threshold

def sourceTerms (source : LogSource) : List String :=
  [(source.category.bind eventOf?).map fun event => eventField ++ "=" ++ event,
    (source.product.bind platformOf?).map fun platform => platformField ++ "=" ++ platform].filterMap
    id

def write (rule : Rule) : Except RuleError String := do
  Dialect.ensureWritable .crowdstrike rule
  let expression ← Dialect.expression .crowdstrike rule
  let sources := sourceTerms rule.logSource
  let filter ← Expression.render spelling expression
  let enclosed := Expression.encloseIf (expression.isDisjunction && !sources.isEmpty) filter
  let stats ← match rule.aggregation with
    | some aggregation => aggregationText aggregation
    | none => pure ""
  return String.intercalate " " (sources ++ [enclosed]) ++ stats

end DetectionRules.CrowdStrike
