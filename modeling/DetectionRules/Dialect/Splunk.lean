import DetectionRules.Dialect.Basic
import DetectionRules.Expression.Grammar

/-!
Reading Splunk searches: a boolean search, then commands after pipes. Filters
of all commands are conjoined; `bucket` gives the window, `stats` the count and
the last `where` the threshold. Commands that only shape the table are skipped.

Writing Splunk searches. Where events come from leads the search, regular
expressions of the outermost conjunction follow it as commands, and the
threshold comes last. A literal asterisk and a regular expression inside a
group have no spelling.
-/

namespace DetectionRules.Splunk

/-- The field that terms without a field are looked for in. -/
def rawField : String := "_raw"

def connectives : Expression.Connectives where
  conjunction := "AND"
  disjunction := "OR"
  negations := ["NOT"]
  adjacency := true
  exactCase := true

def isShaping (command : String) : Bool :=
  ["table", "fields", "sort", "head", "tail", "dedup", "rename"].contains command

structure Stats where
  counted : Counted
  result : String
  groupBy : List String

structure Search where
  conjuncts : List (Logic FieldTest) := []
  span : Option TimeWindow := none
  stats : Option Stats := none
  threshold : Option (Comparison × UInt64) := none

namespace Search

def filter (search : Search) (expression : Logic FieldTest) : Search :=
  { search with conjuncts := search.conjuncts ++ [expression] }

end Search

def atPipe (tokens : List Token) : Bool := Parser.nextIsSign "|" tokens

def atPipeOrEnd (tokens : List Token) : Bool := tokens.isEmpty || atPipe tokens

def glob (field glob : String) : FieldTest := .ofGlob field '*' glob

def freeText (text : String) : FieldTest := glob rawField ("*" ++ text ++ "*")

def valueList (field : String) : Parser (Logic FieldTest) := do
  Parser.sign "("
  let element : Parser (Logic FieldTest) :=
    return .term (glob field (← Parser.literal "a list value").text)
  let first ← if ← Parser.sees (Parser.nextIsSign ")") then pure [] else do pure [← element]
  let others ← if first.isEmpty then pure [] else
    Parser.many do
      if !(← Parser.takeSign ",") then return none
      else if ← Parser.sees (Parser.nextIsSign ")") then return none
      else return some (← element)
  Parser.sign ")"
  if first.isEmpty then Parser.fail "IN list is empty"
  return Logic.disj (first ++ others)

def nextIsList : List Token → Bool
  | token :: rest => Parser.nextIsWord "IN" [token] && Parser.nextIsSign "(" rest
  | [] => false

def comparisonOf (field : String) : Parser (Logic FieldTest) := do
  if ← Parser.takeIf nextIsList then valueList field
  else if ← Parser.takeSign "=" then
    return .term (glob field (← Parser.literal "a value").text)
  else if ← Parser.takeSign "!=" then
    return Logic.negate (.term (glob field (← Parser.literal "a value").text))
  else match ← Dialect.takeComparison? with
    | some op => return .term (.single field op (← Dialect.integer))
    | none => return .term (freeText field)

def term : Parser (Logic FieldTest) := do
  let offset ← Parser.offset
  match ← Parser.next? with
  | some ⟨.word field, _⟩ => comparisonOf field
  | some ⟨.quoted text, _⟩ => return .term (freeText text)
  | some _ => Parser.failAt offset "expected a search term"
  | none => Parser.expected "a search term"

def search : Parser (Logic FieldTest) := Expression.parse connectives atPipe term

def regularExpression : Parser Value := do
  let literal ← Parser.literal "a regular expression"
  Dialect.ensureRegex literal.offset literal.text
  return .str literal.text

/-- The arguments of `regex`: a field, a sign and an expression, or an expression alone. -/
def regexCommand : Parser (Logic FieldTest) := do
  let named ← Parser.sees fun
    | ⟨.word _, _⟩ :: _ => true
    | _ => false
  let field ← if named then Parser.word "a field" else pure rawField
  let negated ←
    if ← Parser.takeSign "!=" then pure true
    else do
      if ← Parser.takeSign "=" then pure false
      else if field == rawField then pure false
      else Parser.expected "'=' or '!='"
  let test := Logic.term (FieldTest.single field .regex (← regularExpression))
  return if negated then Logic.negate test else test

def matchCall : Parser (Logic FieldTest) := do
  Parser.keyword "match"
  Parser.sign "("
  let field ← Parser.word "a field"
  Parser.sign ","
  let pattern ← regularExpression
  Parser.sign ")"
  return .term (.single field .regex pattern)

/-- The name of a result of `stats`, which may look like a call. -/
def subject : Parser String := do
  let word ← Parser.word "a stats result"
  if ← Parser.takeSign "(" then
    let field ← Parser.word "a field"
    Parser.sign ")"
    return word ++ "(" ++ field ++ ")"
  else return word

def nextIsMatch : List Token → Bool
  | token :: rest =>
      Parser.nextIsKeyword "NOT" [token]
        || (Parser.nextIsKeyword "match" [token] && Parser.nextIsSign "(" rest)
  | [] => false

def whereCommand (query : Search) : Parser Search := do
  if ← Parser.sees nextIsMatch then
    return query.filter (← Expression.parse connectives atPipe matchCall)
  else
    let offset ← Parser.offset
    let subject ← subject
    match query.stats with
    | none => Parser.failAt offset "threshold before any stats command"
    | some stats =>
        if subject != stats.result then
          Parser.failAt offset
            ("where compares '" ++ subject ++ "' but stats produces '" ++ stats.result ++ "'")
        let comparison ← Dialect.comparison
        let threshold ← Parser.number "a threshold"
        return { query with threshold := some (comparison, threshold) }

def bucketArgument (span : Option TimeWindow) : Parser (Option (Option TimeWindow)) := do
  if ← Parser.sees atPipeOrEnd then return none
  let (word, offset) ← Parser.wordAt "'_time' or 'span'"
  match word with
  | "_time" => return some span
  | "span" =>
      Parser.sign "="
      let literal ← Parser.literal "a time span"
      match TimeWindow.ofText? literal.text with
      | some window => return some (some window)
      | none => Parser.failAt literal.offset ("invalid span '" ++ literal.text ++ "'")
  | _ => Parser.failAt offset ("unexpected bucket argument '" ++ word ++ "'")

def bucketCommand : Parser TimeWindow := do
  match ← Parser.iterate bucketArgument none with
  | some window => return window
  | none => Parser.fail "bucket without a span"

/-- What is counted, and the name of the result unless another one is given. -/
def countCall : Parser (Counted × String) := do
  let (name, offset) ← Parser.wordAt "an aggregate function"
  match Text.lower name with
  | "count" =>
      if ← Parser.takeSign "(" then Parser.sign ")"
      return (.events, "count")
  | "dc" | "distinct_count" =>
      Parser.sign "("
      let field ← Parser.word "a field"
      Parser.sign ")"
      return (.distinct field, name ++ "(" ++ field ++ ")")
  | _ => Parser.failAt offset ("unsupported stats function '" ++ name ++ "'")

def groupFields : Parser (List String) :=
  Parser.sepBy
    (do if ← Parser.takeSign "," then return true else return !(← Parser.sees atPipeOrEnd))
    (Parser.word "a group-by field")

def statsCommand : Parser Stats := do
  let (counted, name) ← countCall
  let result ← if ← Parser.takeKeyword "AS" then Parser.word "an alias" else pure name
  let groupBy ← if ← Parser.takeKeyword "by" then groupFields else pure []
  if !(← Parser.sees atPipeOrEnd) then Parser.expected "'by' or '|'"
  return ⟨counted, result, groupBy.filter (· != "_time")⟩

def command (query : Search) : Parser Search := do
  let (name, offset) ← Parser.wordAt "a command"
  match Text.lower name with
  | "search" => return query.filter (← search)
  | "regex" => return query.filter (← regexCommand)
  | "where" => whereCommand query
  | "bucket" | "bin" => return { query with span := some (← bucketCommand) }
  | "stats" => return { query with stats := some (← statsCommand) }
  | known =>
      if isShaping known then
        Parser.skipUntil atPipe
        return query
      else Parser.failAt offset ("unsupported command '" ++ name ++ "'")

/-- Whether a test says where events come from or bounds the time of a search. -/
def isSourceTest (test : FieldTest) : Bool :=
  test.op = .equals && test.values.length = 1
    && ["index", "source", "sourcetype", "earliest", "latest"].contains test.field

def addSource (source : LogSource) (test : FieldTest) : LogSource :=
  match test.values with
  | [] => source
  | value :: _ =>
      match test.field with
      | "index" => { source with category := some value.text }
      | "source" => { source with product := some value.text }
      | "sourcetype" => { source with service := some value.text }
      | _ => source

namespace Search

def logic (query : Search) : List FieldTest × Option (Logic FieldTest) :=
  match Logic.group? Logic.conj query.conjuncts with
  | some expression => Expression.liftTests isSourceTest expression
  | none => ([], none)

def aggregation (query : Search) : Option Aggregation :=
  query.stats.map fun stats =>
    let (comparison, threshold) := query.threshold.getD (.gt, 0)
    ⟨stats.counted, stats.groupBy, comparison, threshold, query.span⟩

def toRule (query : Search) : Rule :=
  let (sources, rest) := query.logic
  let (selections, condition) := match rest with
    | some expression => Expression.toSelections expression
    | none => ([], .all [])
  { dialect := .splunk
    title := none
    description := none
    logSource := sources.foldl addSource {}
    selections
    condition
    aggregation := query.aggregation }

end Search

def query : Parser Rule := do
  let _ ← Parser.takeKeyword "search"
  let _ ← Parser.takeIf (Parser.nextIsWord "*")
  let start : Search ←
    if ← Parser.sees atPipeOrEnd then pure {} else do pure (Search.filter {} (← search))
  let query ← Parser.iterate (fun query => do
    if ← Parser.takeSign "|" then return some (← command query) else return none) start
  if !(← Parser.atEnd) then Parser.expected "'|' or end of search"
  return query.toRule

def read (text : String) : Except RuleError Rule :=
  Dialect.located .splunk text (Dialect.readTokens {} query text)

end DetectionRules.Splunk

namespace DetectionRules.Splunk

/-- Puts quotes around what would not be read as one word. -/
def quote (text : String) : String :=
  let special := text.isEmpty
    || text.toList.any (fun c => Text.isBlank c || "=!<>()[]\x7b\x7d,|\x22".toList.contains c)
    || ["AND", "OR", "NOT", "IN"].any (Text.sameLetters text)
  if special then Text.doubleQuote text else text

def literalText (value : Value) : Except RuleError String :=
  if Text.containsChar value.text '*' then
    .error (.unsupported .splunk "a literal '*' in a wildcard value")
  else .ok value.text

def quoteValue : Value → Except RuleError String
  | .int number => .ok (Value.int number).text
  | .str text =>
      if Text.containsChar text '*' then
        .error (.unsupported .splunk "a literal '*' in an equality value")
      else .ok (quote text)

def disjunctionText : String := " OR "

def globTest : FieldTest → Except RuleError String :=
  Expression.renderAlternatives disjunctionText fun test => do
    let text ← test.values.head?.elim (pure "") literalText
    let glob := (Glob.ofOperator? '*' text.toList test.op).getD text.toList
    return test.field ++ "=" ++ quote (String.ofList glob)

def freeTextTest : FieldTest → Except RuleError String :=
  Expression.renderAlternatives disjunctionText fun test => do
    return Text.doubleQuote (← test.values.head?.elim (pure "") literalText)

def renderTest (test : FieldTest) : Except RuleError String :=
  match test.op with
  | .equals => do
      let values ← test.values.mapM quoteValue
      match values with
      | [value] => return test.field ++ "=" ++ value
      | values => return test.field ++ " IN (" ++ String.intercalate ", " values ++ ")"
  | .contains => if test.field = rawField then freeTextTest test else globTest test
  | .startsWith | .endsWith => globTest test
  | .gt | .gte | .lt | .lte =>
      .ok (test.field ++ (test.op.sign?.getD ">") ++ (test.values.head?.elim "" (·.text)))
  | .regex => .error (.unsupported .splunk "regular expressions inside the search expression")

def spelling : Expression.Spelling FieldTest where
  term := renderTest
  conjunction := " "
  disjunction := disjunctionText
  negation := fun inner => "NOT " ++ inner

def matchCalls (test : FieldTest) : List String :=
  test.values.map fun value =>
    "match(" ++ test.field ++ ", " ++ Text.doubleQuote value.text ++ ")"

def whereAny (calls : List String) : String := "where " ++ String.intercalate " OR " calls

/-- A conjunct that is written as a command after the search. -/
def command? : Logic FieldTest → Option String
  | .term test =>
      if test.op = .regex then
        match test.values with
        | [value] => some ("regex " ++ test.field ++ "=" ++ Text.doubleQuote value.text)
        | _ => some (whereAny (matchCalls test))
      else none
  | .not (.term test) =>
      match test.op, test.values with
      | .regex, [value] => some ("regex " ++ test.field ++ "!=" ++ Text.doubleQuote value.text)
      | _, _ => none
  | .any items => do
      let tests ← items.mapM Logic.term?
      if tests.all (·.op = .regex) then some (whereAny (tests.flatMap matchCalls)) else none
  | _ => none

def sourceTerms (source : LogSource) : List String :=
  [("index", source.category), ("source", source.product), ("sourcetype", source.service)].filterMap
    fun (key, value) => value.map fun value => key ++ "=" ++ quote value

def searchTerms (sources : List String) (conjuncts : List (Logic FieldTest)) :
    Except RuleError (List String) :=
  match Logic.group? Logic.conj conjuncts with
  | none => .ok sources
  | some expression =>
      if expression.terms.any (·.op = .regex) then
        .error (.unsupported .splunk "regular expressions nested inside boolean groups")
      else do
        let text ← Expression.render spelling expression
        return sources ++
          [Expression.encloseIf (expression.isDisjunction && !sources.isEmpty) text]

def aggregationText (aggregation : Aggregation) : String :=
  let bucket := match aggregation.window with
    | some window => " | bucket _time span=" ++ window.text
    | none => ""
  let counted := match aggregation.counted with
    | .events => "count"
    | .distinct field => "dc(" ++ field ++ ") AS count"
  let groups := aggregation.groupBy ++ (if aggregation.window.isSome then ["_time"] else [])
  let byText := if groups.isEmpty then "" else " by " ++ String.intercalate ", " groups
  bucket ++ " | stats " ++ counted ++ byText ++ " | where count " ++ aggregation.comparison.sign
    ++ " " ++ toString aggregation.threshold

def write (rule : Rule) : Except RuleError String := do
  Dialect.ensureWritable .splunk rule
  let expression ← Dialect.expression .splunk rule
  let conjuncts := expression.conjuncts
  let terms ← searchTerms (sourceTerms rule.logSource)
    (conjuncts.filter fun item => (command? item).isNone)
  let search := if terms.isEmpty then "*" else String.intercalate " " terms
  let commands := conjuncts.filterMap command?
  return String.join (search :: commands.map (" | " ++ ·)) ++ (rule.aggregation.elim "" aggregationText)

end DetectionRules.Splunk
