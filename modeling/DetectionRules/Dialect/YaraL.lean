import DetectionRules.Dialect.Named
import DetectionRules.Expression.Grammar

/-!
Reading YARA-L rules. The events section tests fields of event variables and
binds fields to placeholders; the match section groups events by placeholders
over a stretch of time; the condition is over the event variables and holds at
most one threshold. The tests of one event variable become selections.

Writing YARA-L rules over a single event variable. Each conjunct is a line of
the events section, and fields to group by are bound to placeholders after
them. A threshold needs fields to group by and a stretch of time.
-/

namespace DetectionRules.YaraL

def eventConnectives : Expression.Connectives where
  conjunction := "and"
  disjunction := "or"
  negations := ["not"]
  adjacency := true
  exactCase := true

def conditionConnectives : Expression.Connectives := { eventConnectives with adjacency := false }

def atSection (tokens : List Token) : Bool :=
  Parser.nextIsSign "\x7d" tokens
    || ["meta:", "events:", "match:", "outcome:", "condition:"].any fun heading =>
      Parser.nextIsWord heading tokens

def atSectionOrEnd (tokens : List Token) : Bool := tokens.isEmpty || atSection tokens

def after? (lead : Char) (word : String) : Option String :=
  match word.toList with
  | c :: rest => if c = lead then some (String.ofList rest) else none
  | [] => none

/-- The variable and the field of a path such as `$e.principal.hostname`. -/
def path? (word : String) : Option (String × String) := do
  let path ← after? '$' word
  let event := String.ofList (path.toList.takeWhile (· != '.'))
  let field := String.ofList ((path.toList.dropWhile (· != '.')).drop 1)
  if Named.isIdentifier event && !field.isEmpty then some (event, field) else none

def path : Parser (String × String) := do
  let (word, offset) ← Parser.wordAt "an event field"
  match path? word with
  | some path => return path
  | none => Parser.failAt offset ("expected $var.field, found '" ++ word ++ "'")

inductive Predicate where
  | test (event : String) (fieldTest : FieldTest)
  | binding (placeholder field : String)

namespace Predicate

def test? : Predicate → Option (String × FieldTest)
  | .test event fieldTest => some (event, fieldTest)
  | .binding _ _ => none

def binding? : Predicate → Option (String × String)
  | .test _ _ => none
  | .binding placeholder field => some (placeholder, field)

end Predicate

def anchored (op : Operator) (text : String) : String :=
  let escaped := Regex.escape text
  match op with
  | .equals => "^" ++ escaped ++ "$"
  | .startsWith => "^" ++ escaped
  | .endsWith => escaped ++ "$"
  | _ => escaped

/-- The test whatever the case of letters, as a regular expression. -/
def ignoringCase (test : FieldTest) : FieldTest :=
  if test.op.isComparison then test
  else
    let pattern (value : Value) : String :=
      if test.op = .regex then
        if Text.startsWith value.text "(?i)" then value.text else "(?i)" ++ value.text
      else "(?i)" ++ anchored test.op value.text
    ⟨test.field, .regex, test.values.map fun value => .str (pattern value)⟩

/-- Takes the request to ignore case that may follow a test. -/
def withCase (test : FieldTest) : Parser FieldTest := do
  return if ← Parser.takeWord "nocase" then ignoringCase test else test

/-- The operator and the text of a pattern that is a quoted text between `\Q` and `\E`. -/
def quotedText? (pattern : String) : Option (Operator × String) :=
  let characters := pattern.toList
  let atStart := characters.head? == some '^'
  let rest := if atStart then characters.drop 1 else characters
  let atEnd := rest.getLast? == some '$'
  let quoted := if atEnd then rest.dropLast else rest
  let text := (quoted.drop 2).take (quoted.length - 4)
  if quoted == '\\' :: 'Q' :: text ++ ['\\', 'E'] && !Text.occursIn ['\\', 'E'] text then
    let op := match atStart, atEnd with
      | false, false => Operator.contains
      | true, false => .startsWith
      | false, true => .endsWith
      | true, true => .equals
    some (op, String.ofList text)
  else none

def regexCall : Parser (Logic Predicate) := do
  Parser.skip
  Parser.sign "("
  let (event, field) ← path
  Parser.sign ","
  let pattern ← Parser.literal "a regular expression"
  Parser.sign ")"
  let test ← match quotedText? pattern.text with
    | some (op, text) => pure (FieldTest.single field op (.str text))
    | none => do
        Dialect.ensureShortRegex pattern.offset pattern.text
        pure (FieldTest.single field .regex (.str pattern.text))
  return .term (.test event (← withCase test))

/-- The value of a word, which must be a number or a truth value. -/
def wordValue (word : String) (offset : Option Nat) : Parser Value :=
  match Text.int64OfText? word with
  | some number => return .int number
  | none =>
      if word == "true" || word == "false" then return .str word
      else Parser.failAt offset ("expected a quoted value, found '" ++ word ++ "'")

def placeholder? (word : String) : Option String :=
  if Text.containsChar word '.' then none else after? '$' word

/-- The test of a field or the binding of a placeholder, after a sign of (in)equality. -/
def equality (event field : String) (negated : Bool) : Parser (Logic Predicate) := do
  let offset ← Parser.offset
  match ← get with
  | ⟨.word word, _⟩ :: _ =>
      match placeholder? word with
      | some placeholder =>
          if negated then Parser.failAt offset "placeholders can only be bound with '='"
          Parser.skip
          return .term (.binding placeholder field)
      | none =>
          Parser.skip
          finish (.single field .equals (← wordValue word offset))
  | ⟨.quoted text, _⟩ :: _ =>
      Parser.skip
      finish (.single field .equals (.str text))
  | ⟨.pattern body flags, _⟩ :: _ =>
      Parser.skip
      finish (.single field .regex (← Dialect.slashedRegex offset body flags))
  | _ => Parser.expected "a value"
where
  finish (test : FieldTest) : Parser (Logic Predicate) := do
    let term := Logic.term (Predicate.test event (← withCase test))
    return if negated then Logic.negate term else term

def predicate : Parser (Logic Predicate) := do
  if ← Parser.sees fun tokens =>
      Parser.nextIsWord "re.regex" tokens && Parser.secondIsSign "(" tokens then regexCall
  else
    let (event, field) ← path
    if ← Parser.takeSign "=" then equality event field false
    else if ← Parser.takeSign "!=" then equality event field true
    else match ← Dialect.takeComparison? with
      | some op => return .term (.test event (.single field op (← Parser.integer)))
      | none => Parser.expected "a comparison operator"

/-- An event variable with what its events must fulfil. -/
structure EventGroup where
  event : String
  predicates : List (Logic FieldTest)

def addPredicate (event : String) (predicate : Logic FieldTest) :
    List EventGroup → List EventGroup
  | [] => [⟨event, [predicate]⟩]
  | group :: rest =>
      if group.event = event then
        { group with predicates := group.predicates ++ [predicate] } :: rest
      else group :: addPredicate event predicate rest

def group (groups : List EventGroup) (conjunct : Logic (String × FieldTest)) :
    Parser (List EventGroup) :=
  match (conjunct.terms.map (·.1)).eraseDups with
  | [event] => return addPredicate event (conjunct.map (·.2)) groups
  | _ => Parser.unsupported "predicates spanning several event variables"

/-- The predicates by event variable, and the fields that placeholders stand for. -/
def events : Parser (List EventGroup × List (String × String)) := do
  let offset ← Parser.offset
  let predicates ← Expression.parse eventConnectives atSection predicate
  match (predicates.map Predicate.test?).flatten with
  | none => Parser.failAt offset "events section has no predicates"
  | some tests =>
      let groups ← tests.conjuncts.foldlM group []
      return (groups, predicates.terms.filterMap Predicate.binding?)

def matchVariable (placeholders : List (String × String)) : Parser String := do
  let (word, offset) ← Parser.wordAt "a match variable"
  match path? word with
  | some (_, field) => return field
  | none =>
      match placeholders.lookup ((after? '$' word).getD word) with
      | some field => return field
      | none => Parser.failAt offset ("unbound match variable '" ++ word ++ "'")

def matchSection (placeholders : List (String × String)) : Parser (List String × TimeWindow) := do
  let fields ← Parser.sepBy (Parser.takeSign ",") (matchVariable placeholders)
  Parser.keyword "over"
  let (text, offset) ← Parser.wordAt "a time window"
  match TimeWindow.ofText? text with
  | some window => return (fields, window)
  | none => Parser.failAt offset ("invalid time window '" ++ text ++ "'")

def nextIsAssignment : List Token → Bool
  | ⟨.word word, _⟩ :: rest => (after? '$' word).isSome && Parser.nextIsSign "=" rest
  | _ => false

/-- Drops an outcome, up to the next one or the next section outside its parentheses. -/
def dropOutcome : Nat → List Token → List Token
  | _, [] => []
  | depth, token :: rest =>
      if depth = 0 && (atSection (token :: rest) || nextIsAssignment (token :: rest)) then
        token :: rest
      else match token.lexeme with
        | .symbol "(" => dropOutcome (depth + 1) rest
        | .symbol ")" => dropOutcome (depth - 1) rest
        | _ => dropOutcome depth rest

/-- A variable of the outcome section, with the field whose different values it counts. -/
def outcome : Parser (Option (String × Option String)) := do
  if ← Parser.sees atSectionOrEnd then return none
  let (word, offset) ← Parser.wordAt "an outcome variable"
  match (after? '$' word).filter Named.isIdentifier with
  | none => Parser.failAt offset ("expected an outcome variable, found '" ++ word ++ "'")
  | some name =>
      Parser.sign "="
      if ← Parser.sees fun tokens =>
          Parser.nextIsWord "count_distinct" tokens && Parser.secondIsSign "(" tokens then
        Parser.skip
        Parser.skip
        let (_, field) ← path
        Parser.sign ")"
        return some (name, some field)
      else
        modify (dropOutcome 0)
        return some (name, none)

structure Threshold where
  counted : Counted
  comparison : Comparison
  value : UInt64

/-- A term of the condition: that events occur, how many, or how many different values. -/
inductive Requirement where
  | occurs (event : String)
  | counts (event : String) (threshold : Threshold)
  | countsValues (threshold : Threshold)

namespace Requirement

def event? : Requirement → Option String
  | occurs event | counts event _ => some event
  | countsValues _ => none

def threshold? : Requirement → Option Threshold
  | occurs _ => none
  | counts _ threshold | countsValues threshold => some threshold

end Requirement

def isComparison (token : Token) : Bool :=
  match token.lexeme with
  | .symbol sign => (Comparison.ofSign? sign).isSome
  | _ => false

/-- A threshold; `passed` are the tokens of the condition before it, and only another
threshold can have left a sign of comparison among them. -/
def threshold (passed : List Token) (offset : Option Nat) (counted : Counted) :
    Parser Threshold := do
  if passed.any isComparison then
    Parser.failAt offset "only one count threshold is supported"
  let comparison ← Dialect.comparisonOr "a comparison"
  return ⟨counted, comparison, ← Parser.number "a threshold"⟩

def requirement (events : List String) (outcomes : List (String × Option String))
    (condition : List Token) : Parser (Logic Requirement) := do
  let passed := condition.take (condition.length - (← get).length)
  let (word, offset) ← Parser.wordAt "an event variable"
  match after? '#' word, after? '$' word with
  | some event, _ =>
      if !events.contains event then
        Parser.failAt offset ("undefined event variable '$" ++ event ++ "'")
      return .term (.counts event (← threshold passed offset .events))
  | none, some name =>
      if events.contains name then return .term (.occurs name)
      else match outcomes.lookup name with
        | some (some field) =>
            return .term (.countsValues (← threshold passed offset (.distinct field)))
        | some none => Parser.unsupported "conditions on computed outcome values"
        | none => Parser.failAt offset ("undefined variable '" ++ word ++ "'")
  | none, none => Parser.failAt offset ("expected an event variable, found '" ++ word ++ "'")

def toSelections (isPrefixed : Bool) (group : EventGroup) : List Selection × Logic String :=
  let (selections, condition) := Expression.toSelections (Logic.conj group.predicates)
  if isPrefixed then
    let rename (name : String) := group.event ++ "_" ++ name
    (selections.map fun selection => { selection with name := rename selection.name },
      condition.map rename)
  else (selections, condition)

def aggregation? (threshold : Option Threshold) (matched : Option (List String × TimeWindow)) :
    Option Aggregation :=
  if threshold.isNone && matched.isNone then none
  else
    let ⟨counted, comparison, value⟩ := threshold.getD ⟨.events, .gt, 0⟩
    some ⟨counted, matched.elim [] (·.1), comparison, value, matched.map (·.2)⟩

def optionalSection {Part : Type} (heading : String) (part : Parser Part) :
    Parser (Option Part) := do
  if ← Parser.takeWord heading then return some (← part) else return none

def rule : Parser Rule := do
  Named.heading "rule"
  let (name, offset) ← Parser.wordAt "a rule name"
  if !Named.isIdentifier name then
    Parser.failAt offset ("invalid rule name '" ++ name ++ "'")
  Parser.sign "\x7b"
  let metadata ← Named.metadata atSection
  Named.heading "events:"
  let (groups, placeholders) ← events
  let matched ← optionalSection "match:" (matchSection placeholders)
  let outcomes ← optionalSection "outcome:" (Parser.many outcome)
  Named.heading "condition:"
  let requirements ← Expression.parse conditionConnectives (Parser.nextIsSign "\x7d")
    (requirement (groups.map (·.event)) (outcomes.getD []).reverse (← get))
  Parser.sign "\x7d"
  if !(← Parser.atEnd) then Parser.expected "end of rule"
  match (requirements.map Requirement.event?).flatten with
  | none => Parser.failAt (some 0) "condition references no event variable"
  | some condition =>
      let parts := groups.map fun group =>
        (group.event, toSelections (1 < groups.length) group)
      return {
        dialect := .yaral
        title := some ((metadata.lookup "title").getD name)
        description := metadata.lookup "description"
        logSource := metadata.logSource
        selections := parts.flatMap fun (_, selections, _) => selections
        condition := condition.bind fun event =>
          ((parts.lookup event).map (·.2)).getD (.term event)
        aggregation := aggregation? (requirements.terms.findSome? Requirement.threshold?) matched }

def read (text : String) : Except RuleError Rule :=
  Dialect.located .yaral text
    (Dialect.readTokens { slashes := true, backticks := true } rule text)

end DetectionRules.YaraL

namespace DetectionRules.YaraL

def eventVariable : String := "e"

def distinctOutcome : String := "distinct_count"

def isFieldPath (field : String) : Bool :=
  !field.isEmpty && field.toList.head? != some '.' && field.toList.getLast? != some '.'
    && field.toList.all fun c => c.isAlphanum || c == '_' || c == '.'

def pathText (field : String) : Except RuleError String :=
  if isFieldPath field then .ok ("$" ++ eventVariable ++ "." ++ field)
  else .error (.unsupported .yaral ("the field name '" ++ field ++ "'"))

def valueText : Value → String
  | .int number => (Value.int number).text
  | .str text => Text.doubleQuote text

/-- A pattern between back ticks, or quotes if it has a back tick itself. -/
def patternText (pattern : String) : String :=
  if Text.containsChar pattern '\x60' then Text.doubleQuote pattern
  else "\x60" ++ pattern ++ "\x60"

/-- The pattern of a test for a text, which is quoted as a whole where it can be. -/
def textPattern (op : Operator) (text : String) : String :=
  if Text.contains text "\\E" then anchored op text
  else match op with
    | .startsWith => "^\\Q" ++ text ++ "\\E"
    | .endsWith => "\\Q" ++ text ++ "\\E$"
    | _ => "\\Q" ++ text ++ "\\E"

def disjunctionText : String := " or "

def renderTest (test : FieldTest) : Except RuleError String := do
  let path ← pathText test.field
  let first (test : FieldTest) : Value := test.values.head?.getD (.str "")
  let alternatives (single : Value → String) :=
    Expression.renderAlternatives disjunctionText (fun test => .ok (single (first test))) test
  let call (pattern : String) := "re.regex(" ++ path ++ ", " ++ patternText pattern ++ ")"
  match test.op with
  | .equals => alternatives fun value => path ++ " = " ++ valueText value
  | .gt | .gte | .lt | .lte =>
      return path ++ " " ++ test.op.sign?.getD ">" ++ " " ++ (first test).text
  | .regex => alternatives fun value => call value.text
  | .contains | .startsWith | .endsWith =>
      alternatives fun value => call (textPattern test.op value.text)

def spelling : Expression.Spelling FieldTest where
  term := renderTest
  conjunction := " and "
  disjunction := disjunctionText
  negation := fun inner => "not " ++ inner

def lastStep (field : String) : List Char :=
  ((Text.splitWhen (· == '.') field.toList).getLast?).getD []

/-- A placeholder for a field: the first of `host`, `host_2`, `host_3` and so on that is
not in use, after the last step of the field's path. -/
def placeholderName (field : String) (taken : List String) : String :=
  let step := String.ofList ((lastStep field).map fun c => if c.isAlphanum then c.toLower else '_')
  let base := if Named.isIdentifier step && step != eventVariable && step != distinctOutcome
    then step else "group_" ++ step
  let candidates := base :: (List.range taken.length).map fun count =>
    base ++ "_" ++ toString (count + 2)
  (candidates.find? fun candidate => !taken.contains candidate).getD base

def bindings (taken : List String) : List String → Except RuleError (List String × List String)
  | [] => .ok ([], taken)
  | field :: rest => do
      let placeholder := placeholderName field taken
      let path ← pathText field
      let (lines, names) ← bindings (taken ++ [placeholder]) rest
      return ((path ++ " = $" ++ placeholder) :: lines, names)

structure Sections where
  bindings : List String := []
  matchLines : List String := []
  outcomeLines : List String := []
  condition : String

def aggregationSections (aggregation : Aggregation) : Except RuleError Sections :=
  match aggregation.groupBy, aggregation.window with
  | _ :: _, some window => do
      let (lines, names) ← bindings [] aggregation.groupBy
      let placeholders := String.intercalate ", " (names.map ("$" ++ ·))
      let limit := aggregation.comparison.singleSign ++ " " ++ toString aggregation.threshold
      let sections : Sections ← match aggregation.counted with
        | .events => pure { condition := "#" ++ eventVariable ++ " " ++ limit }
        | .distinct field => do
            let path ← pathText field
            pure {
              outcomeLines := ["$" ++ distinctOutcome ++ " = count_distinct(" ++ path ++ ")"]
              condition := "$" ++ eventVariable ++ " and $" ++ distinctOutcome ++ " " ++ limit }
      return { sections with
        bindings := lines
        matchLines := [placeholders ++ " over " ++ window.text] }
  | _, _ => .error (.unsupported .yaral "correlation without grouping fields and a time window")

def conjunctLine (conjunct : Logic FieldTest) : Except RuleError String := do
  return Expression.encloseIf conjunct.isDisjunction (← Expression.render spelling conjunct)

def sectionText (name : String) (lines : List String) : String :=
  "  " ++ name ++ ":\n" ++ String.join (lines.map fun line => "    " ++ line ++ "\n")

def optionalSectionText (name : String) (lines : List String) : String :=
  if lines.isEmpty then "" else sectionText name lines

def write (rule : Rule) : Except RuleError String := do
  Dialect.ensureWritable .yaral rule
  let expression ← Dialect.expression .yaral rule
  let conjuncts ← expression.conjuncts.mapM conjunctLine
  let sections ← match rule.aggregation with
    | some aggregation => aggregationSections aggregation
    | none => pure { condition := "$" ++ eventVariable }
  let name := Named.toIdentifier (rule.title.getD Named.defaultTitle)
  let metadata := Named.Metadata.ofRule rule name
  return "rule " ++ name ++ " \x7b\n"
    ++ optionalSectionText "meta" (metadata.map Named.Metadata.line)
    ++ sectionText "events" (conjuncts ++ sections.bindings)
    ++ optionalSectionText "match" sections.matchLines
    ++ optionalSectionText "outcome" sections.outcomeLines
    ++ sectionText "condition" [sections.condition] ++ "\x7d\n"

end DetectionRules.YaraL
