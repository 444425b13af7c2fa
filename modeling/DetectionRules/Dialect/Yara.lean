import DetectionRules.Dialect.Named
import DetectionRules.Expression.Grammar

/-!
Reading YARA rules. Each string becomes a selection that tests the content of
a file, and the condition is over the names of the strings. Whatever looks at
more than the presence of strings is not supported.

Writing YARA rules. Each value of a test becomes a string of its own; the
strings of a test are alternatives and the tests of a selection hold together.
Only tests of content have a spelling.
-/

namespace DetectionRules.Yara

def contentField : String := "content"

/-- The field of strings that are given by their bytes. -/
def bytesField : String := "content_hex"

def connectives : Expression.Connectives where
  conjunction := "and"
  disjunction := "or"
  negations := ["not"]
  adjacency := false
  exactCase := true

/-- Whether a modifier leaves the test of a string as it is. -/
def isNeutralModifier (word : String) : Bool :=
  ["ascii", "wide", "fullword", "private"].contains word

def isUnsupportedModifier (word : String) : Bool := ["xor", "base64", "base64wide"].contains word

def afterDollar? (word : String) : Option String :=
  match word.toList with
  | '$' :: name => some (String.ofList name)
  | _ => none

/-- The name of a rule, and tags after a colon, which say nothing about the test. -/
def ruleName : Parser String := do
  let (word, offset) ← Parser.wordAt "a rule name"
  let endsInColon := word.toList.getLast? == some ':'
  let name := if endsInColon then String.ofList word.toList.dropLast else word
  let tagged ← if endsInColon then pure true else Parser.takeWord ":"
  if !Named.isIdentifier name then
    Parser.failAt offset ("invalid rule name '" ++ name ++ "'")
  if tagged then
    Parser.skipUntil fun
      | ⟨.word _, _⟩ :: _ => false
      | _ => true
  return name

/-- Whole bytes in hexadecimal digits, with question marks for any digit. -/
def isHexDigit (c : Char) : Bool := Text.isHexDigit c || c == '?'

def isHexWord (word : String) : Bool :=
  word.utf8ByteSize % 2 == 0 && word.toList.all isHexDigit

def hexWord : Parser (Option String) := do
  match ← get with
  | ⟨.symbol "\x7d", _⟩ :: rest => set rest; return none
  | ⟨.symbol "[", _⟩ :: _ | ⟨.symbol "(", _⟩ :: _ | ⟨.symbol "|", _⟩ :: _ =>
      Parser.unsupported "hex jumps and alternatives"
  | ⟨.word word, _⟩ :: rest =>
      if isHexWord word then
        set rest
        return some (Text.upper word)
      else Parser.expected "hex bytes or '\x7d'"
  | _ => Parser.expected "hex bytes or '\x7d'"

def hexBytes : Parser String := do
  let start ← Parser.offset
  let words ← Parser.many hexWord
  if words.isEmpty then Parser.failAt start "empty hex string"
  return String.join words

def isFlags (flags : String) : Bool := flags.toList.all fun c => c == 'i' || c == 's'

def stringTest : Parser FieldTest := do
  match ← get with
  | ⟨.quoted text, _⟩ :: rest =>
      set rest
      return .single contentField .contains (.str text)
  | ⟨.pattern body flags, offset⟩ :: rest =>
      set rest
      if !isFlags flags then
        Parser.failAt (some offset) ("unsupported regex flags '" ++ flags ++ "'")
      let pattern := if flags.isEmpty then body else "(?" ++ flags ++ ")" ++ body
      Dialect.ensureShortRegex (some offset) pattern
      return .single contentField .regex (.str pattern)
  | ⟨.symbol "\x7b", _⟩ :: rest =>
      set rest
      return .single bytesField .equals (.str (← hexBytes))
  | _ => Parser.expected "a string value"

/-- The test of the same string whatever the case of letters. -/
def ignoringCase (test : FieldTest) : FieldTest :=
  let text := test.values.head?.elim "" (·.text)
  let pattern :=
    if test.op = .regex then
      if Text.startsWith text "(?" then text else "(?i)" ++ text
    else "(?i)" ++ Regex.escape text
  .single contentField .regex (.str pattern)

def modifier (test : FieldTest) : Parser (Option FieldTest) := do
  match ← get with
  | ⟨.word word, offset⟩ :: rest =>
      if (afterDollar? word).isSome || word == "condition:" then return none
      else if word == "nocase" && test.field == contentField then
        set rest
        return some (ignoringCase test)
      else if isNeutralModifier word then
        set rest
        return some test
      else if isUnsupportedModifier word then
        Parser.unsupported ("the '" ++ word ++ "' string modifier")
      else Parser.failAt (some offset) ("unknown string modifier '" ++ word ++ "'")
  | _ => return none

/-- A string with its modifiers, as in `$id = "text" wide`. -/
def stringDefinition : Parser Selection := do
  let (word, offset) ← Parser.wordAt "a string identifier"
  match (afterDollar? word).filter Named.isIdentifier with
  | none =>
      Parser.failAt offset ("expected a string identifier like $a, found '" ++ word ++ "'")
  | some name =>
      Parser.sign "="
      let test ← Parser.iterate modifier (← stringTest)
      return ⟨name, [test]⟩

def atStringsEnd (tokens : List Token) : Bool :=
  tokens.isEmpty || Parser.nextIsWord "condition:" tokens || Parser.nextIsSign "\x7d" tokens

def nextString (selections : List Selection) : Parser (Option (List Selection)) := do
  if ← Parser.sees atStringsEnd then return none
  let offset ← Parser.offset
  let selection ← stringDefinition
  if selections.any (·.name == selection.name) then
    Parser.failAt offset ("duplicate string '$" ++ selection.name ++ "'")
  return some (selections ++ [selection])

/-- The names that a reference stands for, which may end in an asterisk. -/
def matching (names : List String) (reference : String) : List String :=
  if reference.toList.getLast? == some '*' then
    names.filter fun name => reference.toList.dropLast.isPrefixOf name.toList
  else names.filter (· == reference)

def setMember (names : List String) : Parser (List String) := do
  let (word, offset) ← Parser.wordAt "a string reference"
  match afterDollar? word with
  | none => Parser.failAt offset ("expected a string reference, found '" ++ word ++ "'")
  | some reference =>
      let found := matching names reference
      if found.isEmpty then Parser.failAt offset ("no string matches '$" ++ reference ++ "'")
      return found

/-- All strings, or those that a list in parentheses refers to. -/
def stringSet (names : List String) : Parser (List String) := do
  if ← Parser.takeWord "them" then return names
  Parser.sign "("
  let members ← Parser.sepBy (Parser.takeSign ",") (setMember names)
  Parser.sign ")"
  return members.flatten.eraseDups

def quantified (quantifier : String) (names : List String) : Parser (Logic String) :=
  let terms := names.map Logic.term
  match quantifier with
  | "any" | "1" => return Logic.disj terms
  | "all" => return Logic.conj terms
  | "none" => return Logic.negate (Logic.disj terms)
  | _ => Parser.unsupported ("'" ++ quantifier ++ " of' quantifiers")

/-- Whether a word asks for more than the presence of strings. -/
def isMeasure (word : String) : Bool :=
  ["#", "@"].any (Text.startsWith word)
    || ["filesize", "entrypoint", "true", "false"].contains word

def reference (names : List String) : Parser (Logic String) := do
  match ← get with
  | ⟨.word word, offset⟩ :: rest =>
      if Parser.nextIsKeyword "of" rest then
        set (rest.drop 1)
        quantified word (← stringSet names)
      else match afterDollar? word with
        | some name =>
            if Parser.nextIsWord "at" rest || Parser.nextIsWord "in" rest then
              Parser.unsupported "string offsets in conditions"
            else if names.contains name then
              set rest
              return .term name
            else Parser.failAt (some offset) ("undefined string '" ++ word ++ "'")
        | none =>
            if isMeasure word || Parser.nextIsSign "(" rest then
              Parser.unsupported ("'" ++ word ++ "' in conditions")
            else Parser.expected "a string reference"
  | _ => Parser.expected "a string reference"

def isImport : Parser (Option Unit) := do
  if ← Parser.takeWord "import" then
    let _ ← Parser.literal "a module name"
    return some ()
  else return none

def isVisibility : Parser (Option Unit) := do
  if ← Parser.takeIf (fun tokens =>
      Parser.nextIsWord "private" tokens || Parser.nextIsWord "global" tokens) then
    return some ()
  else return none

def rule : Parser Rule := do
  let _ ← Parser.many isImport
  let _ ← Parser.many isVisibility
  Named.heading "rule"
  let name ← ruleName
  Parser.sign "\x7b"
  let metadata ← Named.metadata fun tokens =>
    Parser.nextIsWord "strings:" tokens || Parser.nextIsWord "condition:" tokens
  Named.heading "strings:"
  let selections ← Parser.iterate nextString []
  if selections.isEmpty then Parser.fail "rule defines no strings"
  Named.heading "condition:"
  let condition ← Expression.parse connectives (Parser.nextIsSign "\x7d")
    (reference (selections.map (·.name)))
  Parser.sign "\x7d"
  if !(← Parser.atEnd) then Parser.expected "end of rule"
  return {
    dialect := .yara
    title := some ((metadata.lookup "title").getD name)
    description := metadata.lookup "description"
    logSource := metadata.logSource
    selections
    condition
    aggregation := none }

def read (text : String) : Except RuleError Rule :=
  Dialect.located .yara text (Dialect.readTokens { slashes := true } rule text)

end DetectionRules.Yara

namespace DetectionRules.Yara

/-- A pattern between slashes; a leading group of flags goes behind it. -/
def slashed (pattern : String) : String :=
  let between (body flags : List Char) :=
    "/" ++ String.ofList (Text.replaceChar '/' ['\\', '/'] body) ++ "/" ++ String.ofList flags
  match pattern.toList with
  | '(' :: '?' :: rest =>
      let flags := rest.takeWhile (· != ')')
      if !flags.isEmpty && flags.length < rest.length && isFlags (String.ofList flags) then
        between (rest.drop (flags.length + 1)) flags
      else between ('(' :: '?' :: rest) []
  | body => between body []

def pairs : List Char → List String
  | first :: second :: rest => String.ofList [first, second] :: pairs rest
  | _ => []

def hexText (text : String) : Except RuleError String :=
  let compact := String.ofList (text.toList.filter fun c => !Text.isBlank c)
  if !compact.isEmpty && isHexWord compact then
    .ok ("\x7b " ++ Text.upper (String.intercalate " " (pairs compact.toList)) ++ " \x7d")
  else .error (.unwritable .yara ("'" ++ text ++ "' is not a hex string"))

def stringText (test : FieldTest) (value : Value) : Except RuleError String :=
  let isContent := test.field = contentField
  let isBytes := test.field = bytesField
  if isContent ∧ test.op = .contains then .ok (Text.doubleQuote value.text)
  else if isContent ∧ test.op = .regex then .ok (slashed value.text)
  else if isBytes ∧ test.op = .equals then hexText value.text
  else if isContent ∨ isBytes then
    .error (.unsupported .yara ("'" ++ test.op.name ++ "' matches on " ++ test.field))
  else .error (.unsupported .yara ("the field '" ++ test.field ++ "'"))

/-- The strings written so far, and how the selections read in terms of them. -/
structure Strings where
  definitions : List (String × String) := []
  selections : List (String × Logic String) := []

namespace Strings

/-- The first of `name`, `name_`, `name__` and so on that is not in use. -/
def freshName (strings : Strings) (name : String) : String :=
  let candidates := (List.range (strings.definitions.length + 1)).map fun count =>
    name ++ String.ofList (List.replicate count '_')
  (candidates.find? fun candidate => (strings.definitions.lookup candidate).isNone).getD name

def addValues (base : String) (isSingle : Bool) (test : FieldTest) (strings : Strings)
    (number : Nat) : List Value → Except RuleError (Strings × List (Logic String))
  | [] => .ok (strings, [])
  | value :: rest => do
      let name := strings.freshName (if isSingle then base else base ++ "_" ++ toString number)
      let text ← stringText test value
      let strings := { strings with definitions := strings.definitions ++ [(name, text)] }
      let (strings, others) ← addValues base isSingle test strings (number + 1) rest
      return (strings, .term name :: others)

def addTests (base : String) (isSingle : Bool) (strings : Strings) (number : Nat) :
    List FieldTest → Except RuleError (Strings × List (Logic String))
  | [] => .ok (strings, [])
  | test :: rest => do
      let (strings, values) ← addValues base isSingle test strings number test.values
      let (strings, others) ←
        addTests base isSingle strings (number + test.values.length) rest
      return (strings, Logic.disj values :: others)

def addSelection (strings : Strings) (selection : Selection) : Except RuleError Strings := do
  let count := (selection.tests.flatMap (·.values)).length
  let (strings, tests) ←
    addTests (Named.toIdentifier selection.name) (count == 1) strings 1 selection.tests
  return { strings with selections := strings.selections ++ [(selection.name, Logic.conj tests)] }

end Strings

def spelling : Expression.Spelling String where
  term := fun name => .ok ("$" ++ name)
  conjunction := " and "
  disjunction := " or "
  negation := fun inner => "not " ++ inner

def indented (line : String) : String := "        " ++ line ++ "\n"

def sectionText (name : String) (lines : List String) : String :=
  "    " ++ name ++ ":\n" ++ String.join (lines.map indented)

def write (rule : Rule) : Except RuleError String := do
  Dialect.ensureWritable .yara rule
  let mentioned := rule.selections.filter fun selection =>
    rule.condition.terms.contains selection.name
  let strings ← mentioned.foldlM Strings.addSelection {}
  let condition ← rule.condition.substitute fun name =>
    match strings.selections.lookup name with
    | some expression => .ok expression
    | none => .error (.unwritable .yara ("undefined selection '" ++ name ++ "'"))
  let name := Named.toIdentifier (rule.title.getD Named.defaultTitle)
  let metadata := Named.Metadata.ofRule rule name
  let conditionText ← Expression.render spelling condition
  return "rule " ++ name ++ "\n\x7b\n"
    ++ (if metadata.isEmpty then "" else sectionText "meta" (metadata.map Named.Metadata.line))
    ++ sectionText "strings" (strings.definitions.map fun (name, text) =>
      "$" ++ name ++ " = " ++ text)
    ++ sectionText "condition" [conditionText] ++ "\x7d\n"

end DetectionRules.Yara
