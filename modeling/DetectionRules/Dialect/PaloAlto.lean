import DetectionRules.Dialect.Basic
import DetectionRules.Rule.Json
import DetectionRules.Dialect.Named

/-!
Condition trees of Palo Alto rules and their documents. An object is read as
the first kind of node that it has the members of; a member written twice
counts as missing, and other members are passed over.

Reading Palo Alto rules: the word `rule`, a name that is not used, and a JSON
object with the rule. What is wrong with the content of the object is shown at
its opening brace.

Writing Palo Alto rules, with the condition in a group of all even if it is a
single test.
-/

namespace DetectionRules.PaloAlto

/-- The operator of a leaf. Equality with one of several values has a name of its own. -/
inductive Relation where
  | within
  | is (op : Operator)
deriving DecidableEq

namespace Relation

def all : List Relation := within :: Operator.all.map is

def name : Relation → String
  | within => "in"
  | is .startsWith => "starts-with"
  | is .endsWith => "ends-with"
  | is op => op.name

def op : Relation → Operator
  | within => .equals
  | is op => op

/-- Reads a name, or an object that holds a name with null. -/
def ofJson? (json : Json) : Option Relation :=
  let ofName? (name : String) := all.find? fun relation => relation.name == name
  match json with
  | .str name => ofName? name
  | .object [(name, .null)] => ofName? name
  | _ => none

end Relation

inductive Condition where
  | all (items : List Condition)
  | any (items : List Condition)
  | not (item : Condition)
  | leaf (field : String) (relation : Relation) (value : Json)

namespace Condition

structure Member where
  name : String
  value : Json
  items? : Option (List Condition)
  item? : Option Condition

def only? (name : String) (members : List Member) : Option Member :=
  match members.filter (·.name == name) with
  | [member] => some member
  | _ => none

def leaf? (members : List Member) : Option Condition := do
  let field ← (← only? "field" members).value.str?
  let relation ← Relation.ofJson? (← only? "operator" members).value
  return leaf field relation (← only? "value" members).value

def ofMembers? (members : List Member) : Option Condition :=
  (((only? "all" members).bind (·.items?)).map all)
    |>.or (((only? "any" members).bind (·.items?)).map any)
    |>.or (((only? "not" members).bind (·.item?)).map not)
    |>.or (leaf? members)

mutual

def ofJson? : Json → Option Condition
  | .object members => ofMembers? (membersOf members)
  | _ => none

def membersOf : List (String × Json) → List Member
  | [] => []
  | (name, value) :: rest => ⟨name, value, itemsOf? value, ofJson? value⟩ :: membersOf rest

def itemsOf? : Json → Option (List Condition)
  | .array items => ofItems? items
  | _ => none

def ofItems? : List Json → Option (List Condition)
  | [] => some []
  | item :: rest =>
      match ofJson? item, ofItems? rest with
      | some first, some others => some (first :: others)
      | _, _ => none

end

mutual

def toJson : Condition → Json
  | all items => .object [("all", .array (itemsToJson items))]
  | any items => .object [("any", .array (itemsToJson items))]
  | not item => .object [("not", toJson item)]
  | leaf field relation value =>
      .object [("field", .str field), ("operator", .str relation.name), ("value", value)]

def itemsToJson : List Condition → List Json
  | [] => []
  | item :: rest => toJson item :: itemsToJson rest

end

end Condition

end DetectionRules.PaloAlto

namespace DetectionRules.PaloAlto

def maxBytes : Nat := 50000

def maxDepth : Nat := 64

def isNamePart (c : Char) : Bool := c.isAlphanum || c == '_' || c == '-'

def body (text : List Char) : Except Fault (List Char) :=
  let fault (rest : List Char) (reason : String) : Except Fault (List Char) :=
    .error (.malformed (some (Text.byteCount text - Text.byteCount rest)) reason)
  match Text.dropBlanks text with
  | 'r' :: 'u' :: 'l' :: 'e' :: rest =>
      if !rest.head?.any Text.isBlank then fault rest "expected a rule name after 'rule'"
      else
        let named := Text.dropBlanks rest
        if !named.head?.any isNamePart then fault named "expected a rule name"
        else
          let object := Text.dropBlanks (named.dropWhile isNamePart)
          if object.head? == some '\x7b' then .ok object else fault object "expected '\x7b'"
  | rest => fault rest "expected 'rule'"

def shape : Json.Shape := .record
  [("name", .text, true), ("description", .optional .text, false),
    ("severity", .choice ["critical", "high", "medium", "low", "informational"], true),
    ("logsource", LogSource.shape, false),
    ("conditions", .passing fun json => (Condition.ofJson? json).isSome, true),
    ("actions", .list .text, true)]

def placeInside (start : Position) (object : List Char) (offset : Nat) : Position :=
  let before := bytesBefore offset object
  let lines := (before.filter (· == '\n')).length
  let column := Text.byteCount (before.reverse.takeWhile (· != '\n'))
  let excess := offset - Text.byteCount before
  if lines = 0 then ⟨start.line, start.column + (column + excess - 1)⟩
  else ⟨start.line + lines, column + excess⟩
where
  /-- The characters that end within a number of bytes. -/
  bytesBefore : Nat → List Char → List Char
    | _, [] => []
    | bytes, c :: rest => if c.utf8Size ≤ bytes then c :: bytesBefore (bytes - c.utf8Size) rest else []

def scalar (field : String) : Json → Except String Value
  | .int number =>
      match Text.int64? number with
      | some number => .ok (.int number)
      | none => .error ("'" ++ field ++ "' must be an integer")
  | .float _ => .error ("'" ++ field ++ "' must be an integer")
  | .str text => .ok (.str text)
  | _ => .error ("unsupported value for '" ++ field ++ "'")

def values (field : String) (relation : Relation) (value : Json) : Except String (List Value) :=
  match relation, value with
  | .is .equals, value => (scalar field value).map ([·])
  | _, .array items => items.mapM (scalar field)
  | .within, _ => .error ("'in' on '" ++ field ++ "' needs a list")
  | _, value => (scalar field value).map ([·])

def leafTest (field : String) (relation : Relation) (value : Json) : Except String FieldTest := do
  if field.isEmpty then throw "condition with an empty field"
  let values ← values field relation value
  if values.isEmpty then throw ("'" ++ field ++ "' has no values")
  let op := relation.op
  if op.isComparison && !(values.length == 1 && values.all (·.int?.isSome)) then
    throw ("comparison on '" ++ field ++ "' needs one integer")
  if op = .regex && !values.all (fun value => Regex.isValid value.text) then
    throw ("invalid regex on '" ++ field ++ "': <regex error>")
  return ⟨field, op, values⟩

mutual

def toLogic (levels : Nat) : Condition → Except String (Logic FieldTest)
  | .all items => toGroup levels "all" Logic.conj items
  | .any items => toGroup levels "any" Logic.disj items
  | .not item =>
      match levels with
      | 0 => .error "condition tree nested too deeply"
      | levels + 1 => (toLogic levels item).map Logic.negate
  | .leaf field relation value =>
      match levels with
      | 0 => .error "condition tree nested too deeply"
      | _ + 1 => (leafTest field relation value).map .term

def toGroup (levels : Nat) (name : String) (join : List (Logic FieldTest) → Logic FieldTest)
    (items : List Condition) : Except String (Logic FieldTest) :=
  match levels with
  | 0 => .error "condition tree nested too deeply"
  | levels + 1 =>
      if items.isEmpty then .error ("empty '" ++ name ++ "' group")
      else (toLogicAll levels items).map join

def toLogicAll (levels : Nat) : List Condition → Except String (List (Logic FieldTest))
  | [] => .ok []
  | item :: rest => do
      let first ← toLogic levels item
      let others ← toLogicAll levels rest
      return first :: others

end

def toRule (json : Json) : Except String Rule := do
  let name := ((json.member? "name").bind (·.str?)).getD ""
  let actions := ((json.member? "actions").bind (·.array?)).getD []
  if Text.isAllBlank name then throw "rule name is empty"
  if actions.isEmpty then throw "rule has no actions"
  let tree := ((json.member? "conditions").bind Condition.ofJson?).getD (.all [])
  let (selections, condition) := Expression.toSelections (← toLogic (maxDepth + 1) tree)
  return {
    dialect := .paloalto
    title := some name
    description := (json.member? "description").bind (·.str?)
    logSource := ((json.member? "logsource").map LogSource.ofJson).getD {}
    selections
    condition
    aggregation := none }

def read (text : String) : Except RuleError Rule := do
  Dialect.located .paloalto text (Dialect.ensureContent text)
  if maxBytes < text.utf8ByteSize then
    Dialect.located .paloalto text (.error (.whole ("rule exceeds " ++ toString maxBytes ++ " bytes")))
  let object ← Dialect.located .paloalto text (body text.toList)
  let start := text.utf8ByteSize - Text.byteCount object
  let json ← (shape.fitText (String.ofList object)).mapError fun misfit =>
    .malformed .paloalto
      (some (placeInside (Position.ofOffset text start) object misfit.offset)) "<json error>"
  Dialect.located .paloalto text do
    let rule ← (toRule json).mapError (Fault.malformed (some start))
    Dialect.checked rule

end DetectionRules.PaloAlto

namespace DetectionRules.PaloAlto

def nameText (title : String) : String :=
  let characters := title.toList.map fun c => if isNamePart c then c else '_'
  if characters.isEmpty then Named.defaultTitle else String.ofList characters

def single (field : String) (op : Operator) (value : Value) : Condition :=
  .leaf field (.is op) value.toJson

def testCondition (test : FieldTest) : Condition :=
  match test.op, test.values with
  | op, [value] => single test.field op value
  | .equals, values => .leaf test.field .within (.array (values.map Value.toJson))
  | op, values => .any (values.map (single test.field op))

mutual

def ofLogic : Logic FieldTest → Condition
  | .term test => testCondition test
  | .all items => .all (ofLogicAll items)
  | .any items => .any (ofLogicAll items)
  | .not item => .not (ofLogic item)

def ofLogicAll : List (Logic FieldTest) → List Condition
  | [] => []
  | item :: rest => ofLogic item :: ofLogicAll rest

end

def grouped : Condition → Condition
  | .all items => .all items
  | condition => .all [condition]

def toJson (rule : Rule) (expression : Logic FieldTest) (title : String) : Json :=
  Json.ofMembers
    [some ("name", .str title), rule.description.map fun text => ("description", .str text),
      some ("severity", .str "medium"),
      if rule.logSource.isEmpty then none else some ("logsource", rule.logSource.toJson),
      some ("conditions", (grouped (ofLogic expression)).toJson),
      some ("actions", Json.ofStrings ["alert"])]

def write (rule : Rule) : Except RuleError String := do
  Dialect.ensureWritable .paloalto rule
  let expression ← Dialect.expression .paloalto rule
  let title := rule.title.getD Named.defaultTitle
  return "rule " ++ nameText title ++ " " ++ (toJson rule expression title).pretty ++ "\n"

end DetectionRules.PaloAlto
