import DetectionRules.Expression.Selections
import DetectionRules.Expression.Spelling
import DetectionRules.Regex.Validity
import DetectionRules.Token.Parser

/-!
What the readers and writers of all dialects share: rule text that is blank and
rules that are not well formed are refused on the way in, and rules that are
not well formed or need more than the dialect has are refused on the way out.
-/

namespace DetectionRules.Dialect

def checked (rule : Rule) : Except Fault Rule :=
  match rule.check with
  | none => .ok rule
  | some flaw => .error (.whole flaw.message)

def ensureContent (text : String) : Except Fault Unit :=
  if Text.isAllBlank text then .error (.whole "empty content") else .ok ()

/-- Reads the tokens of a rule text up to the last one that the parser takes. -/
def readTokens (quoting : Quoting) (parser : Parser Rule) (text : String) : Except Fault Rule := do
  ensureContent text
  let (rule, _) ← parser (← Token.list quoting text)
  checked rule

def located {Result : Type} (format : Format) (text : String) (result : Except Fault Result) :
    Except RuleError Result :=
  result.mapError (·.toError format text)

def ensureWritable (format : Format) (rule : Rule) : Except RuleError Unit :=
  match rule.check with
  | some flaw => .error (.unwritable format flaw.message)
  | none =>
      if rule.aggregation.isSome && !format.supportsCorrelation then
        .error (.unsupported format "aggregation clauses")
      else .ok ()

def expression (format : Format) (rule : Rule) : Except RuleError (Logic FieldTest) :=
  (Expression.ofRule rule).mapError fun flaw => .unwritable format flaw.message

def ensureRegexOr (complaint : String) (offset : Option Nat) (pattern : String) : Parser Unit :=
  if Regex.isValid pattern then pure ()
  else Parser.failAt offset (complaint ++ ": <regex error>")

def ensureRegex : Option Nat → String → Parser Unit := ensureRegexOr "invalid regular expression"

def ensureShortRegex : Option Nat → String → Parser Unit := ensureRegexOr "invalid regex"

/-- The pattern of a regular expression between slashes, whose only flag ignores case. -/
def slashedRegex (offset : Option Nat) (body flags : String) : Parser Value := do
  let pattern ← match flags with
    | "" => pure body
    | "i" => pure ("(?i)" ++ body)
    | _ => Parser.failAt offset ("unsupported regex flags '" ++ flags ++ "'")
  ensureShortRegex offset pattern
  return .str pattern

def integer : Parser Value := do
  let literal ← Parser.literal "a number"
  match Value.ofLiteral literal.text with
  | .int number => return .int number
  | .str text =>
      Parser.failAt literal.offset ("comparison needs an integer, found '" ++ text ++ "'")

/-- The sign of a comparison with a whole number, if it comes next. -/
def takeComparison? : Parser (Option Operator) := fun tokens =>
  match tokens with
  | ⟨.symbol sign, offset⟩ :: rest =>
      match Operator.ofSign? sign with
      | some op => .ok (some op, rest)
      | none => .ok (none, ⟨.symbol sign, offset⟩ :: rest)
  | tokens => .ok (none, tokens)

def comparisonOr (what : String) : Parser Comparison := fun tokens =>
  match tokens with
  | ⟨.symbol sign, _⟩ :: rest =>
      match Comparison.ofSign? sign with
      | some comparison => .ok (comparison, rest)
      | none => Parser.expected what tokens
  | tokens => Parser.expected what tokens

def comparison : Parser Comparison := comparisonOr "a comparison operator"

end DetectionRules.Dialect
