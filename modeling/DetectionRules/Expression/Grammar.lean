import DetectionRules.Logic
import DetectionRules.Token.Parser

/-!
Boolean expressions over terms of any kind. Negation binds tighter than
conjunction and conjunction tighter than disjunction. A term may lie under at
most 64 parentheses and negations.
-/

namespace DetectionRules.Expression

structure Connectives where
  conjunction : String
  disjunction : String
  /-- The words and signs that begin a negation. -/
  negations : List String
  /-- Whether terms side by side are conjoined. -/
  adjacency : Bool
  exactCase : Bool

namespace Connectives

def nextIs (connectives : Connectives) (word : String) (tokens : List Token) : Bool :=
  if connectives.exactCase then Parser.nextIsWord word tokens else Parser.nextIsKeyword word tokens

def nextIsConjunction (connectives : Connectives) : List Token → Bool :=
  connectives.nextIs connectives.conjunction

def nextIsDisjunction (connectives : Connectives) : List Token → Bool :=
  connectives.nextIs connectives.disjunction

def nextIsNegation (connectives : Connectives) (tokens : List Token) : Bool :=
  connectives.negations.any fun negation =>
    connectives.nextIs negation tokens || Parser.nextIsSign negation tokens

/-- Whether another member of a conjunction may follow without a connective. -/
def nextIsAdjacent (connectives : Connectives) (stop : List Token → Bool)
    (tokens : List Token) : Bool :=
  connectives.adjacency && !tokens.isEmpty && !stop tokens && !Parser.nextIsSign ")" tokens
    && !connectives.nextIsDisjunction tokens

end Connectives

def maxDepth : Nat := 64

variable {Term : Type}

def conjunction (connectives : Connectives) (stop : List Token → Bool)
    (operand : Parser (Logic Term)) : Parser (Logic Term) := do
  let first ← operand
  let others ← Parser.many do
    if ← Parser.takeIf connectives.nextIsConjunction then return some (← operand)
    else if ← Parser.sees (connectives.nextIsAdjacent stop) then return some (← operand)
    else return none
  return Logic.conj (first :: others)

def disjunction (connectives : Connectives) (stop : List Token → Bool)
    (operand : Parser (Logic Term)) : Parser (Logic Term) := do
  let parts ← Parser.sepBy (Parser.takeIf connectives.nextIsDisjunction)
    (conjunction connectives stop operand)
  return Logic.disj parts

/-- A term, a negation or an expression in parentheses, given how many levels may follow. -/
def operand (connectives : Connectives) (stop : List Token → Bool)
    (atom : Parser (Logic Term)) : Nat → Parser (Logic Term)
  | 0 => Parser.fail "expression nested too deeply"
  | levels + 1 => do
      if ← Parser.sees (fun tokens => tokens.isEmpty || stop tokens) then
        Parser.expected "an expression"
      else if ← Parser.takeIf connectives.nextIsNegation then
        return Logic.negate (← operand connectives stop atom levels)
      else if ← Parser.takeSign "(" then
        let inner ← disjunction connectives stop (operand connectives stop atom levels)
        Parser.sign ")"
        return inner
      else atom

/-- An expression that ends before a token where `stop` holds. -/
def parse (connectives : Connectives) (stop : List Token → Bool)
    (atom : Parser (Logic Term)) : Parser (Logic Term) :=
  disjunction connectives stop (operand connectives stop atom (maxDepth + 1))

end DetectionRules.Expression
