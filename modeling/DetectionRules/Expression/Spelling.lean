import DetectionRules.Logic
import DetectionRules.Rule.Error
import DetectionRules.Rule.FieldTest

/-!
Writing an expression in a dialect, with parentheses only
where a connective binds looser than the one around it.
-/

namespace DetectionRules.Expression

structure Spelling (Term : Type) where
  term : Term → Except RuleError String
  conjunction : String
  disjunction : String
  negation : String → String
  /-- Whether a negation brings its own parentheses. -/
  negationEncloses : Bool := false

/-- How tightly the surroundings of an expression bind. -/
inductive Binding where
  | none
  | disjunction
  | conjunction
  | negation
deriving DecidableEq

namespace Binding

def strength : Binding → Nat
  | none => 0
  | disjunction => 1
  | conjunction => 2
  | negation => 3

end Binding

def encloseIf (needed : Bool) (text : String) : String :=
  if needed then "(" ++ text ++ ")" else text

variable {Term : Type}

mutual

def renderIn (spelling : Spelling Term) (surroundings : Binding) :
    Logic Term → Except RuleError String
  | .term term => spelling.term term
  | .all items => do
      let parts ← renderAll spelling .conjunction items
      return encloseIf (Binding.conjunction.strength < surroundings.strength)
        (String.intercalate spelling.conjunction parts)
  | .any items => do
      let parts ← renderAll spelling .disjunction items
      return encloseIf (Binding.disjunction.strength < surroundings.strength)
        (String.intercalate spelling.disjunction parts)
  | .not item => do
      let inner ← renderIn spelling (if spelling.negationEncloses then .none else .negation) item
      return spelling.negation inner

def renderAll (spelling : Spelling Term) (surroundings : Binding) :
    List (Logic Term) → Except RuleError (List String)
  | [] => return []
  | item :: rest => do
      let first ← renderIn spelling surroundings item
      let others ← renderAll spelling surroundings rest
      return first :: others

end

def render (spelling : Spelling Term) (expression : Logic Term) : Except RuleError String :=
  renderIn spelling .none expression

def renderAlternatives (disjunction : String) (single : FieldTest → Except RuleError String)
    (test : FieldTest) : Except RuleError String :=
  if test.values.length = 1 then single test
  else do
    let parts ← test.values.mapM fun value => single (test.withValue value)
    return "(" ++ String.intercalate disjunction parts ++ ")"

end DetectionRules.Expression
