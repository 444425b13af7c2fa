/-!
Trees of "all of", "any of" and "not" over terms of one type. `conj`, `disj`
and `negate` build trees without a group directly inside a group of its own
kind, without groups of one member and without double negations, given parts
that already have this form.
-/

namespace DetectionRules

inductive Logic (Term : Type) where
  | term (value : Term)
  | all (items : List (Logic Term))
  | any (items : List (Logic Term))
  | not (item : Logic Term)

namespace Logic

variable {Term Other : Type}

/-- The members of a conjunction; any other tree is its own only member. -/
def conjuncts : Logic Term → List (Logic Term)
  | all items => items
  | item => [item]

/-- The members of a disjunction; any other tree is its own only member. -/
def disjuncts : Logic Term → List (Logic Term)
  | any items => items
  | item => [item]

def conj (items : List (Logic Term)) : Logic Term :=
  match items.flatMap conjuncts with
  | [item] => item
  | flat => all flat

def disj (items : List (Logic Term)) : Logic Term :=
  match items.flatMap disjuncts with
  | [item] => item
  | flat => any flat

def negate : Logic Term → Logic Term
  | not item => item
  | item => not item

def isTerm : Logic Term → Bool
  | term _ => true
  | _ => false

def isDisjunction : Logic Term → Bool
  | any _ => true
  | _ => false

def term? : Logic Term → Option Term
  | term value => some value
  | _ => none

mutual

def terms : Logic Term → List Term
  | term value => [value]
  | all items => termsOfAll items
  | any items => termsOfAll items
  | not item => terms item

def termsOfAll : List (Logic Term) → List Term
  | [] => []
  | item :: rest => terms item ++ termsOfAll rest

end

mutual

def map (f : Term → Other) : Logic Term → Logic Other
  | term value => term (f value)
  | all items => all (mapAll f items)
  | any items => any (mapAll f items)
  | not item => not (map f item)

def mapAll (f : Term → Other) : List (Logic Term) → List (Logic Other)
  | [] => []
  | item :: rest => map f item :: mapAll f rest

end

/-- A group of what is left of its members, nothing if no member is left. -/
def group? (join : List (Logic Term) → Logic Term) (items : List (Logic Term)) :
    Option (Logic Term) :=
  if items.isEmpty then none else some (join items)

mutual

/-- Drops the terms that `keep` refuses and the groups left without a member. -/
def prune (keep : Term → Bool) : Logic Term → Option (Logic Term)
  | term value => if keep value then some (term value) else none
  | all items => group? conj (pruneAll keep items)
  | any items => group? disj (pruneAll keep items)
  | not item => (prune keep item).map negate

def pruneAll (keep : Term → Bool) : List (Logic Term) → List (Logic Term)
  | [] => []
  | item :: rest => (prune keep item).toList ++ pruneAll keep rest

end

mutual

/-- Drops the absent terms and the groups left without a member. -/
def flatten : Logic (Option Term) → Option (Logic Term)
  | term value => value.map term
  | all items => group? conj (flattenAll items)
  | any items => group? disj (flattenAll items)
  | not item => (flatten item).map negate

def flattenAll : List (Logic (Option Term)) → List (Logic Term)
  | [] => []
  | item :: rest => (flatten item).toList ++ flattenAll rest

end

mutual

/-- The number of levels; a term alone has one. -/
def depth : Logic Term → Nat
  | term _ => 1
  | all items => depthOfAll items + 1
  | any items => depthOfAll items + 1
  | not item => depth item + 1

def depthOfAll : List (Logic Term) → Nat
  | [] => 0
  | item :: rest => max (depth item) (depthOfAll rest)

end

mutual

def hasEmptyGroup : Logic Term → Bool
  | term _ => false
  | all items => items.isEmpty || anyHasEmptyGroup items
  | any items => items.isEmpty || anyHasEmptyGroup items
  | not item => hasEmptyGroup item

def anyHasEmptyGroup : List (Logic Term) → Bool
  | [] => false
  | item :: rest => hasEmptyGroup item || anyHasEmptyGroup rest

end

mutual

def eval (holds : Term → Bool) : Logic Term → Bool
  | term value => holds value
  | all items => evalAll holds items
  | any items => evalAny holds items
  | not item => !eval holds item

def evalAll (holds : Term → Bool) : List (Logic Term) → Bool
  | [] => true
  | item :: rest => eval holds item && evalAll holds rest

def evalAny (holds : Term → Bool) : List (Logic Term) → Bool
  | [] => false
  | item :: rest => eval holds item || evalAny holds rest

end

mutual

/-- Puts a tree in the place of every term and rebuilds the groups. -/
def bind (tree : Term → Logic Other) : Logic Term → Logic Other
  | term value => tree value
  | all items => conj (bindAll tree items)
  | any items => disj (bindAll tree items)
  | not item => negate (bind tree item)

def bindAll (tree : Term → Logic Other) : List (Logic Term) → List (Logic Other)
  | [] => []
  | item :: rest => bind tree item :: bindAll tree rest

end

variable {Failure : Type}

mutual

/-- As `bind`, for trees that may be missing; the first failure wins. -/
def substitute (tree : Term → Except Failure (Logic Other)) :
    Logic Term → Except Failure (Logic Other)
  | term value => tree value
  | all items => (substituteAll tree items).map conj
  | any items => (substituteAll tree items).map disj
  | not item => (substitute tree item).map negate

def substituteAll (tree : Term → Except Failure (Logic Other)) :
    List (Logic Term) → Except Failure (List (Logic Other))
  | [] => .ok []
  | item :: rest => do
      let first ← substitute tree item
      let others ← substituteAll tree rest
      return first :: others

end

end Logic

end DetectionRules
