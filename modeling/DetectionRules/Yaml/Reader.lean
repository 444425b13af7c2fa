import DetectionRules.Yaml.Node
import DetectionRules.Yaml.Value

/-!
YAML documents from text. An alias stands for the node of its anchor; aliases
may be resolved a hundred times for each part of the text, which keeps a text
from standing for a value out of all proportion. A mapping has no two keys
alike.
-/

namespace DetectionRules.Yaml

abbrev Names := List (String × Nat)

/-- A new anchor gets the number of names in use, even if its name is one of them; it may so
take the number of another anchor. -/
def declare (name : String) : StateT Names Option Nat := fun names =>
  some (names.length, (name, names.length) :: names.filter (·.1 != name))

def declareAll (properties : Properties String) : StateT Names Option (Properties Nat) := do
  match properties.anchor with
  | none => return { tag := properties.tag }
  | some name => return { anchor := some (← declare name), tag := properties.tag }

mutual

/-- The node with numbers for names; an alias must follow its anchor. -/
def number : Node → StateT Names Option (Tree Nat)
  | .reference name => do
      match (← get).lookup name with
      | some label => return .reference label
      | none => failure
  | .scalar properties text isPlain => do
      return .scalar (← declareAll properties) text isPlain
  | .sequence properties items => do
      let properties ← declareAll properties
      return .sequence properties (← numberItems items)
  | .mapping properties entries => do
      let properties ← declareAll properties
      return .mapping properties (← numberEntries entries)

def numberItems : List Node → StateT Names Option (List (Tree Nat))
  | [] => return []
  | item :: rest => do
      let first ← number item
      let others ← numberItems rest
      return first :: others

def numberEntries : List (Node × Node) → StateT Names Option (List (Tree Nat × Tree Nat))
  | [] => return []
  | (key, value) :: rest => do
      let key ← number key
      let value ← number value
      let others ← numberEntries rest
      return (key, value) :: others

end

namespace Tree

variable {Label : Type}

def labelled (properties : Properties Label) (tree : Tree Label) : List (Label × Tree Label) :=
  (properties.anchor.map fun label => (label, tree)).toList

mutual

/-- The nodes with an anchor, in the order of the text. -/
def anchored : Tree Label → List (Label × Tree Label)
  | reference _ => []
  | scalar properties text isPlain => labelled properties (scalar properties text isPlain)
  | sequence properties items =>
      labelled properties (sequence properties items) ++ anchoredItems items
  | mapping properties entries =>
      labelled properties (mapping properties entries) ++ anchoredEntries entries

def anchoredItems : List (Tree Label) → List (Label × Tree Label)
  | [] => []
  | item :: rest => anchored item ++ anchoredItems rest

def anchoredEntries : List (Tree Label × Tree Label) → List (Label × Tree Label)
  | [] => []
  | (key, value) :: rest => anchored key ++ anchored value ++ anchoredEntries rest

end

mutual

/-- The number of parts; a collection has a beginning and an end. -/
def size : Tree Label → Nat
  | reference _ => 1
  | scalar _ _ _ => 1
  | sequence _ items => sizeOfItems items + 2
  | mapping _ entries => sizeOfEntries entries + 2

def sizeOfItems : List (Tree Label) → Nat
  | [] => 0
  | item :: rest => size item + sizeOfItems rest

def sizeOfEntries : List (Tree Label × Tree Label) → Nat
  | [] => 0
  | (key, value) :: rest => size key + size value + sizeOfEntries rest

end

end Tree

/-- Computations that may resolve a number of further aliases. -/
abbrev Composer := StateT Nat Option

def resolveOne : Composer Unit := do
  match ← get with
  | 0 => failure
  | more + 1 => set more

def composeItems (compose : Tree Nat → Composer Yaml) : List (Tree Nat) → Composer (List Yaml)
  | [] => return []
  | item :: rest => do
      let first ← compose item
      let others ← composeItems compose rest
      return first :: others

/-- The entries after those found so far, the latest first; no key may be there already. -/
def composeEntries (compose : Tree Nat → Composer Yaml) (found : List (Yaml × Yaml)) :
    List (Tree Nat × Tree Nat) → Composer (List (Yaml × Yaml))
  | [] => return found.reverse
  | (key, value) :: rest => do
      let key ← compose key
      if found.any (fun entry => alike entry.1 key) then failure
      let value ← compose value
      composeEntries compose ((key, value) :: found) rest

def composeContent (compose : Option (Tree Nat → Composer Yaml)) : Tree Nat → Composer Yaml
  | .reference _ => failure
  | .scalar properties text isPlain =>
      match scalarOf? properties.tag text isPlain with
      | some value => return withTag properties.tag (.scalar value)
      | none => failure
  | .sequence properties items =>
      match compose with
      | some compose => return withTag properties.tag (.sequence (← composeItems compose items))
      | none => failure
  | .mapping properties entries =>
      match compose with
      | some compose =>
          return withTag properties.tag (.mapping (← composeEntries compose [] entries))
      | none => failure

/-- The value of a node that may hold collections in at most `levels` levels. -/
def compose (anchors : List (Nat × Tree Nat)) : Nat → Tree Nat → Composer Yaml
  | levels, tree => do
      let inner := match levels with
        | 0 => none
        | levels + 1 => some (compose anchors levels)
      match tree with
      | .reference label => do
          resolveOne
          match anchors.lookup label with
          | some tree => composeContent inner tree
          | none => failure
      | tree => composeContent inner tree

/-- The value of a text, if the text is YAML; a text without a document stands for null. -/
def read? (text : String) : Option Yaml := do
  match ← parse? text with
  | none => return .scalar .null
  | some root =>
      let (tree, _) ← number root []
      let (value, _) ← compose tree.anchored.reverse maxDepth tree (tree.size * 100)
      return value

end DetectionRules.Yaml
