import DetectionRules.Json.Shape
import DetectionRules.Yaml.Reader

/-!
YAML text read for a document of a known shape. The shape decides how a scalar
is read: where text is wanted, every scalar is text. A record in whose place
nothing stands has no members, and one may be written as a sequence of its
members.
-/

namespace DetectionRules.Yaml

open Json (Shape)

abbrev Anchors := List (Nat × Tree Nat)

namespace Tree

def resolve (anchors : Anchors) : Tree Nat → Option (Tree Nat)
  | reference label => anchors.lookup label
  | tree => some tree

/-- The text of a scalar that is plain or has a tag of the core schema. -/
def plainText? (tag : String) : Tree Nat → Option String
  | scalar properties text isPlain =>
      if isPlain || properties.tag == some (coreTag tag) then some text else none
  | _ => none

def scalarText? : Tree Nat → Option String
  | scalar _ text _ => some text
  | _ => none

def natural? (bound : Nat) (tree : Tree Nat) : Option Json := do
  match ← Scalar.int? (← tree.plainText? "int").toList with
  | some (.int value) => if 0 ≤ value ∧ value < bound then some (.int value) else none
  | _ => none

def float? (tree : Tree Nat) : Option Json := do
  return .float (← Scalar.binary64? (← tree.plainText? "float").toList)

/-- Whether nothing stands in the place of a node. -/
def isAbsent : Tree Nat → Option Bool
  | scalar properties text isPlain =>
      if !isPlain then some false
      else match properties.tag with
        | none => some (text.isEmpty || Scalar.isNullText text)
        | some tag =>
            if tag != coreTag "null" then some false
            else if Scalar.isNullText text then some true
            else none
  | _ => some false

/-- The entries of a mapping with the texts of their keys. -/
def entries? (anchors : Anchors) : Tree Nat → Option (List (String × Tree Nat))
  | mapping _ entries => entries.mapM fun (key, value) => do
      return (← (← key.resolve anchors).scalarText?, value)
  | scalar _ text isPlain => if text.isEmpty && isPlain then some [] else none
  | _ => none

def items? : Tree Nat → Option (List (Tree Nat))
  | sequence _ items => some items
  | scalar _ text isPlain => if text.isEmpty && isPlain then some [] else none
  | _ => none

structure Field where
  name : String
  fit : Tree Nat → Option Json
  required : Bool

def fitField (entries : List (String × Tree Nat)) (field : Field) : Option (Option (String × Json)) :=
  match entries.filter (·.1 == field.name) with
  | [] => if field.required then none else some none
  | [(_, tree)] => (field.fit tree).map fun value => some (field.name, value)
  | _ => none

def fitItems : List Field → List (Tree Nat) → Option (List (String × Json))
  | [], [] => some []
  | [], _ :: _ => none
  | field :: fields, [] => if field.required then none else fitItems fields []
  | field :: fields, item :: items => do
      let fitted ← field.fit item
      return (field.name, fitted) :: (← fitItems fields items)

def fitRecord (anchors : Anchors) (fields : List Field) : Tree Nat → Option Json
  | sequence _ items => (fitItems fields items).map .object
  | tree => do
      let entries ← tree.entries? anchors
      return .object ((← fields.mapM (fitField entries)).filterMap id)

mutual

/-- The document of a shape that a node stands for; shapes that are tests of whole documents fit
no node. -/
def fit (anchors : Anchors) : Shape → Tree Nat → Option Json
  | shape, tree =>
      match tree.resolve anchors with
      | none => none
      | some tree =>
          match shape with
          | .any => some .null
          | .text => tree.scalarText?.map .str
          | .flag => ((tree.plainText? "bool").bind Scalar.bool?).map .bool
          | .natural bound => tree.natural? bound
          | .float => tree.float?
          | .choice names => (tree.scalarText?.filter names.contains).map .str
          | .optional shape => do
              if ← tree.isAbsent then return .null else fit anchors shape tree
          | .list shape => do
              return .array (← (← tree.items?).mapM (fit anchors shape))
          | .record fields => tree.fitRecord anchors (recordFields anchors fields)
          | .passing _ => none

def recordFields (anchors : Anchors) : List (String × Shape × Bool) → List Field
  | [] => []
  | (name, shape, required) :: rest =>
      ⟨name, fit anchors shape, required⟩ :: recordFields anchors rest

end

end Tree

/-- The document of a shape that a text holds; a text without a document is like an empty one. -/
def fit? (shape : Shape) (text : String) : Option Json := do
  let root := (← parse? text).getD Node.empty
  let (tree, _) ← number root []
  Tree.fit tree.anchored.reverse shape tree

end DetectionRules.Yaml
