import DetectionRules.Json.Draft

/-!
Shapes of documents. Fitting a draft to a shape finds the first place, in the
order of the text, where the text is not JSON or is JSON of another shape, and
else gives the document with just the members that the shape names. A record
may also be written as an array of its members.
-/

namespace DetectionRules.Json

inductive Shape where
  | any
  | text
  | flag
  | natural (bound : Nat)
  | float
  /-- One of the names, or an object that holds a name with null. -/
  | choice (names : List String)
  | optional (shape : Shape)
  | list (shape : Shape)
  /-- Members with their shapes, and whether each of them must be there. -/
  | record (fields : List (String × Shape × Bool))
  | passing (test : Json → Bool)

inductive Misfit where
  /-- The text is not JSON from this byte on. -/
  | broken (offset : Nat)
  /-- A part is of another shape; the part that holds it says where this is shown. -/
  | unplaced
  | unfit (offset : Nat)

namespace Misfit

def isBroken : Misfit → Bool
  | broken _ => true
  | _ => false

def placed (offset : Nat) : Misfit → Misfit
  | unplaced => unfit offset
  | misfit => misfit

def offset : Misfit → Nat
  | broken offset | unfit offset => offset
  | unplaced => 0

end Misfit

namespace Draft

/-- A misfit of the whole draft: after a value without parts, at the start of any other. -/
def unfitHere : Draft → Misfit
  | scalar _ extent => .unfit extent.finish
  | array start _ _ => .unfit start
  | object start _ _ => .unfit start
  | broken offset => .broken offset

def ended (result : Json) : Except Nat Nat → Except Misfit Json
  | .ok _ => .ok result
  | .error offset => .error (.broken offset)

def scalarWhere (test : Json → Option Json) (draft : Draft) : Except Misfit Json :=
  match draft with
  | scalar value extent =>
      match test value with
      | some result => .ok result
      | none => .error (.unfit extent.finish)
  | draft => .error draft.unfitHere

def natural? (bound : Nat) : Json → Option Json
  | .int value => if 0 ≤ value ∧ value < bound then some (.int value) else none
  | _ => none

def float? (value : Json) : Option Json := value.float?.map .float

def flag? : Json → Option Json
  | .bool value => some (.bool value)
  | _ => none

def text? : Json → Option Json
  | .str text => some (.str text)
  | _ => none

def isOneOf (names : List String) : Json → Option Json
  | .str name => if names.contains name then some (.str name) else none
  | _ => none

def choose (names : List String) (draft : Draft) : Except Misfit Json :=
  match draft with
  | scalar (.str name) extent =>
      if names.contains name then .ok (.str name) else .error (.unfit extent.finish)
  | scalar _ extent => .error (.broken (extent.start + 1))
  | object _ [(key, value, _)] finish =>
      if !names.contains key.name then .error (.unfit key.resume)
      else do
        let _ ← scalarWhere (fun value => if value.isNull then some .null else none) value
        ended (.str key.name) finish
  | object start _ _ => .error (.broken (start + 1))
  | array start _ _ => .error (.broken (start + 1))
  | broken offset => .error (.broken offset)

def whole (draft : Draft) : Except Misfit Json :=
  match draft.break? with
  | some offset => .error (.broken offset)
  | none => .ok draft.toJson

def each (fitItem : Draft → Except Misfit Json) : List Draft → Except Misfit (List Json)
  | [] => .ok []
  | item :: rest => do
      let first ← fitItem item
      let others ← each fitItem rest
      return first :: others

structure Field where
  name : String
  fit : Draft → Except Misfit Json
  required : Bool

/-- Fits members in the order of the text; members that no field names need only be JSON. -/
def fitMembers (fields : List Field) (found : List (String × Json)) :
    List (Key × Draft × Nat) → Except Misfit (List (String × Json))
  | [] => .ok found
  | (key, value, resume) :: rest =>
      match fields.find? (·.name == key.name) with
      | none => do
          let _ ← whole value
          fitMembers fields found rest
      | some field =>
          if found.any (·.1 == key.name) then .error (.unfit key.resume)
          else do
            let fitted ← (field.fit value).mapError (·.placed resume)
            fitMembers fields (found ++ [(key.name, fitted)]) rest

def missing (fields : List Field) (found : List (String × Json)) : Bool :=
  fields.any fun field => field.required && !found.any (·.1 == field.name)

def fitItems : List Field → List Draft → Except Misfit (List (String × Json))
  | [], _ => .ok []
  | field :: fields, [] => if field.required then .error .unplaced else fitItems fields []
  | field :: fields, item :: items => do
      let fitted ← field.fit item
      let others ← fitItems fields items
      return (field.name, fitted) :: others

def fitRecord (fields : List Field) (draft : Draft) : Except Misfit Json :=
  match draft with
  | object _ members finish => do
      let found ← fitMembers fields [] members
      match finish with
      | .error offset => .error (.broken offset)
      | .ok offset =>
          if missing fields found then .error (.unfit offset)
          else return .object (fields.filterMap fun field => found.find? (·.1 == field.name))
  | array start items finish => do
      let found ← (fitItems fields items).mapError (·.placed (finish.toOption.getD start))
      match items.drop fields.length with
      | [] => ended (.object found) finish
      | _ :: _ => .error (.broken start)
  | draft => .error draft.unfitHere

end Draft

namespace Shape

mutual

def fit : Shape → Draft → Except Misfit Json
  | any, draft => draft.whole
  | text, draft => draft.scalarWhere Draft.text?
  | flag, draft => draft.scalarWhere Draft.flag?
  | natural bound, draft => draft.scalarWhere (Draft.natural? bound)
  | float, draft => draft.scalarWhere Draft.float?
  | choice names, draft => draft.choose names
  | optional shape, draft =>
      match draft with
      | .scalar .null _ => .ok .null
      | draft => fit shape draft
  | list shape, draft =>
      match draft with
      | .array _ items finish => do
          let fitted ← Draft.each (fit shape) items
          Draft.ended (.array fitted) finish
      | draft => .error draft.unfitHere
  | record fields, draft => draft.fitRecord (recordFields fields)
  | passing test, draft => do
      let value ← draft.whole
      if test value then return value else throw .unplaced

def recordFields : List (String × Shape × Bool) → List Draft.Field
  | [] => []
  | (name, shape, required) :: rest => ⟨name, fit shape, required⟩ :: recordFields rest

end

def fitFirst (shape : Shape) (text : String) : Except Misfit Json :=
  (shape.fit (Draft.first text.toList).1).mapError (·.placed 0)

/-- Fits a text that must hold nothing else. -/
def fitText (shape : Shape) (text : String) : Except Misfit Json :=
  match Draft.first text.toList with
  | (draft, rest) => do
      let value ← (shape.fit draft).mapError (·.placed 0)
      match rest.toOption.bind Draft.trailing? with
      | some offset => throw (.broken offset)
      | none => return value

def fit? (shape : Shape) (json : Json) : Option Json := (shape.fit (Draft.ofJson json)).toOption

end Shape

end DetectionRules.Json
