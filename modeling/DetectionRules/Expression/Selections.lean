import DetectionRules.Rule.Basic

/-!
From an expression over field tests to named selections with a condition, and
back. Tests of a conjunction share a selection, negated tests become filters,
and alternatives for one field and operator become one test with many values.
-/

namespace DetectionRules.Expression

/-- The selections named so far, the latest first, and how many names of each kind are in use. -/
structure Naming where
  selections : Nat := 0
  filters : Nat := 0
  named : List Selection := []

namespace Naming

def numbered (base : String) (count : Nat) : String :=
  if count = 1 then base else base ++ "_" ++ toString count

def select (tests : List FieldTest) : StateM Naming (Logic String) := fun naming =>
  let name := numbered "selection" (naming.selections + 1)
  (.term name,
    { naming with selections := naming.selections + 1, named := ⟨name, tests⟩ :: naming.named })

def filter (tests : List FieldTest) : StateM Naming (Logic String) := fun naming =>
  let name := numbered "filter" (naming.filters + 1)
  (.term name,
    { naming with filters := naming.filters + 1, named := ⟨name, tests⟩ :: naming.named })

end Naming

def addValue (values : List Value) (value : Value) : List Value :=
  if values.contains value then values else values ++ [value]

def addAlternative (merged test : FieldTest) : Option FieldTest :=
  if test.field = merged.field ∧ test.op = merged.op then
    some ⟨merged.field, merged.op, test.values.foldl addValue merged.values⟩
  else none

/-- One test in the place of several tests that differ in their values only. -/
def mergeAlternatives (items : List (Logic FieldTest)) : Option FieldTest := do
  let tests ← items.mapM Logic.term?
  if tests.any (·.op.isComparison) then none
  match tests with
  | [] => none
  | first :: others => others.foldlM addAlternative first

/-- The tests of a filter, if the negated expression is a single selection. -/
def filterTests? : Logic FieldTest → Option (List FieldTest)
  | .term test => some [test]
  | .all items => items.mapM Logic.term?
  | .any items => (mergeAlternatives items).map ([·])
  | .not _ => none

mutual

def nameSelections : Logic FieldTest → StateM Naming (Logic String)
  | .term test => Naming.select [test]
  | .all items => do
      let tests := items.filterMap Logic.term?
      let shared ← if tests.isEmpty then pure [] else do pure [← Naming.select tests]
      let groups ← nameGroups items
      return Logic.conj (shared ++ groups)
  | .any items =>
      match mergeAlternatives items with
      | some merged => Naming.select [merged]
      | none => return Logic.disj (← nameAll items)
  | .not item =>
      match filterTests? item with
      | some tests => return Logic.negate (← Naming.filter tests)
      | none => return Logic.negate (← nameSelections item)

def nameAll : List (Logic FieldTest) → StateM Naming (List (Logic String))
  | [] => return []
  | item :: rest => do
      let first ← nameSelections item
      let others ← nameAll rest
      return first :: others

/-- As `nameAll`, for the items that are not single tests. -/
def nameGroups : List (Logic FieldTest) → StateM Naming (List (Logic String))
  | [] => return []
  | .term _ :: rest => nameGroups rest
  | item :: rest => do
      let first ← nameSelections item
      let others ← nameGroups rest
      return first :: others

end

/-- The selections in the order of their names, and the condition over them. -/
def toSelections (expression : Logic FieldTest) : List Selection × Logic String :=
  let (condition, naming) := (nameSelections expression).run {}
  (naming.named.reverse, condition)

def ofRule (rule : Rule) : Except RuleFlaw (Logic FieldTest) :=
  rule.condition.substitute fun name =>
    match rule.selection? name with
    | some selection => .ok (Logic.conj (selection.tests.map .term))
    | none => .error (.undefinedSelection name)

/-- The tests of the outermost conjunction that `picks` chooses, and the rest of the expression. -/
def liftTests (picks : FieldTest → Bool) : Logic FieldTest → List FieldTest × Option (Logic FieldTest)
  | .term test => if picks test then ([test], none) else ([], some (.term test))
  | .all items =>
      let picked (item : Logic FieldTest) := item.term?.any picks
      (items.filterMap fun item => item.term?.filter picks,
        Logic.group? Logic.conj (items.filter fun item => !picked item))
  | expression => ([], some expression)

end DetectionRules.Expression
