import DetectionRules.Dialect.PaloAlto
import DetectionRules.Proofs.Dialect
import DetectionRules.Proofs.Json.Reading

/-!
Condition trees are read back from their documents, and the tree of an
expression stands for that expression with several values of a test as
alternatives, equality apart.
-/

namespace DetectionRules

open Json (Readable)

theorem Value.readable_to_json (levels : Nat) (value : Value) : Readable levels value.toJson := by
  cases value with
  | int number => exact .int number
  | str text => exact .str text

namespace FieldTest

theorem holds_for_with_value (truth : Valuation) (test : FieldTest) (value : Value) :
    (test.withValue value).holdsFor truth = truth test.field test.op value := by
  simp [withValue, single, holdsFor]

end FieldTest

namespace PaloAlto

open Logic (Normal)

theorem Relation.of_json_name (relation : Relation) :
    Relation.ofJson? (.str relation.name) = some relation := by
  cases relation with
  | within => rfl
  | is op => cases op <;> rfl

namespace Condition

theorem of_members_all (value : Json) (items : List Condition) (item? : Option Condition) :
    ofMembers? [⟨"all", value, some items, item?⟩] = some (.all items) := by
  simp [ofMembers?, only?]

theorem of_members_any (value : Json) (items : List Condition) (item? : Option Condition) :
    ofMembers? [⟨"any", value, some items, item?⟩] = some (.any items) := by
  simp [ofMembers?, only?]

theorem of_members_not (value : Json) (items? : Option (List Condition)) (item : Condition) :
    ofMembers? [⟨"not", value, items?, some item⟩] = some (.not item) := by
  simp [ofMembers?, only?]

theorem of_members_leaf (field : String) (relation : Relation) (value : Json)
    (parts : Json → Option (List Condition) × Option Condition) :
    ofMembers? ([("field", .str field), ("operator", .str relation.name), ("value", value)].map
        fun member => ⟨member.1, member.2, (parts member.2).1, (parts member.2).2⟩) =
      some (.leaf field relation value) := by
  simp [ofMembers?, leaf?, only?, Json.str?, relation.of_json_name]

mutual

/-- A tree is read back from its document. -/
theorem of_json_to_json : ∀ condition : Condition, ofJson? condition.toJson = some condition
  | .all items => by
      rw [toJson, ofJson?, membersOf, membersOf, itemsOf?, of_items_to_json items]
      exact of_members_all _ items _
  | .any items => by
      rw [toJson, ofJson?, membersOf, membersOf, itemsOf?, of_items_to_json items]
      exact of_members_any _ items _
  | .not item => by
      rw [toJson, ofJson?, membersOf, membersOf, of_json_to_json item]
      exact of_members_not _ _ item
  | .leaf field relation value => by
      rw [toJson, ofJson?]
      exact of_members_leaf field relation value fun part => (itemsOf? part, ofJson? part)

theorem of_items_to_json : ∀ items : List Condition, ofItems? (itemsToJson items) = some items
  | [] => rfl
  | item :: rest => by
      rw [itemsToJson, ofItems?, of_json_to_json item, of_items_to_json rest]

end

end Condition

/-- A test that the reader takes back: its patterns are regular expressions. -/
structure Writable (test : FieldTest) : Prop where
  proper : test.Proper
  patterns : test.op = .regex → ∀ value ∈ test.values, Regex.isValid value.text = true

/-- What is read back for a test. -/
def spread (test : FieldTest) : Logic FieldTest :=
  if test.op = .equals then .term test else FieldTest.alternatives test.withValue test.values

theorem scalar_to_json (field : String) (value : Value) : scalar field value.toJson = .ok value := by
  cases value with
  | int number =>
      rw [Value.toJson, scalar]
      simp only [Text.int64_of_to_int]
  | str text => rfl

theorem scalars_to_json (field : String) (items : List Value) :
    (items.map Value.toJson).mapM (scalar field) = .ok items := by
  have each (value : Value) : (scalar field ∘ Value.toJson) value = .ok (id value) :=
    scalar_to_json field value
  rw [List.mapM_map, Success.map_m fun value _ => each value, List.map_id]

theorem values_single (field : String) (op : Operator) (value : Value) :
    values field (.is op) value.toJson = .ok [value] := by
  have alone : (scalar field value.toJson).map ([·]) = .ok [value] := by
    rw [scalar_to_json]
    rfl
  have plain (items : List Json) : value.toJson ≠ .array items := by
    intro same
    cases value <;> cases same
  unfold values
  split
  · exact alone
  · rename_i same _
    exact absurd same (plain _)
  · rename_i same _
    cases same
  · exact alone

theorem leaf_test_eq {test : FieldTest} (writable : Writable test) (relation : Relation)
    (same : relation.op = test.op) {value : Json}
    (read : values test.field relation value = .ok test.values) :
    leafTest test.field relation value = .ok test := by
  have proper := writable.proper
  have compared : (test.op.isComparison && !(test.values.length == 1 &&
      test.values.all (·.int?.isSome))) = false := by
    rw [Bool.and_eq_false_imp]
    intro comparison
    obtain ⟨number, only⟩ := proper.compared comparison
    rw [only]
    rfl
  have patterns : (test.op = .regex &&
      !test.values.all fun value => Regex.isValid value.text) = false := by
    rw [Bool.and_eq_false_imp]
    intro regex
    simpa using writable.patterns (by simpa using regex)
  rw [leafTest, if_neg (by simpa using proper.named)]
  simp only [read, same, compared, patterns, bind, Except.bind, pure, Except.pure]
  rw [if_neg (by simpa using proper.filled)]
  simp

theorem proper_with_value {test : FieldTest} (proper : test.Proper) {value : Value}
    (member : value ∈ test.values) : (test.withValue value).Proper := by
  refine ⟨proper.named, by simp [FieldTest.withValue, FieldTest.single], fun comparison => ?_⟩
  obtain ⟨number, only⟩ := proper.compared comparison
  rw [only, List.mem_singleton] at member
  exact ⟨number, by rw [member]; rfl⟩

theorem leaf_test_single {test : FieldTest} (writable : Writable test) {value : Value}
    (member : value ∈ test.values) :
    leafTest test.field (.is test.op) value.toJson = .ok (test.withValue value) := by
  have single : Writable (test.withValue value) := by
    refine ⟨proper_with_value writable.proper member, fun regex other inside => ?_⟩
    rw [List.mem_singleton.mp inside]
    exact writable.patterns regex value member
  exact leaf_test_eq single (.is test.op) rfl (values_single test.field test.op value)

theorem leaf_test_within {test : FieldTest} (writable : Writable test) (equals : test.op = .equals) :
    leafTest test.field .within (.array (test.values.map Value.toJson)) = .ok test :=
  leaf_test_eq writable .within equals.symm (scalars_to_json test.field test.values)

theorem to_logic_single {test : FieldTest} (writable : Writable test) {value : Value}
    (member : value ∈ test.values) (levels : Nat) :
    toLogic (levels + 1) (single test.field test.op value) = .ok (.term (test.withValue value)) := by
  rw [single, toLogic, leaf_test_single writable member]
  rfl

theorem test_condition_eq (test : FieldTest) :
    testCondition test = match test.values with
      | [value] => single test.field test.op value
      | values =>
          if test.op = .equals then .leaf test.field .within (.array (values.map Value.toJson))
          else .any (values.map (single test.field test.op)) := by
  obtain ⟨field, op, values⟩ := test
  match values with
  | [] => cases op <;> rfl
  | [value] => cases op <;> rfl
  | first :: second :: others => cases op <;> rfl

section

variable {Item : Type} {levels : Nat} {condition : Item → Condition}
  {tree : Item → Logic FieldTest} {items : List Item}

theorem to_logic_all
    (each : ∀ item ∈ items, toLogic levels (condition item) = .ok (tree item)) :
    toLogicAll levels (items.map condition) = .ok (items.map tree) := by
  induction items with
  | nil => rw [List.map_nil, List.map_nil, toLogicAll]
  | cons item rest induction =>
      rw [List.map_cons, toLogicAll, each item List.mem_cons_self,
        induction fun item member => each item (List.mem_cons_of_mem _ member)]
      rfl

theorem to_group (name : String) (join : List (Logic FieldTest) → Logic FieldTest)
    (filled : items ≠ [])
    (each : ∀ item ∈ items, toLogic levels (condition item) = .ok (tree item)) :
    toGroup (levels + 1) name join (items.map condition) = .ok (join (items.map tree)) := by
  rw [toGroup, if_neg (by simpa using filled), to_logic_all each]
  rfl

end

theorem to_logic_test {test : FieldTest} (writable : Writable test) (levels : Nat) :
    toLogic (levels + 2) (testCondition test) = .ok (spread test) := by
  rw [test_condition_eq, spread]
  split
  · rename_i value only
    have same : test.withValue value = test := by rw [FieldTest.withValue, FieldTest.single, ← only]
    rw [to_logic_single writable (only ▸ List.mem_cons_self) (levels + 1), only]
    split
    · rw [same]
    · rfl
  · split
    · rename_i equals
      rw [toLogic, leaf_test_within writable equals]
      rfl
    · rw [toLogic]
      exact to_group "any" Logic.disj writable.proper.filled fun value member =>
        to_logic_single writable member levels

theorem of_logic_all_eq (items : List (Logic FieldTest)) : ofLogicAll items = items.map ofLogic := by
  induction items with
  | nil => rfl
  | cons item rest induction => rw [ofLogicAll, induction, List.map_cons]

def IsRead (expression : Logic FieldTest) : Prop :=
  expression.hasEmptyGroup = false → (∀ test ∈ expression.terms, Writable test) →
    ∀ levels, expression.depth < levels →
      toLogic levels (ofLogic expression) = .ok (expression.bind spread)

theorem items_read {items : List (Logic FieldTest)} (members : ∀ item ∈ items, IsRead item)
    (filled : Logic.anyHasEmptyGroup items = false)
    (writable : ∀ test ∈ Logic.termsOfAll items, Writable test) {levels : Nat}
    (shallow : Logic.depthOfAll items < levels) :
    ∀ item ∈ items, toLogic levels (ofLogic item) = .ok (item.bind spread) := by
  intro item member
  rw [Logic.any_has_empty_group] at filled
  rw [Logic.terms_of_all] at writable
  refine members item member ?_ (fun test place => writable test ?_) levels ?_
  · exact Bool.eq_false_iff.mpr (List.any_eq_false.mp filled item member)
  · exact List.mem_flatMap.mpr ⟨item, member, place⟩
  · have within := Logic.depth_of_all_le.mp (Nat.le_refl (Logic.depthOfAll items)) item member
    omega

/-- The tree of an expression stands for it, with one level more for alternatives. -/
theorem is_read (expression : Logic FieldTest) : IsRead expression := by
  induction expression using Logic.induct with
  | term test =>
      intro _ writable levels shallow
      obtain ⟨levels, rfl⟩ := Nat.exists_eq_add_of_lt shallow
      rw [ofLogic, Logic.bind, Logic.depth, Nat.add_comm 1 levels]
      exact to_logic_test (writable test (List.mem_singleton.mpr rfl)) levels
  | all items members =>
      intro filled writable levels shallow
      obtain ⟨levels, rfl⟩ := Nat.exists_eq_add_one_of_ne_zero (Nat.ne_zero_of_lt shallow)
      rw [Logic.hasEmptyGroup, Bool.or_eq_false_iff] at filled
      rw [ofLogic, toLogic, of_logic_all_eq, Logic.bind, Logic.bind_all]
      exact to_group "all" Logic.conj (by simpa using filled.1)
        (items_read members filled.2 writable (Nat.lt_of_succ_lt_succ shallow))
  | any items members =>
      intro filled writable levels shallow
      obtain ⟨levels, rfl⟩ := Nat.exists_eq_add_one_of_ne_zero (Nat.ne_zero_of_lt shallow)
      rw [Logic.hasEmptyGroup, Bool.or_eq_false_iff] at filled
      rw [ofLogic, toLogic, of_logic_all_eq, Logic.bind, Logic.bind_all]
      exact to_group "any" Logic.disj (by simpa using filled.1)
        (items_read members filled.2 writable (Nat.lt_of_succ_lt_succ shallow))
  | not item inner =>
      intro filled writable levels shallow
      obtain ⟨levels, rfl⟩ := Nat.exists_eq_add_one_of_ne_zero (Nat.ne_zero_of_lt shallow)
      rw [ofLogic, toLogic, inner filled writable levels (Nat.lt_of_succ_lt_succ shallow), Logic.bind]
      rfl

theorem normal_spread {test : FieldTest} (filled : test.values ≠ []) : (spread test).Normal := by
  rw [spread]
  split
  · exact .term test
  · exact FieldTest.normal_alternatives _ filled

theorem eval_spread (test : FieldTest) (truth : Valuation) :
    (spread test).eval (·.holdsFor truth) = test.holdsFor truth := by
  rw [spread]
  split
  · rfl
  · rw [FieldTest.any_alternatives, FieldTest.holdsFor]
    simp only [FieldTest.holds_for_with_value]

theorem proper_spread {test : FieldTest} (proper : test.Proper) :
    ∀ other ∈ (spread test).terms, other.Proper := by
  intro other member
  rw [spread] at member
  split at member
  · rwa [List.mem_singleton.mp member]
  · obtain ⟨value, inside, rfl⟩ := FieldTest.mem_terms_alternatives member
    exact proper_with_value proper inside

theorem items_to_json_eq (items : List Condition) :
    Condition.itemsToJson items = items.map Condition.toJson := by
  induction items with
  | nil => rfl
  | cons item rest induction => rw [Condition.itemsToJson, induction, List.map_cons]

theorem readable_member {levels : Nat} {name : String} {value : Json}
    (readable : Readable levels value) : Readable (levels + 1) (.object [(name, value)]) :=
  .object (List.forall_mem_singleton.mpr readable)

theorem readable_leaf (field : String) (relation : Relation) {levels : Nat} {value : Json}
    (readable : Readable levels value) :
    Readable (levels + 1) (Condition.leaf field relation value).toJson := by
  rw [Condition.toJson]
  apply Readable.object
  simp only [List.forall_mem_cons]
  exact ⟨.str field, .str relation.name, readable, List.forall_mem_nil _⟩

theorem readable_items {Item : Type} {levels : Nat} {condition : Item → Condition} {items : List Item}
    (each : ∀ item ∈ items, Readable levels (condition item).toJson) :
    Readable (levels + 1) (.array (Condition.itemsToJson (items.map condition))) := by
  rw [items_to_json_eq, List.map_map]
  exact .array (List.forall_mem_map.mpr each)

theorem readable_test (test : FieldTest) : Readable 3 (testCondition test).toJson := by
  have single (value : Value) : Readable 1 (single test.field test.op value).toJson :=
    readable_leaf _ _ (value.readable_to_json 0)
  rw [test_condition_eq]
  split
  · rename_i value only
    exact (single value).mono (by omega)
  · split
    · have values : Readable 1 (.array (test.values.map Value.toJson)) :=
        .array (List.forall_mem_map.mpr fun value _ => value.readable_to_json 0)
      exact (readable_leaf _ _ values).mono (by omega)
    · rw [Condition.toJson]
      exact readable_member (readable_items fun value _ => single value)

/-- A level of the expression takes two of the document, and one leaf for each value one more. -/
theorem readable_condition {expression : Logic FieldTest} {levels : Nat}
    (shallow : expression.depth ≤ levels) :
    Readable (2 * levels + 1) (ofLogic expression).toJson := by
  induction expression using Logic.induct generalizing levels with
  | term test =>
      rw [Logic.depth] at shallow
      exact (readable_test test).mono (by omega)
  | all items members | any items members =>
      rw [Logic.depth] at shallow
      obtain ⟨levels, rfl⟩ := Nat.exists_eq_add_of_le' (Nat.one_le_of_lt shallow)
      rw [ofLogic, of_logic_all_eq, Condition.toJson]
      refine readable_member (readable_items fun item member => ?_)
      exact members item member (Logic.depth_of_all_le.mp (Nat.le_of_succ_le_succ shallow) item member)
  | not item inner =>
      rw [Logic.depth] at shallow
      obtain ⟨levels, rfl⟩ := Nat.exists_eq_add_of_le' (Nat.one_le_of_lt shallow)
      rw [ofLogic, Condition.toJson]
      exact (readable_member (inner (Nat.le_of_succ_le_succ shallow))).mono (by omega)

end PaloAlto

end DetectionRules
