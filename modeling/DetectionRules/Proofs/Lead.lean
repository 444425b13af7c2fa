import DetectionRules.Expression.Selections
import DetectionRules.Proofs.Wording

/-!
Expressions that are led by tests of their own. A dialect that has no clause for
the source of events puts tests of it in front of the condition, as members of
one conjunction, and lifts them out of the conjunction when it reads it.
-/

namespace DetectionRules.Expression

open scoped List

variable {Term : Type}

/-- An expression behind the tests that lead it. -/
def led (tests : List Term) (expression : Logic Term) : Logic Term :=
  Logic.conj (tests.map .term ++ [expression])

theorem forall_mem_led {tests : List Term} {expression : Logic Term} {holds : Logic Term → Prop}
    (own : ∀ test, holds (.term test)) (behind : holds expression) :
    ∀ item ∈ tests.map Logic.term ++ [expression], holds item := by
  intro item member
  rcases List.mem_append.mp member with member | member
  · obtain ⟨test, _, rfl⟩ := List.mem_map.mp member
    exact own test
  · obtain rfl := List.mem_singleton.mp member
    exact behind

theorem normal_led {tests : List Term} {expression : Logic Term} (normal : expression.Normal) :
    (led tests expression).Normal :=
  Logic.Normal.conj (by simp) (forall_mem_led .term normal)

theorem filled_led {tests : List Term} {expression : Logic Term}
    (filled : expression.hasEmptyGroup = false) : (led tests expression).hasEmptyGroup = false :=
  Logic.filled_conj (by simp) (forall_mem_led (fun _ => rfl) filled)

theorem depth_led_le {tests : List Term} {expression : Logic Term} {bound : Nat}
    (shallow : expression.depth ≤ bound + 1) : (led tests expression).depth ≤ bound + 2 := by
  refine Logic.depth_conj_le (forall_mem_led (fun test => ?_) shallow)
  rw [Logic.depth]
  exact Nat.le_add_left 1 _

theorem terms_of_single (tests : List Term) : (tests.map Logic.term).flatMap Logic.terms = tests := by
  simp [List.flatMap_map, Logic.terms]

theorem terms_led (tests : List Term) (expression : Logic Term) :
    (led tests expression).terms = tests ++ expression.terms := by
  rw [led, Logic.terms_conj, List.flatMap_append, List.flatMap_singleton, terms_of_single]

theorem mem_terms_led {tests : List Term} {expression : Logic Term} {test : Term} :
    test ∈ (led tests expression).terms ↔ test ∈ tests ∨ test ∈ expression.terms := by
  rw [terms_led, List.mem_append]

theorem eval_led (holds : Term → Bool) (tests : List Term) (expression : Logic Term) :
    (led tests expression).eval holds = (tests.all holds && expression.eval holds) := by
  simp [led, Logic.eval_conj, Logic.eval, Function.comp_def]

theorem conjuncts_of_single (tests : List Term) :
    (tests.map Logic.term).flatMap Logic.conjuncts = tests.map Logic.term := by
  rw [List.flatMap_map]
  exact (List.map_eq_flatMap).symm

theorem conjuncts_led (tests : List Term) {expression : Logic Term} (normal : expression.Normal) :
    (led tests expression).conjuncts = tests.map .term ++ expression.conjuncts := by
  rw [led, Logic.conjuncts_conj (forall_mem_led .term normal), List.flatMap_append,
    conjuncts_of_single, List.flatMap_singleton]

/-- Tests in front of an expression make it a conjunction with its own members. -/
theorem led_cons (test : Term) (rest : List Term) {expression : Logic Term}
    (normal : expression.Normal) :
    led (test :: rest) expression = .all ((test :: rest).map .term ++ expression.conjuncts) := by
  rw [led, Logic.conj, List.flatMap_append, conjuncts_of_single, List.flatMap_singleton]
  split
  · rename_i item single
    have some := normal.conjuncts_ne_nil
    rw [List.map_cons, List.cons_append, List.cons.injEq, List.append_eq_nil_iff] at single
    exact absurd single.2.2 some
  · rfl

variable {spelling : Spelling Term} {leadText : Term → String}

theorem render_all_append {surroundings : Binding} {items others : List (Logic Term)}
    {texts : List String} (rendered : renderAll spelling surroundings others = .ok texts) :
    renderAll spelling surroundings (items ++ others) =
      (renderAll spelling surroundings items).map (· ++ texts) := by
  induction items with
  | nil => exact rendered
  | cons item rest induction =>
      rw [List.cons_append, renderAll, renderAll, induction]
      cases renderIn spelling surroundings item with
      | error _ => rfl
      | ok first => cases renderAll spelling surroundings rest <;> rfl

theorem render_all_terms {surroundings : Binding} {tests : List Term}
    (known : ∀ test ∈ tests, spelling.term test = .ok (leadText test)) :
    renderAll spelling surroundings (tests.map .term) = .ok (tests.map leadText) := by
  induction tests with
  | nil => rfl
  | cons test rest induction =>
      have first : renderIn spelling surroundings (.term test) = .ok (leadText test) :=
        known test (by simp)
      have others := induction fun other member => known other (List.mem_cons_of_mem test member)
      rw [List.map_cons, renderAll, first, others]
      rfl

/-- The members of a conjunction are written side by side, and a disjunction between
parentheses is the only member of one. -/
theorem render_conjuncts {expression : Logic Term} {text : String}
    (normal : expression.Normal) (rendered : render spelling expression = .ok text) :
    ∃ parts, parts ≠ [] ∧ renderAll spelling .conjunction expression.conjuncts = .ok parts ∧
      String.intercalate spelling.conjunction parts = encloseIf expression.isDisjunction text := by
  have alone {inner : String} (part : renderIn spelling .conjunction expression = .ok inner) :
      renderAll spelling .conjunction [expression] = .ok [inner] := by
    rw [renderAll, part]
    rfl
  cases normal with
  | term test => exact ⟨[text], by simp, alone rendered, String.intercalate_singleton⟩
  | not inner single => exact ⟨[text], by simp, alone rendered, String.intercalate_singleton⟩
  | any long members flat =>
      rw [render, renderIn] at rendered
      obtain ⟨parts, partsRendered, rendered⟩ := Success.of_bind rendered
      refine ⟨["(" ++ text ++ ")"], by simp, alone ?_, String.intercalate_singleton⟩
      rw [renderIn, partsRendered]
      cases rendered
      rfl
  | all long members flat =>
      rw [render, renderIn] at rendered
      obtain ⟨parts, partsRendered, rendered⟩ := Success.of_bind rendered
      refine ⟨parts, ?_, partsRendered, Except.ok.inj rendered⟩
      obtain ⟨first, others, rfl⟩ := List.exists_cons_of_length_pos (Nat.lt_of_lt_of_le two_pos long)
      rw [renderAll] at partsRendered
      obtain ⟨part, _, partsRendered⟩ := Success.of_bind partsRendered
      obtain ⟨rest, _, partsRendered⟩ := Success.of_bind partsRendered
      cases partsRendered
      simp

theorem render_led {tests : List Term} {expression : Logic Term} {text : String}
    (known : ∀ test ∈ tests, spelling.term test = .ok (leadText test))
    (normal : expression.Normal) (rendered : render spelling expression = .ok text) :
    render spelling (led tests expression) = .ok (String.intercalate spelling.conjunction
      (tests.map leadText ++ [encloseIf (expression.isDisjunction && !tests.isEmpty) text])) := by
  have leading := @render_all_terms _ _ _ .conjunction tests known
  cases tests with
  | nil =>
      rw [led, List.map_nil, List.nil_append, Logic.conj_single normal, rendered]
      simp [encloseIf]
  | cons test rest =>
      obtain ⟨parts, some, partsRendered, joinedParts⟩ := render_conjuncts normal rendered
      rw [led_cons test rest normal, render, renderIn, render_all_append partsRendered, leading]
      have split : String.intercalate spelling.conjunction ((test :: rest).map leadText ++ parts) =
          String.intercalate spelling.conjunction ((test :: rest).map leadText ++
            [encloseIf expression.isDisjunction text]) := by
        rw [String.intercalate_append_of_ne_nil (by simp) some,
          String.intercalate_append_of_ne_nil (by simp) (by simp), joinedParts,
          String.intercalate_singleton]
      change Except.ok (String.intercalate spelling.conjunction
        ((test :: rest).map leadText ++ parts)) = _
      rw [split]
      simp

theorem bind_led {tree : Term → Logic Term} {tests : List Term} {expression : Logic Term}
    (itself : ∀ test ∈ tests, tree test = .term test) (normal : expression.Normal)
    (trees : ∀ test ∈ expression.terms, (tree test).Normal) :
    (led tests expression).bind tree = led tests (expression.bind tree) := by
  have bound := Logic.Normal.bind normal.filled trees
  cases tests with
  | nil =>
      rw [led, led, List.map_nil, List.nil_append, List.nil_append, Logic.conj_single normal,
        Logic.conj_single bound]
  | cons test rest =>
      have leading : ((test :: rest).map Logic.term).map (Logic.bind tree) =
          (test :: rest).map Logic.term := by
        rw [List.map_map]
        exact List.map_congr_left fun other member => itself other member
      have parts : ∀ part ∈ expression.conjuncts.map (Logic.bind tree), part.Normal := by
        intro part member
        obtain ⟨item, inside, rfl⟩ := List.mem_map.mp member
        refine Logic.Normal.bind (normal.conjunct inside).1.filled fun term place => ?_
        apply trees
        rw [← Logic.terms_conjuncts]
        exact List.mem_flatMap.mpr ⟨item, inside, place⟩
      rw [led_cons test rest normal, Logic.bind, Logic.bind_all, List.map_append, leading, led,
        ← Logic.bind_conjuncts tree bound, Logic.conj_append_conj parts]

section

variable (picks : FieldTest → Bool)

/-- The tests among the members of the outermost conjunction that are chosen. -/
def picked (expression : Logic FieldTest) : List FieldTest :=
  expression.conjuncts.filterMap fun item => item.term?.filter picks

/-- The members of the outermost conjunction that are no chosen tests. -/
def unpicked (expression : Logic FieldTest) : List (Logic FieldTest) :=
  expression.conjuncts.filter fun item => !item.term?.any picks

theorem lift_tests_eq (expression : Logic FieldTest) : liftTests picks expression =
    (picked picks expression, Logic.group? Logic.conj (unpicked picks expression)) := by
  cases expression with
  | term test =>
      have itself : (Logic.term test).term? = some test := rfl
      rw [liftTests]
      cases chosen : picks test <;>
        simp [picked, unpicked, Logic.conjuncts, Logic.group?, Logic.conj, Option.filter, itself, chosen]
  | all items => rfl
  | any items => rfl
  | not item => rfl

theorem perm_picked (expression : Logic FieldTest) :
    (picked picks expression).map Logic.term ++ unpicked picks expression ~ expression.conjuncts := by
  have taken : (fun item : Logic FieldTest => (item.term?.filter picks).map Logic.term) =
      Option.guard fun item => item.term?.any picks := by
    funext item
    cases item with
    | term test =>
        rw [Option.guard, Logic.term?, Option.filter, Option.any]
        cases picks test <;> rfl
    | all items => rfl
    | any items => rfl
    | not item => rfl
  rw [picked, List.map_filterMap, taken, List.filterMap_eq_filter]
  exact List.filter_append_perm _ _

end

variable {picks : FieldTest → Bool} {tests : List FieldTest} {expression : Logic FieldTest}

/-- The tests in front of an expression are lifted out again. -/
theorem lift_led (chosen : ∀ test ∈ tests, picks test = true) (normal : expression.Normal)
    (others : ∀ test ∈ expression.terms, picks test = false) :
    liftTests picks (led tests expression) = (tests, some expression) := by
  have members : ∀ item ∈ expression.conjuncts, item.term?.any picks = false := by
    intro item member
    cases item with
    | term test =>
        apply others test
        rw [← Logic.terms_conjuncts]
        exact List.mem_flatMap.mpr ⟨.term test, member, by simp [Logic.terms]⟩
    | all items => rfl
    | any items => rfl
    | not item => rfl
  have none : expression.conjuncts.filterMap (fun item => item.term?.filter picks) = [] := by
    rw [List.filterMap_eq_nil_iff]
    intro item member
    have other := members item member
    rw [Option.any_eq_false] at other
    exact Option.filter_eq_none_iff.mpr (by simpa using other)
  have leading : (tests.map Logic.term).filterMap (fun item => item.term?.filter picks) = tests := by
    have each : ∀ test ∈ tests,
        ((fun item : Logic FieldTest => item.term?.filter picks) ∘ Logic.term) test = some test :=
      fun test member => by simp [Logic.term?, Option.filter, chosen test member]
    rw [List.filterMap_map, List.filterMap_congr each, List.filterMap_some]
  have left : (tests.map Logic.term).filter (fun item => !item.term?.any picks) = [] := by
    rw [List.filter_eq_nil_iff]
    intro item member
    obtain ⟨test, inside, rfl⟩ := List.mem_map.mp member
    simp [Logic.term?, chosen test inside]
  have kept : expression.conjuncts.filter (fun item => !item.term?.any picks) =
      expression.conjuncts :=
    List.filter_eq_self.mpr fun item member => by simp [members item member]
  have filled : expression.conjuncts.isEmpty = false := by
    simpa using normal.conjuncts_ne_nil
  rw [lift_tests_eq, picked, unpicked, conjuncts_led tests normal, List.filterMap_append,
    List.filter_append, none, leading, left, kept]
  simp [Logic.group?, filled, Logic.conj_conjuncts normal]

end DetectionRules.Expression
