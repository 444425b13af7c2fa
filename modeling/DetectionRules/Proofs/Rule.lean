import DetectionRules.Expression.Selections
import DetectionRules.Proofs.Logic

/-!
What a rule means and what its check asks for. A rule holds for some field
tests and fails for others; which tests hold is given by their field, operator
and a value, or by the text of the value if a number and its digits are the same.
-/

namespace DetectionRules

/-- Which tests hold, by field, operator and the text of the value. -/
abbrev Truth := String → Operator → String → Bool

def FieldTest.holds (truth : Truth) (test : FieldTest) : Bool :=
  test.values.any fun value => truth test.field test.op value.text

def Selection.holds (truth : Truth) (selection : Selection) : Bool :=
  selection.tests.all (·.holds truth)

/-- The condition over the selections, apart from the source of events and the threshold. -/
def Rule.holds (truth : Truth) (rule : Rule) : Bool :=
  rule.condition.eval fun name => (rule.selection? name).any (·.holds truth)

/-- Which tests hold, by field, operator and value. -/
abbrev Valuation := String → Operator → Value → Bool

/-- Which tests hold if only the text of a value counts. -/
def Truth.valuation (truth : Truth) : Valuation := fun field op value => truth field op value.text

def FieldTest.holdsFor (truth : Valuation) (test : FieldTest) : Bool :=
  test.values.any (truth test.field test.op)

def Selection.holdsFor (truth : Valuation) (selection : Selection) : Bool :=
  selection.tests.all (·.holdsFor truth)

/-- As `holds`, with numbers and texts told apart. -/
def Rule.holdsFor (truth : Valuation) (rule : Rule) : Bool :=
  rule.condition.eval fun name => (rule.selection? name).any (·.holdsFor truth)

structure FieldTest.Proper (test : FieldTest) : Prop where
  named : test.field ≠ ""
  filled : test.values ≠ []
  compared : test.op.isComparison = true → ∃ number, test.values = [.int number]

structure Selection.Proper (selection : Selection) : Prop where
  filled : selection.tests ≠ []
  tests : ∀ test ∈ selection.tests, test.Proper

structure Aggregation.Proper (aggregation : Aggregation) : Prop where
  counted : aggregation.counted ≠ .distinct ""
  window : ∀ window ∈ aggregation.window, window.seconds ≠ 0

theorem FieldTest.flaw_eq_none_iff (selection : String) (test : FieldTest) :
    test.flaw? selection = none ↔ test.Proper := by
  have compared : (test.op.isComparison && !(test.values.length == 1 &&
      test.values.all (·.int?.isSome))) = false ↔
      (test.op.isComparison = true → ∃ number, test.values = [.int number]) := by
    match test.values with
    | [] => simp
    | [.int number] => simp [Value.int?]
    | [.str text] => simp [Value.int?]
    | _ :: _ :: _ => simp
  rw [FieldTest.flaw?]
  constructor
  · intro sound
    split at sound
    · cases sound
    · split at sound
      · cases sound
      · split at sound
        · cases sound
        · rename_i named filled other
          exact ⟨by simpa using named, by simpa using filled, compared.mp (Bool.eq_false_iff.mpr other)⟩
  · intro proper
    rw [if_neg (by simpa using proper.named), if_neg (by simpa using proper.filled),
      if_neg (Bool.eq_false_iff.mp (compared.mpr proper.compared))]

theorem Selection.flaw_eq_none_iff (selection : Selection) :
    selection.flaw? = none ↔ selection.Proper := by
  rw [Selection.flaw?]
  constructor
  · intro sound
    split at sound
    · cases sound
    · rename_i filled
      refine ⟨by simpa using filled, fun test member => ?_⟩
      exact (test.flaw_eq_none_iff selection.name).mp (List.findSome?_eq_none_iff.mp sound test member)
  · intro proper
    rw [if_neg (by simpa using proper.filled)]
    exact List.findSome?_eq_none_iff.mpr fun test member =>
      (test.flaw_eq_none_iff selection.name).mpr (proper.tests test member)

theorem Selection.first_flaw_eq_none_iff (taken : List String) (selections : List Selection) :
    Selection.firstFlaw? taken selections = none ↔
      (∀ selection ∈ selections, selection.name ≠ "" ∧ selection.name ∉ taken ∧ selection.Proper) ∧
        (selections.map (·.name)).Nodup := by
  induction selections generalizing taken with
  | nil => simp [Selection.firstFlaw?]
  | cons selection rest induction =>
      rw [Selection.firstFlaw?]
      by_cases unnamed : selection.name = ""
      · simp [unnamed]
      · by_cases known : selection.name ∈ taken
        · simp [unnamed, known]
        · simp only [String.isEmpty_iff, unnamed, if_false, List.contains_iff_mem, known,
            Option.or_eq_none_iff, Selection.flaw_eq_none_iff, induction, List.mem_cons,
            List.map_cons, List.nodup_cons, forall_eq_or_imp, List.mem_map]
          grind

theorem Aggregation.flaw_eq_none_iff (aggregation : Aggregation) :
    aggregation.flaw? = none ↔ aggregation.Proper := by
  have windows : aggregation.window.any (·.seconds == 0) = false ↔
      ∀ window ∈ aggregation.window, window.seconds ≠ 0 := by
    cases aggregation.window <;> simp
  rw [Aggregation.flaw?]
  constructor
  · intro sound
    split at sound
    · cases sound
    · split at sound
      · cases sound
      · rename_i counted window
        exact ⟨counted, windows.mp (by simpa using window)⟩
  · intro proper
    rw [if_neg proper.counted, if_neg (by simp [windows.mpr proper.window])]

namespace Rule

/-- The parts of `check`. -/
structure Proper (rule : Rule) : Prop where
  filled : rule.selections ≠ []
  named : ∀ selection ∈ rule.selections, selection.name ≠ ""
  selections : ∀ selection ∈ rule.selections, selection.Proper
  distinct : (rule.selections.map (·.name)).Nodup
  known : ∀ name ∈ rule.condition.terms, (rule.selection? name).isSome = true
  condition : rule.condition.hasEmptyGroup = false
  aggregation : ∀ aggregation ∈ rule.aggregation, aggregation.Proper

theorem dangling_eq_nil_iff (rule : Rule) : rule.danglingReferences = [] ↔
    ∀ name ∈ rule.condition.terms, (rule.selection? name).isSome = true := by
  simp [danglingReferences, Option.isSome_iff_ne_none]

theorem well_formed_iff (rule : Rule) : rule.WellFormed ↔ rule.Proper := by
  have dangling := rule.dangling_eq_nil_iff
  have counted : rule.aggregation.bind (·.flaw?) = none ↔
      ∀ aggregation ∈ rule.aggregation, aggregation.Proper := by
    cases rule.aggregation <;> simp [Aggregation.flaw_eq_none_iff]
  rw [WellFormed, check]
  constructor
  · intro sound
    split at sound
    · cases sound
    · rename_i filled
      rw [Option.or_eq_none_iff, Selection.first_flaw_eq_none_iff] at sound
      obtain ⟨⟨each, distinct⟩, sound⟩ := sound
      split at sound
      · cases sound
      · rename_i known
        split at sound
        · cases sound
        · rename_i condition
          exact ⟨by simpa using filled, fun selection member => (each selection member).1,
            fun selection member => (each selection member).2.2, distinct, dangling.mp known,
            by simpa using condition, counted.mp sound⟩
  · intro proper
    rw [if_neg (by simpa using proper.filled), Option.or_eq_none_iff,
      Selection.first_flaw_eq_none_iff, dangling.mpr proper.known]
    refine ⟨⟨fun selection member => ⟨proper.named selection member, by simp,
      proper.selections selection member⟩, proper.distinct⟩, ?_⟩
    simp [proper.condition, counted.mpr proper.aggregation]

/-- The tests of a selection in the place of its name; a name that no selection bears stands for
no test at all. -/
def selectionTree (rule : Rule) (name : String) : Logic FieldTest :=
  (rule.selection? name).elim (.all []) fun selection => Logic.conj (selection.tests.map .term)

def expression (rule : Rule) : Logic FieldTest := rule.condition.bind rule.selectionTree

theorem of_rule_of_known {rule : Rule}
    (known : ∀ name ∈ rule.condition.terms, (rule.selection? name).isSome = true) :
    Expression.ofRule rule = .ok rule.expression := by
  refine Logic.substitute_eq_bind fun name member => ?_
  obtain ⟨selection, found⟩ := Option.isSome_iff_exists.mp (known name member)
  simp [selectionTree, found]

theorem of_rule_eq_expression {rule : Rule} (proper : rule.Proper) :
    Expression.ofRule rule = .ok rule.expression :=
  of_rule_of_known proper.known

theorem eval_expression_of_known {rule : Rule}
    (known : ∀ name ∈ rule.condition.terms, (rule.selection? name).isSome = true)
    (truth : Valuation) : rule.expression.eval (·.holdsFor truth) = rule.holdsFor truth := by
  rw [expression, Logic.eval_bind, holdsFor]
  refine Logic.eval_congr _ fun name member => ?_
  obtain ⟨selection, found⟩ := Option.isSome_iff_exists.mp (known name member)
  simp [selectionTree, found, Selection.holdsFor, Logic.eval, Function.comp_def]

theorem eval_expression_for {rule : Rule} (proper : rule.Proper) (truth : Valuation) :
    rule.expression.eval (·.holdsFor truth) = rule.holdsFor truth :=
  eval_expression_of_known proper.known truth

/-- The first name without a selection is the one that an expression fails for. -/
theorem failure_of_rule (rule : Rule) : Success.failure? (Expression.ofRule rule) =
    rule.danglingReferences.head?.map .undefinedSelection := by
  rw [Expression.ofRule, Logic.failure_substitute, danglingReferences]
  induction rule.condition.terms with
  | nil => rfl
  | cons name rest induction =>
      rw [List.findSome?_cons, induction]
      cases found : rule.selection? name <;> simp [found, Success.failure?]

/-- An expression over field tests exists unless the condition mentions a name that no selection
bears; the first such name is the one the failure tells. The expression holds whenever the
condition over the selections does, whichever tests hold. -/
theorem inlined (rule : Rule) :
    match rule.danglingReferences with
    | name :: _ => Expression.ofRule rule = .error (.undefinedSelection name)
    | [] => ∃ expression, Expression.ofRule rule = .ok expression ∧
        ∀ truth : Valuation, expression.eval (·.holdsFor truth) = rule.holdsFor truth := by
  have failure := failure_of_rule rule
  split
  · rename_i name others dangling
    rw [dangling] at failure
    exact Success.failure_eq_some_iff.mp failure
  · rename_i complete
    have known := rule.dangling_eq_nil_iff.mp complete
    exact ⟨rule.expression, of_rule_of_known known, eval_expression_of_known known⟩

theorem eval_expression {rule : Rule} (proper : rule.Proper) (truth : Truth) :
    rule.expression.eval (·.holds truth) = rule.holds truth :=
  eval_expression_for proper truth.valuation

theorem selection_mem {rule : Rule} {name : String} {selection : Selection}
    (found : rule.selection? name = some selection) :
    selection ∈ rule.selections ∧ selection.name = name :=
  ⟨List.mem_of_find?_eq_some found, by simpa using List.find?_some found⟩

theorem selection_of_mem {rule : Rule} (proper : rule.Proper) {selection : Selection}
    (member : selection ∈ rule.selections) : rule.selection? selection.name = some selection := by
  cases found : rule.selection? selection.name with
  | none => exact absurd (List.find?_eq_none.mp found selection member) (by simp)
  | some other =>
      obtain ⟨known, same⟩ := selection_mem found
      exact congrArg some (List.inj_on_of_nodup_map proper.distinct known member same)

theorem normal_expression {rule : Rule} (proper : rule.Proper) : rule.expression.Normal := by
  refine Logic.Normal.bind proper.condition fun name member => ?_
  obtain ⟨selection, found⟩ := Option.isSome_iff_exists.mp (proper.known name member)
  have sound := proper.selections selection (selection_mem found).1
  rw [selectionTree, found]
  refine Logic.Normal.conj (by simpa using sound.filled) fun item inside => ?_
  obtain ⟨test, _, rfl⟩ := List.mem_map.mp inside
  exact .term test

theorem depth_expression_le (rule : Rule) : rule.expression.depth ≤ rule.condition.depth + 1 := by
  refine Logic.depth_bind_le (fun name => ?_) _
  rw [selectionTree]
  cases rule.selection? name with
  | none => simp [Logic.depth, Logic.depthOfAll]
  | some selection =>
      refine Logic.depth_conj_le fun item member => ?_
      obtain ⟨test, _, rfl⟩ := List.mem_map.mp member
      simp [Logic.depth]

theorem mem_terms_expression {rule : Rule} {test : FieldTest}
    (member : test ∈ rule.expression.terms) :
    ∃ selection ∈ rule.selections, selection.name ∈ rule.condition.terms ∧ test ∈ selection.tests := by
  rw [expression, Logic.terms_bind] at member
  obtain ⟨name, place, member⟩ := List.mem_flatMap.mp member
  rw [selectionTree] at member
  cases found : rule.selection? name with
  | none => simp [found, Logic.terms, Logic.termsOfAll] at member
  | some selection =>
      obtain ⟨inside, named⟩ := selection_mem found
      refine ⟨selection, inside, named ▸ place, ?_⟩
      simpa [found, List.flatMap_map, Logic.terms] using member

theorem proper_of_mem_expression {rule : Rule} (proper : rule.Proper) {test : FieldTest}
    (member : test ∈ rule.expression.terms) : test.Proper := by
  obtain ⟨selection, inside, _, place⟩ := mem_terms_expression member
  exact (proper.selections selection inside).tests test place

end Rule

end DetectionRules
