import DetectionRules.Proofs.Adaptation.Resolution
import DetectionRules.Proofs.Pruning

/-!
What is left of a rule in another dialect: the tests that it has names and
spellings for, the selections that keep a test, and the condition over these.
-/

namespace DetectionRules.Adaptation

variable {rule : Rule} {target : Format} {fields : List FieldPair}

/-- Whether the target dialect has a name for the field of a test and a spelling for the test. -/
def isExpressible (target : Format) (fields : List FieldPair) (test : FieldTest) : Bool :=
  (native? fields test.field).any fun native => Catalog.supports target native test.op

/-- The name of a field in the target dialect, or its own if it has none there. -/
def renamed (fields : List FieldPair) (field : String) : String := (native? fields field).getD field

def renamedTest (fields : List FieldPair) (test : FieldTest) : FieldTest :=
  { test with field := renamed fields test.field }

/-- The tests of a selection that the target dialect can say, in its words. -/
def remaining (target : Format) (fields : List FieldPair) (selection : Selection) : List FieldTest :=
  (selection.tests.filter (isExpressible target fields)).map (renamedTest fields)

theorem kept_eq (target : Format) (fields : List FieldPair) (test : FieldTest) :
    kept? target fields test =
      (Option.guard (isExpressible target fields) test).map (renamedTest fields) := by
  rw [kept?, outcome, Option.guard, isExpressible]
  cases named : native? fields test.field with
  | none => rfl
  | some native =>
      cases supported : Catalog.supports target native test.op with
      | false => simp [supported]
      | true => simp [supported, renamedTest, renamed, named]

theorem selection_eq (target : Format) (fields : List FieldPair) (source : Selection) :
    selection target fields source = ⟨source.name, remaining target fields source⟩ := by
  rw [selection, funext (kept_eq target fields), remaining, ← List.map_filterMap,
    List.filterMap_eq_filter]

/-- The selections that keep a test. -/
def selectionsLeft (rule : Rule) (target : Format) (fields : List FieldPair) : List Selection :=
  (rule.selections.map (selection target fields)).filter (!·.tests.isEmpty)

/-- The names of the selections that keep no test. -/
def emptied (rule : Rule) (target : Format) (fields : List FieldPair) : List String :=
  ((rule.selections.map (selection target fields)).filter (·.tests.isEmpty)).map (·.name)

/-- The condition over the selections that keep a test, if there is one. -/
def conditionLeft? (rule : Rule) (target : Format) (fields : List FieldPair) :
    Option (Logic String) :=
  if (selectionsLeft rule target fields).isEmpty then none
  else condition? (emptied rule target fields) rule.condition

def ruleLeft (rule : Rule) (target : Format) (fields : List FieldPair)
    (condition : Logic String) : Rule :=
  { rule with
    dialect := target
    logSource := logSource target rule.logSource
    selections := selectionsLeft rule target fields
    condition
    aggregation := rule.aggregation.map (aggregation fields) }

theorem of_fields_eq (rule : Rule) (target : Format) (fields : List FieldPair)
    (issues : List Issue) :
    ofFields rule target fields issues =
      let found := issues ++ rule.selections.flatMap (selectionIssues target fields)
      match conditionLeft? rule target fields with
      | none => ⟨none, found ++ [nothingLeft target], fields⟩
      | some condition => ⟨some (ruleLeft rule target fields condition),
          found ++ LogSourcePart.all.filterMap (partIssue? target rule.logSource), fields⟩ := rfl

theorem mem_selections_left {left : Selection} :
    left ∈ selectionsLeft rule target fields ↔ ∃ source ∈ rule.selections,
      left = ⟨source.name, remaining target fields source⟩ ∧ remaining target fields source ≠ [] := by
  simp only [selectionsLeft, List.mem_filter, List.mem_map, selection_eq]
  constructor
  · rintro ⟨⟨source, member, rfl⟩, filled⟩
    exact ⟨source, member, rfl, by simpa using filled⟩
  · rintro ⟨source, member, rfl, filled⟩
    exact ⟨⟨source, member, rfl⟩, by simpa using filled⟩

theorem mem_emptied {name : String} : name ∈ emptied rule target fields ↔
    ∃ source ∈ rule.selections, source.name = name ∧ remaining target fields source = [] := by
  simp only [emptied, List.mem_map, List.mem_filter, selection_eq]
  constructor
  · rintro ⟨_, ⟨⟨source, member, rfl⟩, empty⟩, rfl⟩
    exact ⟨source, member, rfl, by simpa using empty⟩
  · rintro ⟨source, member, rfl, empty⟩
    exact ⟨_, ⟨⟨source, member, rfl⟩, by simpa using empty⟩, rfl⟩

theorem names_left_sublist (rule : Rule) (target : Format) (fields : List FieldPair) :
    ((selectionsLeft rule target fields).map (·.name)).Sublist (rule.selections.map (·.name)) := by
  have names : (rule.selections.map (selection target fields)).map (·.name) =
      rule.selections.map (·.name) := by
    rw [List.map_map]
    rfl
  rw [← names]
  exact List.filter_sublist.map _

theorem find_selection {selections : List Selection} (distinct : (selections.map (·.name)).Nodup)
    {selection : Selection} (member : selection ∈ selections) :
    selections.find? (·.name == selection.name) = some selection := by
  rw [List.find?_eq_some_iff_append]
  obtain ⟨before, after, rfl⟩ := List.append_of_mem member
  refine ⟨by simp, before, after, rfl, fun other inside => ?_⟩
  rw [List.map_append, List.map_cons, List.nodup_append] at distinct
  have different := distinct.2.2 other.name (List.mem_map_of_mem inside) selection.name (by simp)
  simpa using different

/-- A selection is found under its name with what is left of it, unless nothing is left. -/
theorem find_selection_left (distinct : (rule.selections.map (·.name)).Nodup)
    {source : Selection} (member : source ∈ rule.selections) :
    (selectionsLeft rule target fields).find? (·.name == source.name) =
      if remaining target fields source = [] then none
      else some ⟨source.name, remaining target fields source⟩ := by
  by_cases empty : remaining target fields source = []
  · rw [if_pos empty, List.find?_eq_none]
    intro left inside
    obtain ⟨other, known, rfl, filled⟩ := mem_selections_left.mp inside
    have different : other.name ≠ source.name := by
      intro same
      have found := find_selection distinct known
      rw [same, find_selection distinct member] at found
      cases found
      exact filled empty
    simpa using different
  · rw [if_neg empty]
    have inside : (⟨source.name, remaining target fields source⟩ : Selection) ∈
        selectionsLeft rule target fields := mem_selections_left.mpr ⟨source, member, rfl, empty⟩
    have distinctLeft := distinct.sublist (names_left_sublist rule target fields)
    exact find_selection distinctLeft inside

theorem left_iff_not_emptied (proper : rule.Proper) {name : String}
    (place : name ∈ rule.condition.terms) :
    ((selectionsLeft rule target fields).find? (·.name == name)).isSome =
      !(emptied rule target fields).contains name := by
  obtain ⟨source, found⟩ := Option.isSome_iff_exists.mp (proper.known name place)
  obtain ⟨member, rfl⟩ := Rule.selection_mem found
  have unique : source.name ∈ emptied rule target fields ↔ remaining target fields source = [] := by
    rw [mem_emptied]
    constructor
    · rintro ⟨other, known, same, empty⟩
      have again := find_selection proper.distinct known
      rw [same, find_selection proper.distinct member] at again
      cases again
      exact empty
    · exact fun empty => ⟨source, member, rfl, empty⟩
  rw [find_selection_left proper.distinct member]
  by_cases empty : remaining target fields source = []
  · simp [empty, unique.mpr empty]
  · simp [empty, mt unique.mp empty]

/-- The condition that is left has the names that are left, in their order. -/
theorem terms_of_condition_left (proper : rule.Proper) {condition : Logic String}
    (found : conditionLeft? rule target fields = some condition) :
    condition.terms = rule.condition.terms.filter fun name =>
      ((selectionsLeft rule target fields).find? (·.name == name)).isSome := by
  have same : rule.condition.terms.filter (fun name =>
      ((selectionsLeft rule target fields).find? (·.name == name)).isSome) =
      rule.condition.terms.filter fun name => !(emptied rule target fields).contains name :=
    List.filter_congr fun name place => left_iff_not_emptied proper place
  rw [conditionLeft?] at found
  split at found
  · cases found
  · rw [condition?] at found
    rw [same]
    split at found
    · rename_i none
      cases found
      rw [List.isEmpty_iff] at none
      simp [none]
    · exact Logic.terms_of_pruned found

theorem condition_left_filled (proper : rule.Proper) {condition : Logic String}
    (found : conditionLeft? rule target fields = some condition) :
    condition.hasEmptyGroup = false := by
  rw [conditionLeft?] at found
  split at found
  · cases found
  · rw [condition?] at found
    split at found
    · cases found
      exact proper.condition
    · exact (Logic.normal_prune found).filled

theorem selections_left_filled {condition : Logic String}
    (found : conditionLeft? rule target fields = some condition) :
    selectionsLeft rule target fields ≠ [] := by
  rw [conditionLeft?] at found
  split at found
  · cases found
  · rename_i filled
    simpa using filled

end DetectionRules.Adaptation
