import DetectionRules.Proofs.Selections

/-!
Where the values of selections come from. Naming the selections of an expression
merges tests and never makes up a value, so what holds of every value under its
field and operator holds of the values of the selections.
-/

namespace DetectionRules

/-- A property of values, given the field and the operator they are tested with. -/
abbrev Demand := String → Operator → Value → Prop

def FieldTest.Meets (demand : Demand) (test : FieldTest) : Prop :=
  ∀ value ∈ test.values, demand test.field test.op value

def Selection.Meets (demand : Demand) (selection : Selection) : Prop :=
  ∀ test ∈ selection.tests, test.Meets demand

namespace Expression

variable {demand : Demand}

theorem meets_folded {tests : List FieldTest} {first merged : FieldTest}
    (folded : tests.foldlM addAlternative first = some merged) (meetsFirst : first.Meets demand)
    (meets : ∀ test ∈ tests, test.Meets demand) : merged.Meets demand := by
  induction tests generalizing first with
  | nil =>
      cases folded
      exact meetsFirst
  | cons test rest induction =>
      rw [List.foldlM_cons, addAlternative] at folded
      by_cases same : test.field = first.field ∧ test.op = first.op
      · rw [if_pos same] at folded
        refine induction folded ?_ fun other member => meets other (List.mem_cons_of_mem test member)
        intro value member
        rcases mem_fold_add_value.mp member with member | member
        · exact meetsFirst value member
        · rw [← same.1, ← same.2]
          exact meets test (by simp) value member
      · rw [if_neg same] at folded
        cases folded

theorem meets_merged {items : List (Logic FieldTest)} {merged : FieldTest}
    (merges : mergeAlternatives items = some merged)
    (meets : ∀ test ∈ items.flatMap Logic.terms, test.Meets demand) : merged.Meets demand := by
  obtain ⟨first, rest, rfl, _, folded⟩ := of_merge_alternatives merges
  refine meets_folded folded (meets first (by simp [Logic.terms])) fun test member => ?_
  exact meets test (by simp [Logic.terms, List.flatMap_map, member])

theorem meets_filter {item : Logic FieldTest} {tests : List FieldTest}
    (found : filterTests? item = some tests) (meets : ∀ test ∈ item.terms, test.Meets demand) :
    ∀ test ∈ tests, test.Meets demand := by
  cases item with
  | term test =>
      cases found
      simpa [Logic.terms] using meets
  | all items =>
      obtain rfl := map_m_term found
      intro test member
      exact meets test (by simpa [Logic.terms, Logic.terms_of_all, List.flatMap_map] using member)
  | any items =>
      obtain ⟨merged, merges, rfl⟩ := Option.map_eq_some_iff.mp found
      intro test member
      rw [List.mem_singleton.mp member]
      exact meets_merged merges (by simpa only [Logic.terms, Logic.terms_of_all] using meets)
  | not item => cases found

/-- The selections that are named so far and those that an expression adds. -/
def NamesMeeting (demand : Demand) (named : List Selection) : Prop :=
  ∀ selection ∈ named, selection.Meets demand

theorem meets_select {naming : Naming} {tests : List FieldTest}
    (named : NamesMeeting demand naming.named) (meets : ∀ test ∈ tests, test.Meets demand) :
    NamesMeeting demand (Naming.select tests naming).2.named :=
  List.forall_mem_cons.mpr ⟨meets, named⟩

theorem meets_negated {naming : Naming} {tests : List FieldTest}
    (named : NamesMeeting demand naming.named) (meets : ∀ test ∈ tests, test.Meets demand) :
    NamesMeeting demand (Naming.filter tests naming).2.named :=
  List.forall_mem_cons.mpr ⟨meets, named⟩

/-- What naming the selections of an expression does to the selections that are named. -/
def KeepsMeeting (demand : Demand) (expression : Logic FieldTest) : Prop :=
  ∀ naming : Naming, NamesMeeting demand naming.named →
    (∀ test ∈ expression.terms, test.Meets demand) →
    NamesMeeting demand (nameSelections expression naming).2.named

theorem meets_all {items : List (Logic FieldTest)}
    (members : ∀ item ∈ items, KeepsMeeting demand item) {naming : Naming}
    (named : NamesMeeting demand naming.named)
    (meets : ∀ test ∈ items.flatMap Logic.terms, test.Meets demand) :
    NamesMeeting demand (nameAll items naming).2.named := by
  induction items generalizing naming with
  | nil => exact named
  | cons item rest induction =>
      rw [List.flatMap_cons, List.forall_mem_append] at meets
      refine induction (fun other member => members other (List.mem_cons_of_mem item member)) ?_ meets.2
      exact members item (by simp) naming named meets.1

theorem meets_groups {items : List (Logic FieldTest)}
    (members : ∀ item ∈ items, KeepsMeeting demand item) {naming : Naming}
    (named : NamesMeeting demand naming.named)
    (meets : ∀ test ∈ items.flatMap Logic.terms, test.Meets demand) :
    NamesMeeting demand (nameGroups items naming).2.named := by
  induction items generalizing naming with
  | nil => exact named
  | cons item rest induction =>
      rw [List.flatMap_cons, List.forall_mem_append] at meets
      have others := @induction fun other member => members other (List.mem_cons_of_mem item member)
      have first := members item (by simp) naming named meets.1
      cases item with
      | term test => exact others named meets.2
      | all items => exact others first meets.2
      | any items => exact others first meets.2
      | not item => exact others first meets.2

theorem keeps_meeting (expression : Logic FieldTest) : KeepsMeeting demand expression := by
  induction expression using Logic.induct with
  | term test => exact fun naming named meets => meets_select named meets
  | all items members =>
      intro naming named meets
      rw [Logic.terms, Logic.terms_of_all] at meets
      have shared : ∀ test ∈ items.filterMap Logic.term?, test.Meets demand := by
        intro test member
        obtain ⟨item, inside, found⟩ := List.mem_filterMap.mp member
        obtain rfl : item = .term test := by
          cases item <;> simp_all [Logic.term?]
        exact meets test (List.mem_flatMap.mpr ⟨_, inside, by simp [Logic.terms]⟩)
      rw [nameSelections]
      split
      · exact meets_groups members named meets
      · exact meets_groups members (meets_select named shared) meets
  | any items members =>
      intro naming named meets
      rw [Logic.terms, Logic.terms_of_all] at meets
      rw [nameSelections]
      cases merges : mergeAlternatives items with
      | some merged => exact meets_select named (by simpa using meets_merged merges meets)
      | none => exact meets_all members named meets
  | not item inner =>
      intro naming named meets
      rw [nameSelections]
      cases found : filterTests? item with
      | some tests => exact meets_negated named (meets_filter found meets)
      | none => exact inner naming named meets

theorem meets_to_selections {expression : Logic FieldTest}
    (meets : ∀ test ∈ expression.terms, test.Meets demand) :
    ∀ selection ∈ (toSelections expression).1, selection.Meets demand := by
  intro selection member
  apply keeps_meeting expression {} (by simp [NamesMeeting]) meets
  exact List.mem_reverse.mp member

end Expression

end DetectionRules
