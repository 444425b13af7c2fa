import DetectionRules.Proofs.Adaptation.Remainder

/-!
A well-formed rule that is adapted stays well formed. The selections are
filtered, the condition is pruned and the threshold is renamed, each on its own;
what couples them is that a name is pruned if and only if its selection is gone.
-/

namespace DetectionRules

namespace Adaptation

variable {rule : Rule} {target : Format} {fields : List FieldPair}

/-- No field with a name gets an empty one. -/
def KeepsNames (fields : List FieldPair) : Prop :=
  ∀ field name, native? fields field = some name → field ≠ "" → name ≠ ""

theorem keeps_names_of_allowed {source : Format} {entries : List (String × Resolution)}
    (allowed : ∀ entry ∈ entries,
      entry.2.Allowed target (Catalog.translate? source target entry.1)) :
    KeepsNames (pairs entries) := by
  intro field name named filled
  obtain ⟨entry, member, rfl, found⟩ := entry_of_named named
  exact (allowed entry member).filled filled found

theorem proper_renamed_test (names : KeepsNames fields) {test : FieldTest} (proper : test.Proper)
    (expressible : isExpressible target fields test = true) : (renamedTest fields test).Proper := by
  refine ⟨?_, proper.filled, proper.compared⟩
  rw [isExpressible, Option.any_eq_true] at expressible
  obtain ⟨native, named, _⟩ := expressible
  rw [renamedTest, renamed, named, Option.getD_some]
  exact names test.field native named proper.named

theorem proper_selection_left (names : KeepsNames fields) (proper : rule.Proper)
    {left : Selection} (member : left ∈ selectionsLeft rule target fields) : left.Proper := by
  obtain ⟨source, inside, rfl, filled⟩ := mem_selections_left.mp member
  refine ⟨filled, fun test place => ?_⟩
  obtain ⟨original, found, rfl⟩ := List.mem_map.mp place
  obtain ⟨known, expressible⟩ := List.mem_filter.mp found
  exact proper_renamed_test names ((proper.selections source inside).tests original known) expressible

theorem proper_aggregation (names : KeepsNames fields) {source : Aggregation}
    (proper : source.Proper) : (aggregation fields source).Proper := by
  refine ⟨?_, proper.window⟩
  obtain ⟨counted, groupBy, comparison, threshold, window⟩ := source
  cases counted with
  | events => simp [aggregation]
  | distinct field =>
      have filled : field ≠ "" := fun empty => proper.counted (by rw [empty])
      cases named : native? fields field with
      | none => simp [aggregation, named]
      | some native => simpa [aggregation, named] using names field native named filled

theorem proper_rule_left (names : KeepsNames fields) (proper : rule.Proper)
    {condition : Logic String} (left : conditionLeft? rule target fields = some condition) :
    (ruleLeft rule target fields condition).Proper where
  filled := selections_left_filled left
  named := by
    intro selection member
    obtain ⟨source, inside, rfl, _⟩ := mem_selections_left.mp member
    exact proper.named source inside
  selections := fun selection member => proper_selection_left names proper member
  distinct := proper.distinct.sublist (names_left_sublist rule target fields)
  known := by
    intro name place
    rw [ruleLeft, terms_of_condition_left proper left] at place
    exact (List.mem_filter.mp place).2
  condition := condition_left_filled proper left
  aggregation := by
    intro adapted member
    obtain ⟨source, inside, rfl⟩ := Option.map_eq_some_iff.mp member
    exact proper_aggregation names (proper.aggregation source inside)

theorem rule_of_fields {issues : List Issue} {adapted : Rule}
    (left : (ofFields rule target fields issues).rule = some adapted) :
    ∃ condition, conditionLeft? rule target fields = some condition ∧
      adapted = ruleLeft rule target fields condition := by
  rw [of_fields_eq] at left
  cases found : conditionLeft? rule target fields with
  | none => simp [found] at left
  | some condition =>
      rw [found] at left
      cases left
      exact ⟨condition, rfl, rfl⟩

end Adaptation

/-- Whatever the advisor does, the adapted rule is a well-formed rule of the target dialect. Its
condition mentions the selections that are left, each where it was mentioned before, and no group
of it is empty. -/
theorem FieldResolver.adapt_well_formed {World : Type} (resolver : FieldResolver World)
    {rule adapted : Rule} {target : Format} {moment : Activity.Moment World}
    (sound : rule.WellFormed)
    (left : ((resolver.adapt rule target).run moment).1.rule = some adapted) :
    adapted.WellFormed ∧ adapted.dialect = target ∧ adapted.danglingReferences = [] ∧
      adapted.condition.hasEmptyGroup = false ∧
      adapted.condition.terms =
        rule.condition.terms.filter fun name => (adapted.selection? name).isSome := by
  have proper := (Rule.well_formed_iff rule).mp sound
  obtain ⟨entries, _, allowed, outcome⟩ := resolver.run_adapt rule target moment
  rw [outcome] at left
  obtain ⟨condition, found, rfl⟩ := Adaptation.rule_of_fields left
  have again := Adaptation.proper_rule_left (Adaptation.keeps_names_of_allowed allowed) proper found
  exact ⟨(Rule.well_formed_iff _).mpr again, rfl, (Rule.dangling_eq_nil_iff _).mpr again.known,
    again.condition, Adaptation.terms_of_condition_left proper found⟩

def unsureAdvisor : Advisor Unit := fun question =>
  if question.field = "Mood" then .wait 5 (.done (.ok ⟨"UserName", .finite (1 / 2)⟩))
  else .done (.error (.unavailable "later"))

def unsureResolver : FieldResolver Unit := .ofConfig {} (some unsureAdvisor)

def moodyLogon : Rule where
  dialect := .sigma
  title := none
  description := none
  logSource := ⟨some "windows", none, some "security"⟩
  selections := [
    ⟨"logon", [⟨"EventID", .equals, [.int 4624]⟩, ⟨"Mood", .equals, [.str "bad"]⟩]⟩,
    ⟨"admin", [⟨"User", .startsWith, [.str "adm"]⟩]⟩,
    ⟨"mood", [⟨"Mood", .regex, [.str "go+d"]⟩]⟩]
  condition := .all [.term "logon", .any [.term "admin", .not (.term "mood")]]
  aggregation := some ⟨.distinct "Mood", ["User", "Place"], .gt, 3, none⟩

theorem moody_logon_well_formed : ∃ adapted,
    ((unsureResolver.adapt moodyLogon .crowdstrike).run ⟨0, ()⟩).1.rule = some adapted ∧
      adapted.WellFormed ∧ adapted.dialect = .crowdstrike ∧ adapted.danglingReferences = [] ∧
      adapted.condition.hasEmptyGroup = false ∧
      adapted.condition.terms =
        moodyLogon.condition.terms.filter fun name => (adapted.selection? name).isSome := by
  have isLeft :
      ((unsureResolver.adapt moodyLogon .crowdstrike).run ⟨0, ()⟩).1.rule.isSome = true := by
    decide +kernel
  obtain ⟨adapted, left⟩ := Option.isSome_iff_exists.mp isLeft
  exact ⟨adapted, left, unsureResolver.adapt_well_formed (by decide) left⟩

end DetectionRules
