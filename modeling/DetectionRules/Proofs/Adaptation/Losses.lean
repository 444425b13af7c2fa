import DetectionRules.Proofs.Adaptation.WellFormed

/-!
Nothing is lost without a word. Fields, tests, selections, parts of the source
of events and the whole rule may get lost on the way to another dialect, and
each loss has its issue, whatever the advisor does.
-/

namespace DetectionRules

namespace Adaptation

variable {rule : Rule} {target : Format} {fields : List FieldPair} {issues : List Issue}

/-- Some issue has this code and points there. -/
def Reports (issues : List Issue) (code location : String) : Prop :=
  ∃ issue ∈ issues, issue.code = code ∧ issue.location = location

def renamedAggregation (fields : List FieldPair) (source : Aggregation) : Aggregation :=
  { source with
    counted := match source.counted with
      | .events => .events
      | .distinct field => .distinct (renamed fields field)
    groupBy := source.groupBy.map (renamed fields) }

/-- What an adaptation leaves out, it tells. -/
structure Accounts (rule : Rule) (target : Format) (adaptation : Adaptation) : Prop where
  fields : adaptation.fields.map (·.source) = rule.referencedFields
  /-- A selection is left with the tests that can be said, or not at all if none can. -/
  selections : ∀ adapted ∈ adaptation.rule, ∀ source ∈ rule.selections,
    adapted.selection? source.name =
      if remaining target adaptation.fields source = [] then none
      else some ⟨source.name, remaining target adaptation.fields source⟩
  /-- No selection is added. -/
  sources : ∀ adapted ∈ adaptation.rule,
    (adapted.selections.map (·.name)).Sublist (rule.selections.map (·.name))
  unnamed : ∀ test ∈ rule.tests, native? adaptation.fields test.field = none →
    Reports adaptation.issues "FIELD_DROPPED" ("field:" ++ test.field)
  unsupported : ∀ test ∈ rule.tests, ∀ native, native? adaptation.fields test.field = some native →
    Catalog.supports target native test.op = false →
    Reports adaptation.issues "OPERATOR_UNSUPPORTED" ("field:" ++ test.field)
  emptied : ∀ source ∈ rule.selections, remaining target adaptation.fields source = [] →
    Reports adaptation.issues "SELECTION_EMPTIED" ("selection:" ++ source.name)
  uncounted : ∀ aggregation ∈ rule.aggregation, ∀ field ∈ aggregation.fields,
    native? adaptation.fields field = none →
    Reports adaptation.issues "FIELD_DROPPED" ("field:" ++ field)
  cleared : ∀ adapted ∈ adaptation.rule, ∀ part : LogSourcePart,
    part.get adapted.logSource ≠ part.get rule.logSource →
    part.get adapted.logSource = none ∧
      Reports adaptation.issues "LOGSOURCE_DROPPED" ("logsource." ++ part.name)
  nothing : adaptation.rule = none →
    ∃ issue ∈ adaptation.issues, issue.code = "EMPTY_DETECTION" ∧ issue.severity = .high
  /-- If all issues are minor, nothing but the names of fields and the source have changed. -/
  lossless : (∀ issue ∈ adaptation.issues, issue.severity = .low) → ∃ adapted ∈ adaptation.rule,
    adapted.condition = rule.condition ∧
      adapted.selections = rule.selections.map (fun source =>
        ⟨source.name, source.tests.map (renamedTest adaptation.fields)⟩) ∧
      adapted.aggregation = rule.aggregation.map (renamedAggregation adaptation.fields) ∧
      ∀ field ∈ rule.referencedFields, (native? adaptation.fields field).isSome = true

theorem issues_of_fields (rule : Rule) (target : Format) (fields : List FieldPair)
    (issues : List Issue) :
    issues ++ rule.selections.flatMap (selectionIssues target fields) ⊆
      (ofFields rule target fields issues).issues := by
  rw [of_fields_eq]
  cases conditionLeft? rule target fields <;> exact List.subset_append_left _ _

theorem fields_of_fields (rule : Rule) (target : Format) (fields : List FieldPair)
    (issues : List Issue) : (ofFields rule target fields issues).fields = fields := by
  rw [of_fields_eq]
  cases conditionLeft? rule target fields <;> rfl

theorem rule_of_left {condition : Logic String}
    (left : conditionLeft? rule target fields = some condition) :
    (ofFields rule target fields issues).rule = some (ruleLeft rule target fields condition) := by
  rw [of_fields_eq, left]

theorem part_issues_of_left {condition : Logic String}
    (left : conditionLeft? rule target fields = some condition) :
    LogSourcePart.all.filterMap (partIssue? target rule.logSource) ⊆
      (ofFields rule target fields issues).issues := by
  rw [of_fields_eq, left]
  exact List.subset_append_right _ _

theorem reports_nothing (absent : (ofFields rule target fields issues).rule = none) :
    nothingLeft target ∈ (ofFields rule target fields issues).issues := by
  rw [of_fields_eq] at absent ⊢
  cases left : conditionLeft? rule target fields with
  | none => simp
  | some condition => simp [left] at absent

theorem issue_of_unsupported {test : FieldTest} {native : String}
    (named : native? fields test.field = some native)
    (unsupported : Catalog.supports target native test.op = false) :
    ∃ issue, testIssue? target fields test = some issue ∧ issue.code = "OPERATOR_UNSUPPORTED" ∧
      issue.severity = .medium ∧ issue.location = "field:" ++ test.field := by
  simp [testIssue?, outcome, named, unsupported]

theorem reports_unsupported {test : FieldTest} (member : test ∈ rule.tests) {native : String}
    (named : native? fields test.field = some native)
    (unsupported : Catalog.supports target native test.op = false) :
    ∃ issue ∈ (ofFields rule target fields issues).issues, issue.code = "OPERATOR_UNSUPPORTED" ∧
      issue.severity = .medium ∧ issue.location = "field:" ++ test.field := by
  obtain ⟨issue, found, code, severity, location⟩ := issue_of_unsupported named unsupported
  obtain ⟨source, inside, place⟩ := List.mem_flatMap.mp member
  refine ⟨issue, ?_, code, severity, location⟩
  apply issues_of_fields
  apply List.mem_append_right
  refine List.mem_flatMap.mpr ⟨source, inside, ?_⟩
  exact List.mem_append_left _ (List.mem_filterMap.mpr ⟨test, place, found⟩)

theorem reports_emptied {source : Selection} (member : source ∈ rule.selections)
    (empty : remaining target fields source = []) :
    emptiedIssue source.name ∈ (ofFields rule target fields issues).issues := by
  apply issues_of_fields
  apply List.mem_append_right
  refine List.mem_flatMap.mpr ⟨source, member, ?_⟩
  simp [selectionIssues, selection_eq, empty]

theorem reports_unnamed {entries : List (String × Resolution)} {field : String}
    (known : field ∈ entries.map (·.1)) (unnamed : native? (pairs entries) field = none) :
    ∃ issue ∈ (ofResolutions rule target entries).issues, issue.code = "FIELD_DROPPED" ∧
      issue.severity = .medium ∧ issue.location = "field:" ++ field := by
  obtain ⟨entry, member, rfl, dropped⟩ := entry_of_unnamed known unnamed
  obtain ⟨issue, found, code, severity, location⟩ :=
    Resolution.issue_of_dropped dropped entry.1 target
  refine ⟨issue, ?_, code, severity, location⟩
  apply issues_of_fields
  apply List.mem_append_left
  exact List.mem_filterMap.mpr ⟨entry, member, found⟩

theorem get_log_source (target : Format) (source : LogSource) (part : LogSourcePart) :
    part.get (logSource target source) =
      if Catalog.carries target part then part.get source else none := by
  cases target <;> cases part <;> rfl

theorem part_issue_of_cleared {source : LogSource} {part : LogSourcePart}
    (cleared : part.get (logSource target source) ≠ part.get source) :
    part.get (logSource target source) = none ∧ ∃ issue, partIssue? target source part = some issue ∧
      issue.code = "LOGSOURCE_DROPPED" ∧ issue.location = "logsource." ++ part.name := by
  rw [get_log_source] at cleared ⊢
  by_cases carried : Catalog.carries target part = true
  · rw [if_pos carried] at cleared
    exact absurd rfl cleared
  · rw [if_neg carried] at cleared ⊢
    obtain ⟨value, found⟩ := Option.ne_none_iff_exists'.mp cleared.symm
    simp [partIssue?, carried, found]

theorem expressible_of_minor {entries : List (String × Resolution)}
    (all : entries.map (·.1) = rule.referencedFields)
    (minor : ∀ issue ∈ (ofResolutions rule target entries).issues, issue.severity = .low) :
    (∀ field ∈ rule.referencedFields, (native? (pairs entries) field).isSome = true) ∧
      ∀ test ∈ rule.tests, isExpressible target (pairs entries) test = true := by
  have named : ∀ field ∈ rule.referencedFields,
      (native? (pairs entries) field).isSome = true := by
    intro field member
    by_contra unnamed
    have absent : native? (pairs entries) field = none := by simpa using unnamed
    obtain ⟨issue, found, _, severity, _⟩ := @reports_unnamed rule target _ _ (all ▸ member) absent
    rw [minor issue found] at severity
    cases severity
  refine ⟨named, fun test member => ?_⟩
  have place := named test.field (Rule.mem_referenced_fields.mpr (.inl ⟨test, member, rfl⟩))
  obtain ⟨native, found⟩ := Option.isSome_iff_exists.mp place
  rw [isExpressible, found, Option.any_some]
  by_contra unsupported
  obtain ⟨issue, inside, _, severity, _⟩ := @reports_unsupported rule target _ _ test member native
    found (by simpa using unsupported)
  rw [minor issue inside] at severity
  cases severity

theorem remaining_of_expressible {source : Selection}
    (expressible : ∀ test ∈ source.tests, isExpressible target fields test = true) :
    remaining target fields source = source.tests.map (renamedTest fields) := by
  rw [remaining, List.filter_eq_self.mpr expressible]

theorem aggregation_of_named {source : Aggregation}
    (named : ∀ field ∈ source.fields, (native? fields field).isSome = true) :
    aggregation fields source = renamedAggregation fields source := by
  have native : ∀ field ∈ source.fields, native? fields field = some (renamed fields field) := by
    intro field member
    obtain ⟨name, found⟩ := Option.isSome_iff_exists.mp (named field member)
    rw [renamed, found, Option.getD_some]
  obtain ⟨counted, groupBy, comparison, threshold, window⟩ := source
  have group (within : groupBy ⊆ (⟨counted, groupBy, comparison, threshold, window⟩ :
      Aggregation).fields) : groupBy.filterMap (native? fields) = groupBy.map (renamed fields) := by
    rw [List.filterMap_congr fun field member => native field (within member)]
    exact congrFun List.filterMap_eq_map groupBy
  cases counted with
  | events => simp [aggregation, renamedAggregation, group (List.Subset.refl _)]
  | distinct field =>
      have counted := native field (List.mem_append_right _ (List.mem_singleton_self field))
      simp [aggregation, renamedAggregation, group (List.subset_append_left _ _), counted]

theorem left_of_expressible (proper : rule.Proper)
    (expressible : ∀ test ∈ rule.tests, isExpressible target fields test = true) :
    selectionsLeft rule target fields =
        rule.selections.map (fun source => ⟨source.name, source.tests.map (renamedTest fields)⟩) ∧
      conditionLeft? rule target fields = some rule.condition := by
  have tests : ∀ source ∈ rule.selections, selection target fields source =
      ⟨source.name, source.tests.map (renamedTest fields)⟩ := by
    intro source member
    rw [selection_eq, remaining_of_expressible]
    exact fun test inside => expressible test (List.mem_flatMap.mpr ⟨source, member, inside⟩)
  have filled : ∀ left ∈ rule.selections.map (selection target fields), left.tests ≠ [] := by
    intro left member
    obtain ⟨source, inside, rfl⟩ := List.mem_map.mp member
    rw [tests source inside]
    simpa using (proper.selections source inside).filled
  have all : selectionsLeft rule target fields = rule.selections.map (selection target fields) := by
    rw [selectionsLeft, List.filter_eq_self]
    exact fun left member => by simpa using filled left member
  have none : emptied rule target fields = [] := by
    rw [emptied, List.map_eq_nil_iff, List.filter_eq_nil_iff]
    exact fun left member => by simpa using filled left member
  refine ⟨all.trans (List.map_congr_left tests), ?_⟩
  rw [conditionLeft?, none, all, if_neg (by simpa using proper.filled)]
  rfl

theorem reports_dropped {entries : List (String × Resolution)} {field : String}
    (known : field ∈ entries.map (·.1)) (unnamed : native? (pairs entries) field = none) :
    Reports (ofResolutions rule target entries).issues "FIELD_DROPPED" ("field:" ++ field) := by
  obtain ⟨issue, found, code, _, location⟩ := reports_unnamed known unnamed
  exact ⟨issue, found, code, location⟩

theorem reports_cleared {condition : Logic String} {part : LogSourcePart}
    (left : conditionLeft? rule target fields = some condition)
    (cleared : part.get (logSource target rule.logSource) ≠ part.get rule.logSource) :
    part.get (logSource target rule.logSource) = none ∧
      Reports (ofFields rule target fields issues).issues "LOGSOURCE_DROPPED"
        ("logsource." ++ part.name) := by
  obtain ⟨gone, issue, told, code, location⟩ := part_issue_of_cleared cleared
  refine ⟨gone, issue, ?_, code, location⟩
  apply part_issues_of_left left
  exact List.mem_filterMap.mpr ⟨part, by cases part <;> decide, told⟩

theorem lossless_of_minor (proper : rule.Proper) {entries : List (String × Resolution)}
    (all : entries.map (·.1) = rule.referencedFields)
    (minor : ∀ issue ∈ (ofResolutions rule target entries).issues, issue.severity = .low) :
    ∃ adapted ∈ (ofResolutions rule target entries).rule, adapted.condition = rule.condition ∧
      adapted.selections = rule.selections.map (fun source =>
        ⟨source.name, source.tests.map (renamedTest (pairs entries))⟩) ∧
      adapted.aggregation = rule.aggregation.map (renamedAggregation (pairs entries)) ∧
      ∀ field ∈ rule.referencedFields, (native? (pairs entries) field).isSome = true := by
  obtain ⟨named, expressible⟩ := expressible_of_minor all minor
  obtain ⟨selections, condition⟩ := left_of_expressible proper expressible
  refine ⟨ruleLeft rule target (pairs entries) rule.condition, rule_of_left condition, rfl,
    selections, ?_, named⟩
  apply Option.map_congr
  intro aggregation counted
  apply aggregation_of_named
  intro field member
  exact named field (Rule.mem_referenced_fields.mpr (.inr ⟨aggregation, counted, member⟩))

theorem accounts_of_resolutions (proper : rule.Proper) {entries : List (String × Resolution)}
    (all : entries.map (·.1) = rule.referencedFields) :
    Accounts rule target (ofResolutions rule target entries) := by
  have fields : (ofResolutions rule target entries).fields = pairs entries :=
    fields_of_fields rule target _ _
  constructor
  case fields =>
    rw [fields, ← all, pairs, List.map_map]
    rfl
  case selections =>
    intro adapted left source member
    obtain ⟨condition, _, rfl⟩ := rule_of_fields left
    rw [fields]
    exact find_selection_left proper.distinct member
  case sources =>
    intro adapted left
    obtain ⟨condition, _, rfl⟩ := rule_of_fields left
    exact names_left_sublist rule target _
  case unnamed =>
    rw [fields]
    intro test member
    exact reports_dropped (all ▸ Rule.mem_referenced_fields.mpr (.inl ⟨test, member, rfl⟩))
  case unsupported =>
    rw [fields]
    intro test member native named unsupported
    obtain ⟨issue, found, code, _, location⟩ := reports_unsupported member named unsupported
    exact ⟨issue, found, code, location⟩
  case emptied =>
    rw [fields]
    intro source member empty
    exact ⟨_, reports_emptied member empty, rfl, rfl⟩
  case uncounted =>
    rw [fields]
    intro aggregation counted field member
    exact reports_dropped
      (all ▸ Rule.mem_referenced_fields.mpr (.inr ⟨aggregation, counted, member⟩))
  case cleared =>
    intro adapted left part
    obtain ⟨condition, found, rfl⟩ := rule_of_fields left
    exact reports_cleared found
  case nothing =>
    intro absent
    exact ⟨_, reports_nothing absent, rfl, rfl⟩
  case lossless =>
    rw [fields]
    exact lossless_of_minor proper all

end Adaptation

/-- Whatever the advisor does, what an adaptation of a well-formed rule leaves out is told. -/
theorem FieldResolver.adapt_accounts {World : Type} (resolver : FieldResolver World) {rule : Rule}
    (target : Format) (moment : Activity.Moment World) (sound : rule.WellFormed) :
    Adaptation.Accounts rule target ((resolver.adapt rule target).run moment).1 := by
  obtain ⟨entries, all, _, outcome⟩ := resolver.run_adapt rule target moment
  rw [outcome]
  exact Adaptation.accounts_of_resolutions ((Rule.well_formed_iff rule).mp sound) all

theorem moody_logon_accounts : moodyLogon.WellFormed ∧
    Adaptation.Accounts moodyLogon .crowdstrike
      ((unsureResolver.adapt moodyLogon .crowdstrike).run ⟨0, ()⟩).1 := by
  have sound : moodyLogon.WellFormed := by decide
  exact ⟨sound, unsureResolver.adapt_accounts .crowdstrike ⟨0, ()⟩ sound⟩

end DetectionRules
