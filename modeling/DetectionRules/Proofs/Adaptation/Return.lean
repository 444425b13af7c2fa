import DetectionRules.Proofs.Adaptation.Identity

/-!
Names that the catalog has for the fields of a rule lead there and back again. In
each dialect a name belongs to one property and a property has one name, so a
rule that is carried over to another dialect and home without an issue is the
rule that left.
-/

namespace DetectionRules

namespace Catalog

theorem names_inverse : ∀ property ∈ properties, ∀ entry ∈ property.natives,
    canonical? entry.1 entry.2 = some property.name ∧
      native? entry.1 property.name = some entry.2 := by
  decide

theorem inverse_of_native {property : EventProperty} {format : Format} {field : String}
    (known : property ∈ properties) (named : native property format = some field) :
    canonical? format field = some property.name ∧ native? format property.name = some field := by
  obtain ⟨entry, found, rfl⟩ := Option.map_eq_some_iff.mp named
  obtain rfl : entry.1 = format := by simpa using List.find?_some found
  exact names_inverse property known entry (List.mem_of_find?_eq_some found)

/-- In each dialect, names and properties determine one another. -/
theorem canonical_iff_native {format : Format} {field canonical : String} :
    canonical? format field = some canonical ↔ native? format canonical = some field := by
  constructor
  · intro meant
    obtain ⟨property, found, rfl⟩ := Option.map_eq_some_iff.mp meant
    have named : native property format = some field := by simpa using List.find?_some found
    exact (inverse_of_native (List.mem_of_find?_eq_some found) named).2
  · intro called
    obtain ⟨property, found, named⟩ := Option.bind_eq_some_iff.mp called
    obtain rfl : property.name = canonical := by simpa using List.find?_some found
    exact (inverse_of_native (List.mem_of_find?_eq_some found) named).1

theorem mem_fields_iff {format : Format} {field : String} :
    field ∈ fields format ↔ (canonical? format field).isSome = true := by
  rw [fields, List.mem_mergeSort, List.mem_filterMap, Option.isSome_iff_exists]
  constructor
  · rintro ⟨property, known, named⟩
    exact ⟨property.name, (inverse_of_native known named).1⟩
  · rintro ⟨canonical, meant⟩
    obtain ⟨property, found, rfl⟩ := Option.map_eq_some_iff.mp meant
    exact ⟨property, List.mem_of_find?_eq_some found, by simpa using List.find?_some found⟩

theorem translate_back {source target : Format} {field name : String}
    (known : field ∈ fields source) (translated : translate? source target field = some name) :
    translate? target source name = some field := by
  by_cases same : source = target
  · subst same
    rw [translate_self, Option.some.injEq] at translated
    rw [← translated, translate_self]
  · obtain ⟨canonical, found⟩ := Option.isSome_iff_exists.mp (mem_fields_iff.mp known)
    rw [translate?, if_neg same, found, Option.getD_some] at translated
    rw [translate?, if_neg (Ne.symm same), canonical_iff_native.mpr translated, Option.getD_some]
    exact canonical_iff_native.mp found

example : translate? .kql .splunk "RemoteUrl" = (translate? .kql .sigma "RemoteUrl").bind
    (translate? .sigma .splunk) := by
  decide +kernel

end Catalog

def FieldTest.rename (name : String → String) (test : FieldTest) : FieldTest :=
  { test with field := name test.field }

def Aggregation.rename (name : String → String) (aggregation : Aggregation) : Aggregation :=
  { aggregation with
    counted := match aggregation.counted with
      | .events => .events
      | .distinct field => .distinct (name field)
    groupBy := aggregation.groupBy.map name }

theorem Aggregation.rename_congr {first second : String → String} (aggregation : Aggregation)
    (same : ∀ field ∈ aggregation.fields, first field = second field) :
    aggregation.rename first = aggregation.rename second := by
  obtain ⟨counted, groupBy, comparison, threshold, window⟩ := aggregation
  cases counted with
  | events => simpa [Aggregation.rename, Aggregation.fields] using same
  | distinct field =>
      have group : groupBy.map first = groupBy.map second :=
        List.map_congr_left fun field member => same field (List.mem_append_left _ member)
      have counted : first field = second field :=
        same field (List.mem_append_right _ (List.mem_singleton_self field))
      simp [Aggregation.rename, group, counted]

theorem Aggregation.fields_rename (name : String → String) (aggregation : Aggregation) :
    (aggregation.rename name).fields = aggregation.fields.map name := by
  obtain ⟨counted, groupBy, comparison, threshold, window⟩ := aggregation
  cases counted <;> simp [Aggregation.rename, Aggregation.fields]

namespace Rule

/-- The rule in another dialect, with other names for its fields and everything else as it is. -/
def rename (name : String → String) (dialect : Format) (rule : Rule) : Rule :=
  { rule with
    dialect
    selections := rule.selections.map fun selection =>
      ⟨selection.name, selection.tests.map (·.rename name)⟩
    aggregation := rule.aggregation.map (·.rename name) }

theorem rename_id (rule : Rule) : rule.rename id rule.dialect = rule := by
  have aggregation (source : Aggregation) : source.rename id = source := by
    obtain ⟨counted, groupBy, comparison, threshold, window⟩ := source
    cases counted <;> simp [Aggregation.rename]
  simp [rename, FieldTest.rename, aggregation]

theorem rename_rename (first second : String → String) (abroad home : Format) (rule : Rule) :
    (rule.rename first abroad).rename second home = rule.rename (second ∘ first) home := by
  have aggregation (source : Aggregation) :
      (source.rename first).rename second = source.rename (second ∘ first) := by
    obtain ⟨counted, groupBy, comparison, threshold, window⟩ := source
    cases counted <;> simp [Aggregation.rename]
  simp [rename, FieldTest.rename, Function.comp_def, aggregation]

theorem rename_congr {first second : String → String} {rule : Rule} (dialect : Format)
    (same : ∀ field ∈ rule.referencedFields, first field = second field) :
    rule.rename first dialect = rule.rename second dialect := by
  have selections : ∀ selection ∈ rule.selections,
      selection.tests.map (·.rename first) = selection.tests.map (·.rename second) := by
    refine fun selection member => List.map_congr_left fun test inside => ?_
    have place : test ∈ rule.tests := List.mem_flatMap.mpr ⟨selection, member, inside⟩
    rw [FieldTest.rename, same _ (mem_referenced_fields.mpr (.inl ⟨test, place, rfl⟩))]
    rfl
  have aggregation : rule.aggregation.map (·.rename first) =
      rule.aggregation.map (·.rename second) := by
    refine Option.map_congr fun source given => ?_
    have names : ∀ field ∈ source.fields, first field = second field := fun field member =>
      same field (mem_referenced_fields.mpr (.inr ⟨source, given, member⟩))
    exact source.rename_congr names
  rw [rename, rename, aggregation,
    List.map_congr_left fun selection member => by rw [selections selection member]]

theorem referenced_of_rename {name : String → String} {dialect : Format} {rule : Rule}
    {field : String} (member : field ∈ rule.referencedFields) :
    name field ∈ (rule.rename name dialect).referencedFields := by
  rcases mem_referenced_fields.mp member with ⟨test, place, rfl⟩ | ⟨aggregation, given, member⟩
  · obtain ⟨selection, known, inside⟩ := List.mem_flatMap.mp place
    refine mem_referenced_fields.mpr (.inl ⟨test.rename name, ?_, rfl⟩)
    exact List.mem_flatMap.mpr
      ⟨_, List.mem_map_of_mem known, List.mem_map_of_mem inside⟩
  · refine mem_referenced_fields.mpr (.inr ⟨aggregation.rename name, ?_, ?_⟩)
    · exact Option.map_eq_some_iff.mpr ⟨aggregation, given, rfl⟩
    · rw [Aggregation.fields_rename]
      exact List.mem_map_of_mem member

end Rule

namespace Adaptation

variable {rule : Rule} {target : Format}

/-- Without an issue about a field, its name is the one of the catalog. -/
theorem translated_of_quiet {source : Format} {entries : List (String × Resolution)}
    (allowed : ∀ entry ∈ entries,
      entry.2.Allowed target (Catalog.translate? source target entry.1))
    (quiet : ∀ entry ∈ entries, entry.2.issue? entry.1 target = none) {field name : String}
    (named : native? (pairs entries) field = some name) :
    Catalog.translate? source target field = some name := by
  obtain ⟨⟨field, resolution⟩, member, rfl, found⟩ := entry_of_named named
  have silent := quiet _ member
  cases allowed _ member with
  | translated known =>
      cases found
      exact known
  | inferred _ _ => cases silent
  | dropped _ => cases found

theorem log_source_of_quiet {source : LogSource}
    (quiet : LogSourcePart.all.filterMap (partIssue? target source) = []) :
    logSource target source = source := by
  apply source_ext
  intro part
  by_contra cleared
  obtain ⟨_, issue, told, _⟩ := part_issue_of_cleared cleared
  have silent := List.filterMap_eq_nil_iff.mp quiet part (by cases part <;> decide)
  rw [silent] at told
  cases told

end Adaptation

namespace FieldResolver

open Activity (Moment)

variable {World : Type}

/-- Whatever the advisor does, an adaptation without an issue is the rule under the names that the
catalog has for its fields, and it has one for each of them. -/
theorem adapt_of_quiet (resolver : FieldResolver World) {rule : Rule} {target : Format}
    {moment : Moment World} (sound : rule.WellFormed)
    (quiet : ((resolver.adapt rule target).run moment).1.issues = []) :
    ∃ name : String → String,
      ((resolver.adapt rule target).run moment).1.rule = some (rule.rename name target) ∧
        ∀ field ∈ rule.referencedFields,
          Catalog.translate? rule.dialect target field = some (name field) := by
  have proper := (Rule.well_formed_iff rule).mp sound
  obtain ⟨entries, all, allowed, outcome⟩ := resolver.run_adapt rule target moment
  rw [outcome] at quiet ⊢
  obtain ⟨named, expressible⟩ := Adaptation.expressible_of_minor all fun issue member => by
    rw [quiet] at member
    cases member
  obtain ⟨selections, condition⟩ := Adaptation.left_of_expressible proper expressible
  have told : entries.filterMap (fun entry => entry.2.issue? entry.1 target) ++
      rule.selections.flatMap (Adaptation.selectionIssues target (Adaptation.pairs entries)) ⊆ [] :=
    quiet ▸ Adaptation.issues_of_fields rule target _ _
  have none := List.append_eq_nil_iff.mp (List.subset_nil.mp told)
  have silent := List.filterMap_eq_nil_iff.mp none.1
  have parts : LogSourcePart.all.filterMap (Adaptation.partIssue? target rule.logSource) ⊆ [] :=
    quiet ▸ Adaptation.part_issues_of_left condition
  refine ⟨Adaptation.renamed (Adaptation.pairs entries), ?_, fun field member => ?_⟩
  · have aggregation : rule.aggregation.map (Adaptation.aggregation (Adaptation.pairs entries)) =
        rule.aggregation.map (·.rename (Adaptation.renamed (Adaptation.pairs entries))) :=
      Option.map_congr fun source given => Adaptation.aggregation_of_named fun field member =>
        named field (Rule.mem_referenced_fields.mpr (.inr ⟨source, given, member⟩))
    refine (Adaptation.rule_of_left condition).trans (congrArg some ?_)
    rw [Adaptation.ruleLeft, selections, aggregation,
      Adaptation.log_source_of_quiet (List.subset_nil.mp parts)]
    rfl
  · obtain ⟨name, found⟩ := Option.isSome_iff_exists.mp (named field member)
    rw [Adaptation.translated_of_quiet allowed silent found, Adaptation.renamed, found,
      Option.getD_some]

/-- A rule in names of the catalog that goes to another dialect and back without an issue is what
it was, whatever the advisors do. -/
theorem adapt_there_and_back (outward homeward : FieldResolver World) {rule : Rule}
    {target : Format} {departure : Moment World} (sound : rule.WellFormed)
    (known : ∀ field ∈ rule.referencedFields, field ∈ Catalog.fields rule.dialect)
    (quiet : ((outward.adapt rule target).run departure).1.issues = []) :
    ∃ abroad, ((outward.adapt rule target).run departure).1.rule = some abroad ∧
      ∀ arrival, ((homeward.adapt abroad rule.dialect).run arrival).1.issues = [] →
        ((homeward.adapt abroad rule.dialect).run arrival).1.rule = some rule := by
  obtain ⟨away, left, there⟩ := outward.adapt_of_quiet sound quiet
  refine ⟨_, left, fun arrival silent => ?_⟩
  have soundAbroad := (outward.adapt_well_formed sound left).1
  obtain ⟨back, returned, here⟩ := homeward.adapt_of_quiet soundAbroad silent
  have kept : ∀ field ∈ rule.referencedFields, (back ∘ away) field = id field := by
    intro field member
    have onward := Catalog.translate_back (known field member) (there field member)
    have inside : away field ∈ (rule.rename away target).referencedFields :=
      Rule.referenced_of_rename member
    exact Option.some.inj ((here _ inside).symm.trans onward)
  rw [returned, Rule.rename_rename, Rule.rename_congr rule.dialect kept, Rule.rename_id]

end FieldResolver

def remoteLookups : Rule where
  dialect := .kql
  title := some "Lookups"
  description := none
  logSource := ⟨some "windows", some "dns_query", none⟩
  selections := [
    ⟨"lookup", [⟨"Name", .endsWith, [.str ".example", .str ".test"]⟩]⟩,
    ⟨"own", [⟨"Computer", .equals, [.str "dc1"]⟩, ⟨"LocalPort", .lt, [.int 1024]⟩]⟩]
  condition := .all [.term "lookup", .not (.term "own")]
  aggregation := some ⟨.distinct "RemoteUrl", ["DeviceName"], .gte, 20, some ⟨300⟩⟩

theorem remote_lookups_return : ∃ abroad,
    ((unsureResolver.adapt remoteLookups .splunk).run ⟨0, ()⟩).1.rule = some abroad ∧
      ((unsureResolver.adapt abroad .kql).run ⟨0, ()⟩).1.rule = some remoteLookups := by
  have quiet : ((unsureResolver.adapt remoteLookups .splunk).run ⟨0, ()⟩).1.issues = [] := by
    decide +kernel
  have known : ∀ field ∈ remoteLookups.referencedFields, field ∈ Catalog.fields .kql := by
    simp only [Catalog.mem_fields_iff]
    decide +kernel
  obtain ⟨abroad, left, returns⟩ :=
    unsureResolver.adapt_there_and_back unsureResolver (by decide) known quiet
  have silent : (((unsureResolver.adapt remoteLookups .splunk).run ⟨0, ()⟩).1.rule.map fun abroad =>
      ((unsureResolver.adapt abroad .kql).run ⟨0, ()⟩).1.issues) = some [] := by
    decide +kernel
  rw [left] at silent
  exact ⟨abroad, left, returns ⟨0, ()⟩ (Option.some.inj silent)⟩

end DetectionRules
