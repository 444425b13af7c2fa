import DetectionRules.Proofs.Accepted
import DetectionRules.Proofs.Adaptation.Losses

/-!
A rule that is adapted to its own dialect stays what it is, as long as the
dialect has a spelling for its tests. The readers of all dialects but one accept
only such rules; the reader of Sigma rules takes globs among keywords, for which
the catalog has nothing but tests for texts.
-/

namespace DetectionRules

namespace Adaptation

variable {rule : Rule} {target : Format}

def unchangedFields (fields : List String) : List FieldPair :=
  fields.map fun field => ⟨field, some field⟩

/-- The adaptation that changes nothing. -/
def unchanged (rule : Rule) : Adaptation := ⟨some rule, [], unchangedFields rule.referencedFields⟩

theorem native_unchanged {fields : List String} {field : String} (member : field ∈ fields) :
    native? (unchangedFields fields) field = some field := by
  induction fields with
  | nil => cases member
  | cons first rest induction =>
      by_cases same : first = field
      · simp [native?, unchangedFields, same]
      · have others := induction ((List.mem_cons.mp member).resolve_left (Ne.symm same))
        simpa [native?, unchangedFields, same] using others

theorem renamed_unchanged {fields : List String} (field : String) :
    renamed (unchangedFields fields) field = field := by
  by_cases member : field ∈ fields
  · rw [renamed, native_unchanged member, Option.getD_some]
  · have absent : native? (unchangedFields fields) field = none := by
      simp only [native?, unchangedFields, Option.bind_eq_none_iff]
      intro pair found
      obtain ⟨other, inside, rfl⟩ := List.mem_map.mp (List.mem_of_find?_eq_some found)
      have same : other = field := by simpa using List.find?_some found
      exact absurd (same ▸ inside) member
    rw [renamed, absent, Option.getD_none]

theorem renamed_test_unchanged (fields : List String) :
    renamedTest (unchangedFields fields) = id := by
  funext test
  rw [renamedTest, renamed_unchanged]
  rfl

theorem renamed_aggregation_unchanged {fields : List String} (source : Aggregation) :
    renamedAggregation (unchangedFields fields) source = source := by
  have names : renamed (unchangedFields fields) = id := funext renamed_unchanged
  obtain ⟨counted, groupBy, comparison, threshold, window⟩ := source
  cases counted <;> simp [renamedAggregation, names]

theorem expressible_unchanged_iff {test : FieldTest} (member : test ∈ rule.tests) :
    isExpressible target (unchangedFields rule.referencedFields) test =
      Catalog.supports target test.field test.op := by
  have place := Rule.mem_referenced_fields.mpr (.inl ⟨test, member, rfl⟩)
  rw [isExpressible, native_unchanged place, Option.any_some]

theorem source_ext {first second : LogSource}
    (same : ∀ part, LogSourcePart.get first part = LogSourcePart.get second part) :
    first = second := by
  obtain ⟨product, category, service⟩ := first
  obtain rfl := same .product
  obtain rfl := same .category
  obtain rfl := same .service
  rfl

theorem log_source_carried {source : LogSource}
    (carried : ∀ part, Catalog.carries target part = false → part.get source = none) :
    logSource target source = source ∧
      LogSourcePart.all.filterMap (partIssue? target source) = [] := by
  constructor
  · apply source_ext
    intro part
    rw [get_log_source]
    by_cases known : Catalog.carries target part = true
    · rw [if_pos known]
    · rw [if_neg known, carried part (by simpa using known)]
  · rw [List.filterMap_eq_nil_iff]
    intro part _
    rw [partIssue?]
    by_cases known : Catalog.carries target part = true
    · rw [if_pos known]
    · rw [if_neg known, carried part (by simpa using known), Option.map_none]

theorem no_issues_of_expressible {fields : List FieldPair} {source : Selection}
    (filled : source.tests ≠ [])
    (expressible : ∀ test ∈ source.tests, isExpressible target fields test = true) :
    selectionIssues target fields source = [] := by
  have tests : source.tests.filterMap (testIssue? target fields) = [] := by
    rw [List.filterMap_eq_nil_iff]
    intro test member
    obtain ⟨native, named, supported⟩ := (Option.any_eq_true _ _).mp (expressible test member)
    simp [testIssue?, outcome, named, supported]
  rw [selectionIssues, tests, selection_eq, remaining_of_expressible expressible]
  simpa using filled

theorem of_unchanged_fields (proper : rule.Proper)
    (carried : ∀ part, Catalog.carries rule.dialect part = false → part.get rule.logSource = none)
    (supported : ∀ test ∈ rule.tests, Catalog.supports rule.dialect test.field test.op = true) :
    ofFields rule rule.dialect (unchangedFields rule.referencedFields) [] = unchanged rule := by
  have expressible : ∀ test ∈ rule.tests,
      isExpressible rule.dialect (unchangedFields rule.referencedFields) test = true := by
    intro test member
    rw [expressible_unchanged_iff member]
    exact supported test member
  have issues : rule.selections.flatMap
      (selectionIssues rule.dialect (unchangedFields rule.referencedFields)) = [] := by
    rw [List.flatMap_eq_nil_iff]
    intro source member
    apply no_issues_of_expressible (proper.selections source member).filled
    exact fun test inside => expressible test (List.mem_flatMap.mpr ⟨source, member, inside⟩)
  obtain ⟨selections, condition⟩ := left_of_expressible proper expressible
  obtain ⟨source, sourceIssues⟩ := log_source_carried carried
  have selectionsSame :
      selectionsLeft rule rule.dialect (unchangedFields rule.referencedFields) = rule.selections := by
    rw [selections, renamed_test_unchanged]
    simp
  have aggregationSame :
      rule.aggregation.map (aggregation (unchangedFields rule.referencedFields)) =
        rule.aggregation := by
    cases counted : rule.aggregation with
    | none => rfl
    | some given =>
        rw [Option.map_some, aggregation_of_named, renamed_aggregation_unchanged]
        intro field member
        rw [native_unchanged (Rule.mem_referenced_fields.mpr (.inr ⟨given, counted, member⟩)),
          Option.isSome_some]
  rw [of_fields_eq, condition, issues, sourceIssues]
  simp only [ruleLeft, source, selectionsSame, aggregationSame]
  rfl

/-- With the names of all fields kept, a rule stays what it is if and only if every test can be
said. -/
theorem unchanged_iff (proper : rule.Proper)
    (carried : ∀ part, Catalog.carries rule.dialect part = false → part.get rule.logSource = none) :
    ofFields rule rule.dialect (unchangedFields rule.referencedFields) [] = unchanged rule ↔
      ∀ test ∈ rule.tests, Catalog.supports rule.dialect test.field test.op = true := by
  constructor
  · intro same test member
    by_contra unsupported
    have named := native_unchanged (Rule.mem_referenced_fields.mpr (.inl ⟨test, member, rfl⟩))
    obtain ⟨issue, found, _⟩ := @reports_unsupported rule rule.dialect _ [] test member _ named
      (by simpa using unsupported)
    rw [same] at found
    cases found
  · exact of_unchanged_fields proper carried

end Adaptation

namespace FieldResolver

variable {World : Type}

theorem resolve_all_self (resolver : FieldResolver World) (rule : Rule) (fields : List String)
    (moment : Activity.Moment World) :
    (resolver.resolveAll rule rule.dialect fields).run moment =
      (fields.map fun field => (field, .translated field), moment) := by
  induction fields with
  | nil => rfl
  | cons field rest induction =>
      have first : resolver.resolve rule rule.dialect field = pure (.translated field) := by
        rw [resolve, Catalog.translate_self]
      rw [resolveAll, first]
      simp only [Activity.run_bind, Activity.run_pure, induction, List.map_cons]

/-- To its own dialect a rule is adapted with the names of all fields kept, at once and without
asking anyone. -/
theorem adapt_self (resolver : FieldResolver World) (rule : Rule)
    (moment : Activity.Moment World) :
    (resolver.adapt rule rule.dialect).run moment =
      (Adaptation.ofFields rule rule.dialect
        (Adaptation.unchangedFields rule.referencedFields) [], moment) := by
  rw [adapt, Activity.run_bind, resolve_all_self, Activity.run_pure, Adaptation.ofResolutions,
    List.filterMap_map, List.filterMap_eq_nil_iff.mpr, List.map_map]
  · rfl
  · exact fun _ _ => rfl

end FieldResolver

namespace Catalog

theorem canonical_content_iff {field : String} :
    canonical? .sigma field = some "content" ↔ field = "keywords" := by
  have known : ∀ property ∈ properties, property.name = "content" →
      native property .sigma = some "keywords" := by decide
  constructor
  · intro content
    obtain ⟨property, found, named⟩ := Option.map_eq_some_iff.mp content
    have native := List.find?_some found
    rw [known property (List.mem_of_find?_eq_some found) named, beq_iff_eq] at native
    exact (Option.some.inj native).symm
  · rintro rfl
    decide

theorem supports_sigma_iff {field : String} {op : Operator} :
    supports .sigma field op = true ↔ (field = "keywords" → op = .contains) := by
  by_cases content : canonical? .sigma field = some "content"
  · have texts : supports .sigma field op = (op == .contains) := by
      unfold supports
      rw [content]
      rfl
    rw [texts, beq_iff_eq, forall_prop_of_true (canonical_content_iff.mp content)]
  · have all : supports .sigma field op = true := by
      unfold supports
      split <;> first | rfl | contradiction
    simp [all, mt canonical_content_iff.mpr content]

theorem supports_other {format : Format} (notSigma : format ≠ .sigma) (notYara : format ≠ .yara)
    (field : String) (op : Operator) : supports format field op = true := by
  unfold supports
  split <;> first | rfl | contradiction

theorem supports_string_test {test : FieldTest} (isString : Yara.IsStringTest test) :
    supports .yara test.field test.op = true := by
  have content : canonical? .yara Yara.contentField = some "content" := by decide
  have bytes : canonical? .yara Yara.bytesField = some "content_hex" := by decide
  rcases isString with ⟨field, text | pattern⟩ | ⟨field, equals⟩
  · simp [supports, field, text, content]
  · simp [supports, field, pattern, content]
  · simp [supports, field, equals, bytes]

end Catalog

/-- A rule that a reader accepts is adapted to the same dialect unchanged, without issues and with
every field paired with itself, if and only if it is no Sigma rule with a keyword that is tested
for anything but a text that occurs. -/
theorem read_adapts_unchanged_iff {World : Type} (resolver : FieldResolver World) {format : Format}
    {text : String} {rule : Rule} (moment : Activity.Moment World)
    (accepted : format.read text = .ok rule) :
    (resolver.adapt rule format).run moment = (Adaptation.unchanged rule, moment) ↔
      (format = .sigma → ∀ test ∈ rule.tests, test.field = "keywords" → test.op = .contains) := by
  obtain ⟨sound, rfl, service, strings⟩ := Format.accepts_of_read accepted
  have carried : ∀ part, Catalog.carries rule.dialect part = false →
      part.get rule.logSource = none := by
    intro part lost
    obtain ⟨crowdstrike, rfl⟩ : rule.dialect = .crowdstrike ∧ part = .service := by
      simpa [Catalog.carries] using lost
    exact service crowdstrike
  have proper := (Rule.well_formed_iff rule).mp sound
  rw [resolver.adapt_self, Prod.mk.injEq, and_iff_left rfl, Adaptation.unchanged_iff proper carried]
  by_cases sigma : rule.dialect = .sigma
  · simp only [sigma, Catalog.supports_sigma_iff, forall_const]
  · refine iff_of_true (fun test member => ?_) (fun isSigma => absurd isSigma sigma)
    by_cases yara : rule.dialect = .yara
    · rw [yara]
      exact Catalog.supports_string_test (strings yara test member)
    · exact Catalog.supports_other sigma yara test.field test.op

def keywordRule (keyword : String) : String :=
  "title: t\nlogsource:\n  product: windows\ndetection:\n  keywords:\n  - '" ++ keyword ++
    "'\n  condition: keywords\n"

def plainResolver : FieldResolver Unit := .ofConfig {} none

theorem plain_keyword_unchanged : ∃ rule, Format.sigma.read (keywordRule "evil") = .ok rule ∧
    ((plainResolver.adapt rule .sigma).run ⟨0, ()⟩ = (Adaptation.unchanged rule, ⟨0, ()⟩) ↔
      (Format.sigma = .sigma → ∀ test ∈ rule.tests, test.field = "keywords" →
        test.op = .contains)) := by
  obtain ⟨rule, accepted⟩ := Success.of_is_ok
    (show (Format.sigma.read (keywordRule "evil")).isOk = true by decide +kernel)
  exact ⟨rule, accepted, read_adapts_unchanged_iff plainResolver ⟨0, ()⟩ accepted⟩

/-- Of a rule with a glob for a keyword, nothing is left in its own dialect. -/
theorem glob_keyword_lost : ∃ rule, Format.sigma.read (keywordRule "evil*") = .ok rule ∧
    ((plainResolver.adapt rule .sigma).run ⟨0, ()⟩).1.rule = none := by
  have lost : ((Format.sigma.read (keywordRule "evil*")).map fun rule =>
      ((plainResolver.adapt rule .sigma).run ⟨0, ()⟩).1.rule.isNone) = .ok true := by
    decide +kernel
  obtain ⟨rule, accepted, absent⟩ := Success.of_map lost
  exact ⟨rule, accepted, Option.isNone_iff_eq_none.mp absent⟩

end DetectionRules
