import DetectionRules.Adaptation.Rule
import DetectionRules.Proofs.Activity
import DetectionRules.Proofs.Rule

/-!
What becomes of the fields of a rule, whatever the advisor does: each of them is
resolved once, and the names that are found are names of the target dialect.
-/

namespace DetectionRules

namespace Catalog

theorem natives_filled : ∀ property ∈ properties, ∀ entry ∈ property.natives, entry.2 ≠ "" := by
  decide

theorem native_filled {property : EventProperty} {format : Format} {name : String}
    (known : property ∈ properties) (named : native property format = some name) : name ≠ "" := by
  obtain ⟨entry, found, rfl⟩ := Option.map_eq_some_iff.mp named
  exact natives_filled property known entry (List.mem_of_find?_eq_some found)

theorem fields_filled {format : Format} {name : String} (member : name ∈ fields format) :
    name ≠ "" := by
  rw [fields, List.mem_mergeSort] at member
  obtain ⟨property, known, named⟩ := List.mem_filterMap.mp member
  exact native_filled known named

theorem translate_self (format : Format) (field : String) :
    translate? format format field = some field := by
  rw [translate?, if_pos rfl]

theorem translate_filled {source target : Format} {field name : String} (filled : field ≠ "")
    (translated : translate? source target field = some name) : name ≠ "" := by
  rw [translate?] at translated
  by_cases same : source = target
  · rw [if_pos same] at translated
    cases translated
    exact filled
  · rw [if_neg same] at translated
    obtain ⟨property, found, named⟩ := Option.bind_eq_some_iff.mp translated
    exact native_filled (List.mem_of_find?_eq_some found) named

end Catalog

namespace Resolution

/-- What may become of a field, given its name in the target dialect if the catalog has one. -/
inductive Allowed (target : Format) (translated? : Option String) : Resolution → Prop
  | translated {native : String} : translated? = some native → Allowed target translated? (.translated native)
  | inferred {suggestion : FieldSuggestion} : translated? = none →
      suggestion.field ∈ Catalog.fields target → Allowed target translated? (.inferred suggestion)
  | dropped {reason : String} : translated? = none → Allowed target translated? (.dropped reason)

theorem Allowed.filled {source target : Format} {field name : String} {resolution : Resolution}
    (allowed : resolution.Allowed target (Catalog.translate? source target field))
    (filled : field ≠ "") (named : resolution.target? = some name) : name ≠ "" := by
  cases allowed with
  | translated translated =>
      cases named
      exact Catalog.translate_filled filled translated
  | inferred _ known =>
      cases named
      exact Catalog.fields_filled known
  | dropped _ => cases named

theorem issue_of_dropped {resolution : Resolution} (dropped : resolution.target? = none)
    (field : String) (target : Format) :
    ∃ issue, resolution.issue? field target = some issue ∧ issue.code = "FIELD_DROPPED" ∧
      issue.severity = .medium ∧ issue.location = "field:" ++ field := by
  cases resolution with
  | translated native => cases dropped
  | inferred suggestion => cases dropped
  | dropped reason => exact ⟨_, rfl, rfl, rfl, rfl⟩

end Resolution

namespace FieldResolver

open Activity (Moment)

variable {World : Type}

theorem judge_allowed (resolver : FieldResolver World) (target : Format)
    (answer : Except AdvisorError FieldSuggestion) :
    (resolver.judge (Catalog.fields target) answer).Allowed target none := by
  cases answer with
  | error error => exact .dropped rfl
  | ok suggestion =>
      rw [judge]
      split
      · exact .dropped rfl
      · split
        · rename_i known
          exact .inferred rfl (List.contains_iff_mem.mp known)
        · exact .dropped rfl

theorem resolve_allowed (resolver : FieldResolver World) (rule : Rule) (target : Format)
    (field : String) (moment : Moment World) :
    ((resolver.resolve rule target field).run moment).1.Allowed target
      (Catalog.translate? rule.dialect target field) := by
  rw [resolve]
  cases translated : Catalog.translate? rule.dialect target field with
  | some native => exact .translated rfl
  | none =>
      cases resolver.advisor with
      | none => exact .dropped rfl
      | some advisor =>
          simp only [Activity.run_bind]
          exact resolver.judge_allowed target _

/-- Every field is resolved, in the order of the fields. -/
theorem resolve_all_allowed (resolver : FieldResolver World) (rule : Rule) (target : Format)
    (fields : List String) (moment : Moment World) :
    ((resolver.resolveAll rule target fields).run moment).1.map (·.1) = fields ∧
      ∀ entry ∈ ((resolver.resolveAll rule target fields).run moment).1,
        entry.2.Allowed target (Catalog.translate? rule.dialect target entry.1) := by
  induction fields generalizing moment with
  | nil => exact ⟨rfl, by simp [resolveAll]⟩
  | cons field rest induction =>
      have first := resolver.resolve_allowed rule target field moment
      obtain ⟨same, others⟩ := induction ((resolver.resolve rule target field).run moment).2
      simp only [resolveAll, Activity.run_bind, Activity.run_pure, List.map_cons, same, true_and]
      intro entry member
      rcases List.mem_cons.mp member with rfl | inside
      · exact first
      · exact others entry inside

end FieldResolver

theorem Rule.mem_referenced_fields {rule : Rule} {field : String} :
    field ∈ rule.referencedFields ↔ (∃ test ∈ rule.tests, test.field = field) ∨
      ∃ aggregation ∈ rule.aggregation, field ∈ aggregation.fields := by
  rw [referencedFields, List.mem_eraseDups, List.mem_append, fieldNames, List.mem_eraseDups,
    List.mem_map]
  cases rule.aggregation <;> simp

namespace Adaptation

def pairs (entries : List (String × Resolution)) : List FieldPair :=
  entries.map fun (field, resolution) => ⟨field, resolution.target?⟩

theorem native_pairs (entries : List (String × Resolution)) (field : String) :
    native? (pairs entries) field = (entries.find? (·.1 == field)).bind (·.2.target?) := by
  rw [native?, pairs, List.find?_map]
  cases found : entries.find? (·.1 == field) <;> simp [found]

theorem entry_of_named {entries : List (String × Resolution)} {field name : String}
    (named : native? (pairs entries) field = some name) :
    ∃ entry ∈ entries, entry.1 = field ∧ entry.2.target? = some name := by
  rw [native_pairs] at named
  obtain ⟨entry, found, named⟩ := Option.bind_eq_some_iff.mp named
  exact ⟨entry, List.mem_of_find?_eq_some found, by simpa using List.find?_some found, named⟩

theorem entry_of_unnamed {entries : List (String × Resolution)} {field : String}
    (known : field ∈ entries.map (·.1)) (unnamed : native? (pairs entries) field = none) :
    ∃ entry ∈ entries, entry.1 = field ∧ entry.2.target? = none := by
  obtain ⟨entry, inside, same⟩ := List.mem_map.mp known
  cases found : entries.find? (·.1 == field) with
  | none =>
      have different := List.find?_eq_none.mp found entry inside
      simp [same] at different
  | some first =>
      rw [native_pairs, found, Option.bind_some] at unnamed
      exact ⟨first, List.mem_of_find?_eq_some found, by simpa using List.find?_some found, unnamed⟩

end Adaptation

/-- An adaptation is that of some resolutions, one for each field of the rule. -/
theorem FieldResolver.run_adapt {World : Type} (resolver : FieldResolver World) (rule : Rule)
    (target : Format) (moment : Activity.Moment World) :
    ∃ entries, entries.map (·.1) = rule.referencedFields ∧
      (∀ entry ∈ entries,
        entry.2.Allowed target (Catalog.translate? rule.dialect target entry.1)) ∧
      ((resolver.adapt rule target).run moment).1 = Adaptation.ofResolutions rule target entries := by
  have resolved := resolver.resolve_all_allowed rule target rule.referencedFields moment
  refine ⟨_, resolved.1, resolved.2, ?_⟩
  rw [adapt, Activity.run_bind, Activity.run_pure]

end DetectionRules
