import DetectionRules.Proofs.YaraL.Test

/-!
Placeholders for the fields to group by. A placeholder is the first candidate
that is not in use, and there is one candidate more than placeholders in use, so
no two of them are the same.
-/

namespace DetectionRules.YaraL

open Expression.Naming (numbered numbered_injective)

def placeholderBase (field : String) : String :=
  let step := String.ofList ((lastStep field).map fun c => if c.isAlphanum then c.toLower else '_')
  if Named.isIdentifier step && step != eventVariable && step != distinctOutcome
    then step else "group_" ++ step

def candidates (base : String) (count : Nat) : List String :=
  (List.range (count + 1)).map fun number => numbered base (number + 1)

theorem candidates_eq (base : String) (count : Nat) :
    candidates base count = base :: (List.range count).map fun number =>
      base ++ "_" ++ toString (number + 2) := by
  rw [candidates, List.range_succ_eq_map, List.map_cons, List.map_map]
  rfl

theorem placeholder_name_eq (field : String) (taken : List String) :
    placeholderName field taken = ((candidates (placeholderBase field) taken.length).find?
      fun candidate => !taken.contains candidate).getD (placeholderBase field) := by
  rw [candidates_eq]
  rfl

theorem candidates_nodup (base : String) (count : Nat) : (candidates base count).Nodup := by
  apply List.Nodup.map _ List.nodup_range
  intro left right same
  exact Nat.succ_injective (numbered_injective same)

/-- One candidate more than names in use leaves one that is not in use. -/
theorem find_candidate (base : String) (taken : List String) :
    ∃ candidate, (candidates base taken.length).find?
      (fun candidate => !taken.contains candidate) = some candidate := by
  rw [← Option.isSome_iff_exists, List.find?_isSome]
  by_contra all
  have within : candidates base taken.length ⊆ taken := by
    intro candidate member
    by_contra free
    exact all ⟨candidate, member, by simpa using free⟩
  have fewer := ((candidates_nodup base taken.length).subperm within).length_le
  simp [candidates] at fewer

theorem placeholder_name_candidate (field : String) (taken : List String) :
    placeholderName field taken ∈ candidates (placeholderBase field) taken.length ∧
      placeholderName field taken ∉ taken := by
  obtain ⟨candidate, found⟩ := find_candidate (placeholderBase field) taken
  rw [placeholder_name_eq, found, Option.getD_some]
  refine ⟨List.mem_of_find?_eq_some found, ?_⟩
  simpa using List.find?_some found

theorem name_part_iff {c : Char} :
    Named.isNamePart c = true ↔ c.isAlphanum = true ∨ c = '_' := by
  simp [Named.isNamePart]

theorem to_lower_is_alphanum {c : Char} (part : c.isAlphanum = true) :
    c.toLower.isAlphanum = true := by
  by_cases upper : c.isUpper = true
  · have letter : c.toLower.isAlpha = true := by
      rw [Char.isAlpha_toLower_eq_isAlpha]
      simp [Char.isAlpha, upper]
    simp [Char.isAlphanum, letter]
  · rwa [Char.toLower_eq_of_not_isUpper upper]

theorem base_parts (field : String) : ∀ c ∈ (placeholderBase field).toList,
    Named.isNamePart c = true := by
  have step : ∀ c ∈ (String.ofList ((lastStep field).map fun c =>
      if c.isAlphanum then c.toLower else '_')).toList, Named.isNamePart c = true := by
    intro c member
    rw [String.toList_ofList] at member
    obtain ⟨original, _, rfl⟩ := List.mem_map.mp member
    by_cases part : original.isAlphanum = true
    · rw [if_pos part]
      exact name_part_iff.mpr (.inl (to_lower_is_alphanum part))
    · rw [if_neg part]
      decide
  have group : ∀ c ∈ "group_".toList, Named.isNamePart c = true := by
    simp [Named.isNamePart]
  intro c member
  rw [placeholderBase] at member
  split at member
  · exact step c member
  · rw [String.toList_append] at member
    rcases List.mem_append.mp member with member | member
    · exact group c member
    · exact step c member

theorem numbered_parts {base : String} (parts : ∀ c ∈ base.toList, Named.isNamePart c = true)
    (number : Nat) : ∀ c ∈ (numbered base number).toList, Named.isNamePart c = true := by
  intro c member
  rw [numbered] at member
  split at member
  · exact parts c member
  · simp only [String.toList_append, List.mem_append] at member
    rcases member with (member | member) | member
    · exact parts c member
    · obtain rfl : c = '_' := by simpa using member
      decide
    · have digits : (toString number).toList = Nat.toDigits 10 number := Nat.toList_repr
      rw [digits] at member
      have digit := Nat.isDigit_of_mem_toDigits (by omega) (by omega) member
      simp [Named.isNamePart, Char.isAlphanum, digit]

theorem placeholder_parts (field : String) (taken : List String) :
    ∀ c ∈ (placeholderName field taken).toList, Named.isNamePart c = true := by
  obtain ⟨number, _, same⟩ := List.mem_map.mp (placeholder_name_candidate field taken).1
  rw [← same]
  exact numbered_parts (base_parts field) _

/-- The placeholders for some fields, when others are in use. -/
def placeholders : List String → List String → List String
  | _, [] => []
  | taken, field :: rest =>
      placeholderName field taken :: placeholders (taken ++ [placeholderName field taken]) rest

def bindingText (binding : String × String) : String :=
  pathWord binding.2 ++ " = $" ++ binding.1

theorem bindings_ok {taken fields lines names : List String}
    (written : bindings taken fields = .ok (lines, names)) :
    (∀ field ∈ fields, isFieldPath field = true) ∧ names = taken ++ placeholders taken fields ∧
      lines = ((placeholders taken fields).zip fields).map bindingText := by
  induction fields generalizing taken lines names with
  | nil =>
      cases written
      exact ⟨by simp, by simp [placeholders], rfl⟩
  | cons field rest induction =>
      rw [bindings] at written
      obtain ⟨path, pathWritten, written⟩ := Success.of_bind written
      obtain ⟨⟨others, otherNames⟩, othersWritten, written⟩ := Success.of_bind written
      obtain ⟨known, rfl⟩ := path_text_ok pathWritten
      obtain ⟨knownOthers, rfl, rfl⟩ := induction othersWritten
      cases written
      refine ⟨by simpa using ⟨known, knownOthers⟩, by simp [placeholders], ?_⟩
      simp [placeholders, bindingText]

theorem bindings_of_paths {taken fields : List String}
    (paths : ∀ field ∈ fields, isFieldPath field = true) :
    bindings taken fields =
      .ok (((placeholders taken fields).zip fields).map bindingText,
        taken ++ placeholders taken fields) := by
  induction fields generalizing taken with
  | nil => simp [bindings, placeholders]
  | cons field rest induction =>
      have known := paths field (by simp)
      have others := @induction (taken ++ [placeholderName field taken])
        fun other member => paths other (by simp [member])
      simp [bindings, pathText, known, others, placeholders, bindingText, pathWord, bind, pure,
        Except.bind, Except.pure]

theorem placeholders_length (taken fields : List String) :
    (placeholders taken fields).length = fields.length := by
  induction fields generalizing taken with
  | nil => rfl
  | cons field rest induction => simp [placeholders, induction]

theorem placeholders_parts {taken fields : List String} :
    ∀ placeholder ∈ placeholders taken fields, ∀ c ∈ placeholder.toList,
      Named.isNamePart c = true := by
  induction fields generalizing taken with
  | nil => simp [placeholders]
  | cons field rest induction =>
      intro placeholder member
      rcases List.mem_cons.mp member with rfl | member
      · exact placeholder_parts field taken
      · exact induction placeholder member

/-- Placeholders differ from each other and from the names in use before them. -/
theorem placeholders_nodup {taken fields : List String} (distinct : taken.Nodup) :
    (taken ++ placeholders taken fields).Nodup := by
  induction fields generalizing taken with
  | nil => simpa [placeholders] using distinct
  | cons field rest induction =>
      have free := (placeholder_name_candidate field taken).2
      have longer : (taken ++ [placeholderName field taken]).Nodup := by
        rw [List.nodup_append]
        refine ⟨distinct, by simp, fun name member other same => ?_⟩
        obtain rfl : other = placeholderName field taken := by simpa using same
        rintro rfl
        exact free member
      simpa [placeholders] using induction longer

def bound (aggregation : Aggregation) : List (String × String) :=
  (placeholders [] aggregation.groupBy).zip aggregation.groupBy

theorem bound_placeholders (aggregation : Aggregation) :
    (bound aggregation).map (·.1) = placeholders [] aggregation.groupBy :=
  List.map_fst_zip (placeholders_length [] aggregation.groupBy).le

theorem bound_fields (aggregation : Aggregation) :
    (bound aggregation).map (·.2) = aggregation.groupBy :=
  List.map_snd_zip (placeholders_length [] aggregation.groupBy).ge

theorem lookup_of_mem {entries : List (String × String)} (distinct : (entries.map (·.1)).Nodup)
    {entry : String × String} (member : entry ∈ entries) :
    entries.lookup entry.1 = some entry.2 := by
  induction entries with
  | nil => cases member
  | cons first rest induction =>
      obtain ⟨fresh, others⟩ := List.nodup_cons.mp distinct
      rcases List.mem_cons.mp member with rfl | inside
      · exact List.lookup_cons_self
      · have different : (entry.1 == first.1) = false := by
          rw [beq_eq_false_iff_ne]
          intro same
          exact fresh (List.mem_map.mpr ⟨entry, inside, same⟩)
        rw [List.lookup_cons, different]
        exact induction others inside

/-- Every placeholder stands for its own field. -/
theorem lookup_bound {aggregation : Aggregation} {binding : String × String}
    (member : binding ∈ bound aggregation) :
    (bound aggregation).lookup binding.1 = some binding.2 := by
  have distinct := @placeholders_nodup [] aggregation.groupBy (by simp)
  apply lookup_of_mem _ member
  rwa [bound_placeholders]

end DetectionRules.YaraL
