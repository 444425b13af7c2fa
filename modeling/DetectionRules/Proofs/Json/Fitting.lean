import DetectionRules.Json.Shape
import DetectionRules.Proofs.Json.Reading

/-!
Documents that fit a shape as they are. Fitting a record goes through the
members in the order of the text and then through the fields in the order of
the shape; where both orders agree, nothing is moved.
-/

namespace DetectionRules.Json

/-- Every draft of the document fits the shape, and what comes out is the document. -/
def Fits (shape : Shape) (json : Json) : Prop :=
  ∀ draft, Depicts json draft → shape.fit draft = .ok json

theorem fits_text (text : String) : Fits .text (.str text) := by
  rintro _ ⟨extent, rfl⟩
  rw [Shape.fit]
  rfl

theorem fits_choice {names : List String} {name : String} (known : name ∈ names) :
    Fits (.choice names) (.str name) := by
  rintro _ ⟨extent, rfl⟩
  rw [Shape.fit, Draft.choose, if_pos (List.contains_iff_mem.mpr known)]

theorem fits_optional_text (text : String) : Fits (.optional .text) (.str text) := by
  rintro _ ⟨extent, rfl⟩
  rw [Shape.fit]
  · exact fits_text text _ ⟨extent, rfl⟩
  · intro _ same
    cases same

theorem fits_list {shape : Shape} {items : List Json} (each : ∀ item ∈ items, Fits shape item) :
    Fits (.list shape) (.array items) := by
  rintro _ ⟨start, drafts, finish, rfl, depicts⟩
  have fitted : Draft.each shape.fit drafts = .ok items := by
    induction items generalizing drafts with
    | nil =>
        obtain rfl : drafts = [] := depicts
        rfl
    | cons item rest induction =>
        obtain ⟨first, others, rfl, here, later⟩ := depicts
        rw [Draft.each, each item List.mem_cons_self first here,
          induction (fun item member => each item (List.mem_cons_of_mem _ member)) _ later]
        rfl
  rw [Shape.fit]
  simp only [fitted, bind, Except.bind, Draft.ended]

theorem fits_passing {test : Json → Bool} {levels : Nat} {json : Json}
    (readable : Readable levels json) (passes : test json = true) : Fits (.passing test) json := by
  intro draft depicts
  obtain ⟨unbroken, same⟩ := whole_of_depicts readable depicts
  rw [Shape.fit]
  simp only [Draft.whole, unbroken, same, bind, Except.bind, if_pos passes]
  rfl

/-- The members stand in the order of the fields and fit them, and no required member is missing. -/
inductive FitsFields : List (String × Shape × Bool) → List (String × Json) → Prop where
  | nil : FitsFields [] []
  | absent {name shape fields members} (others : FitsFields fields members) :
      FitsFields ((name, shape, false) :: fields) members
  | present {name shape required value fields members} (fits : Fits shape value)
      (others : FitsFields fields members) :
      FitsFields ((name, shape, required) :: fields) ((name, value) :: members)

theorem find_of_not_mem {name : String} {members : List (String × Json)}
    (unknown : name ∉ members.map (·.1)) : members.find? (·.1 == name) = none := by
  rw [List.find?_eq_none]
  intro member place same
  exact unknown (beq_iff_eq.mp same ▸ List.mem_map_of_mem place)

namespace FitsFields

variable {fields : List (String × Shape × Bool)} {members : List (String × Json)}

theorem option {Value : Type} {name : String} {shape : Shape} {encode : Value → Json}
    {value : Option Value} {others : List (Option (String × Json))}
    (fits : ∀ content ∈ value, Fits shape (encode content))
    (rest : FitsFields fields (others.filterMap id)) :
    FitsFields ((name, shape, false) :: fields)
      (((value.map fun content => (name, encode content)) :: others).filterMap id) := by
  cases value with
  | none => exact .absent rest
  | some content => exact .present (fits content rfl) rest

theorem names_subset (fits : FitsFields fields members) :
    members.map (·.1) ⊆ fields.map (·.1) := by
  induction fits with
  | nil => exact List.Subset.refl _
  | absent _ induction => exact List.subset_cons_of_subset _ induction
  | present _ _ induction => exact List.cons_subset_cons _ induction

theorem required_mem (fits : FitsFields fields members) {field : String × Shape × Bool}
    (member : field ∈ fields) (required : field.2.2 = true) : field.1 ∈ members.map (·.1) := by
  induction fits with
  | nil => cases member
  | absent _ induction =>
      rcases List.mem_cons.mp member with rfl | later
      · cases required
      · exact induction later
  | present _ _ induction =>
      rcases List.mem_cons.mp member with rfl | later
      · exact List.mem_cons_self
      · exact List.mem_cons_of_mem _ (induction later)

theorem record_fields_eq (fields : List (String × Shape × Bool)) :
    Shape.recordFields fields =
      fields.map fun field => ⟨field.1, field.2.1.fit, field.2.2⟩ := by
  induction fields with
  | nil => rfl
  | cons field rest induction => rw [Shape.recordFields, induction, List.map_cons]

theorem find_field {field : String × Shape × Bool} (distinct : (fields.map (·.1)).Nodup)
    (member : field ∈ fields) :
    (Shape.recordFields fields).find? (·.name == field.1) =
      some ⟨field.1, field.2.1.fit, field.2.2⟩ := by
  induction fields with
  | nil => cases member
  | cons first rest induction =>
      rw [List.map_cons, List.nodup_cons] at distinct
      rw [Shape.recordFields, List.find?_cons]
      rcases List.mem_cons.mp member with rfl | later
      · simp
      · have other : (first.1 == field.1) = false := by
          rw [beq_eq_false_iff_ne]
          intro same
          exact distinct.1 (same ▸ List.mem_map_of_mem later)
        simp only [other]
        exact induction distinct.2 later

-- Below, `before` are the fields that have been passed and `found` the members that were there for
-- some of them.

variable {before : List (String × Shape × Bool)} {found : List (String × Json)}
  {name : String} {shape : Shape} {required : Bool}

theorem not_mem_found
    (distinct : ((before ++ (name, shape, required) :: fields).map (·.1)).Nodup)
    (passed : found.map (·.1) ⊆ before.map (·.1)) : name ∉ found.map (·.1) := by
  rw [List.map_append, List.nodup_append] at distinct
  intro member
  exact distinct.2.2 name (passed member) name List.mem_cons_self rfl

theorem not_mem_members
    (distinct : ((before ++ (name, shape, required) :: fields).map (·.1)).Nodup)
    (fits : FitsFields fields members) : name ∉ members.map (·.1) := by
  rw [List.map_append, List.nodup_append, List.map_cons, List.nodup_cons] at distinct
  exact fun member => distinct.2.1.1 (fits.names_subset member)

theorem pass_absent (passed : found.map (·.1) ⊆ before.map (·.1)) :
    found.map (·.1) ⊆ (before ++ [(name, shape, required)]).map (·.1) := by
  rw [List.map_append]
  exact List.subset_append_of_subset_left _ passed

theorem pass_present (value : Json) (passed : found.map (·.1) ⊆ before.map (·.1)) :
    (found ++ [(name, value)]).map (·.1) ⊆ (before ++ [(name, shape, required)]).map (·.1) := by
  rw [List.map_append, List.map_append]
  exact List.append_subset.mpr ⟨List.subset_append_of_subset_left _ passed,
    List.subset_append_right _ _⟩

/-- Members in the order of the text. -/
theorem fit_members (fits : FitsFields fields members)
    (distinct : ((before ++ fields).map (·.1)).Nodup)
    (passed : found.map (·.1) ⊆ before.map (·.1)) {drafts : List (Key × Draft × Nat)}
    (depicts : DepictsMembers members drafts) :
    Draft.fitMembers (Shape.recordFields (before ++ fields)) found drafts =
      .ok (found ++ members) := by
  induction fits generalizing before found drafts with
  | nil =>
      obtain rfl : drafts = [] := depicts
      rw [Draft.fitMembers, List.append_nil]
  | absent _ induction =>
      rw [List.append_cons] at distinct ⊢
      exact induction distinct (pass_absent passed) depicts
  | @present name shape required value fields members fits _ induction =>
      obtain ⟨resume, first, after, others, rfl, here, later⟩ := depicts
      have known := find_field distinct (List.mem_append_right _ List.mem_cons_self)
      have fresh : (found.any fun other => other.1 == name) = false := by
        rw [← List.isSome_find?, find_of_not_mem (not_mem_found distinct passed)]
        rfl
      rw [List.append_cons] at distinct
      have rest := induction distinct (pass_present value passed) later
      rw [← List.append_cons, ← List.append_cons] at rest
      rw [Draft.fitMembers]
      simp only [known, fresh, fits first here, Bool.false_eq_true, if_false, Except.mapError, bind,
        Except.bind, rest]

/-- Members in the order of the shape. -/
theorem in_order (fits : FitsFields fields members)
    (distinct : ((before ++ fields).map (·.1)).Nodup)
    (passed : found.map (·.1) ⊆ before.map (·.1)) :
    (Shape.recordFields fields).filterMap
      (fun field => (found ++ members).find? (·.1 == field.name)) = members := by
  induction fits generalizing before found with
  | nil => rfl
  | @absent name shape fields members others induction =>
      have nowhere : (found ++ members).find? (·.1 == name) = none := by
        rw [List.find?_append, find_of_not_mem (not_mem_found distinct passed),
          find_of_not_mem (not_mem_members distinct others)]
        rfl
      rw [List.append_cons] at distinct
      rw [Shape.recordFields, List.filterMap_cons]
      simp only [nowhere]
      exact induction distinct (pass_absent passed)
  | @present name shape required value fields members fits _ induction =>
      have here : (found ++ (name, value) :: members).find? (·.1 == name) = some (name, value) := by
        rw [List.find?_append, find_of_not_mem (not_mem_found distinct passed), Option.none_or,
          List.find?_cons_of_pos (by simp)]
      rw [List.append_cons] at distinct
      have rest := induction distinct (pass_present value passed)
      rw [← List.append_cons] at rest
      rw [Shape.recordFields, List.filterMap_cons]
      simp only [here, rest]

theorem missing_eq_false (fits : FitsFields fields members) :
    Draft.missing (Shape.recordFields fields) members = false := by
  rw [Draft.missing, record_fields_eq, List.any_map, List.any_eq_false]
  intro field member absent
  simp only [Function.comp_apply, Bool.and_eq_true, Bool.not_eq_true', List.any_eq_false] at absent
  obtain ⟨found, place, same⟩ := List.mem_map.mp (fits.required_mem member absent.1)
  exact absent.2 found place (beq_iff_eq.mpr same)

end FitsFields

theorem fits_record {fields : List (String × Shape × Bool)} {members : List (String × Json)}
    (fits : FitsFields fields members) (distinct : (fields.map (·.1)).Nodup) :
    Fits (.record fields) (.object members) := by
  rintro _ ⟨start, drafts, finish, rfl, depicts⟩
  have found := @FitsFields.fit_members _ _ [] [] fits distinct (List.Subset.refl _) _ depicts
  have ordered := @FitsFields.in_order _ _ [] [] fits distinct (List.Subset.refl _)
  rw [List.nil_append, List.nil_append] at found
  simp only [List.nil_append] at ordered
  have complete := fits.missing_eq_false
  rw [Shape.fit, Draft.fitRecord]
  simp only [found, bind, Except.bind, complete, Bool.false_eq_true, if_false, ordered]
  rfl

/-- The text of a document that fits holds nothing else. -/
theorem fit_text_pretty {shape : Shape} {json : Json} (readable : Readable Draft.maxDepth json)
    (fits : Fits shape json) : shape.fitText (json.pretty ++ "\n") = .ok json := by
  obtain ⟨draft, finish, read, whole, depicts⟩ := first_pretty readable
  rw [Shape.fitText, read]
  simp only [fits draft depicts, Except.mapError, bind, Except.bind, Except.toOption, Option.bind,
    whole]
  rfl

end DetectionRules.Json
