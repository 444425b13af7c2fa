import DetectionRules.Dialect.Registry
import DetectionRules.Proofs.Sigma.Document

/-!
Where a fault is shown. A place that is worked out from a byte offset is a place
of the text that the offset counts in. All readers count in the rule text, but
Sigma's counts in the condition that it takes out of its document, so what is
wrong with a condition is shown at a place that the rule text may not have. Where
the readers of JSON and YAML show what they find is left to them.
-/

namespace DetectionRules

namespace Position

/-- The place of a byte offset that is not past the end of the text. -/
def LiesIn (position : Position) (text : String) : Prop :=
  ∃ offset ≤ text.utf8ByteSize, position = ofOffset text offset

instance (position : Position) (text : String) : Decidable (position.LiesIn text) :=
  inferInstanceAs (Decidable (∃ offset ≤ text.utf8ByteSize, position = ofOffset text offset))

theorem utf8_byte_size_eq (text : String) : text.utf8ByteSize = Text.byteCount text.toList := by
  have count (characters : List Char) :
      (String.ofList characters).utf8ByteSize = Text.byteCount characters := by
    rw [String.utf8ByteSize_ofList]
    induction characters with
    | nil => rfl
    | cons c rest induction => simp [Text.byteCount, ← induction, Nat.add_comm]
  rw [← count, String.ofList_toList]

/-- A number of bytes that the text does not have leads to its end. -/
theorem advance_past {bytes : Nat} {text : List Char} (past : Text.byteCount text ≤ bytes)
    (position : Position) : position.advance bytes text = text.foldl after position := by
  induction text generalizing bytes position with
  | nil => cases bytes <;> rfl
  | cons c rest induction =>
      have wide := c.utf8Size_pos
      rw [Text.byteCount] at past
      obtain ⟨fewer, rfl⟩ := Nat.exists_eq_add_one.mpr (show 0 < bytes by omega)
      exact induction (by omega) (position.after c)

theorem lies_in_of_offset (text : String) (offset : Nat) : (ofOffset text offset).LiesIn text := by
  by_cases inside : offset ≤ text.utf8ByteSize
  · exact ⟨offset, inside, rfl⟩
  · refine ⟨text.utf8ByteSize, Nat.le_refl _, ?_⟩
    have past : Text.byteCount text.toList ≤ offset := by
      rw [← utf8_byte_size_eq]
      omega
    rw [ofOffset, ofOffset, advance_past past, advance_past (utf8_byte_size_eq text).ge]

theorem start_lies_in (text : String) : start.LiesIn text := by
  refine ⟨0, Nat.zero_le _, ?_⟩
  rw [ofOffset]
  cases text.toList <;> rfl

end Position

section

variable {Result Next Item : Type} {places : Position → Prop}

/-- What cannot be read is shown at one of the places, if a place is shown. -/
def Shows (places : Position → Prop) (result : Except RuleError Result) : Prop :=
  ∀ format position reason, result = .error (.malformed format (some position) reason) →
    places position

theorem shows_ok (result : Result) : Shows places (.ok result) := by
  intro format position reason failed
  cases failed

theorem shows_mono {more : Position → Prop} {result : Except RuleError Result}
    (shows : Shows places result) (implies : ∀ position, places position → more position) :
    Shows more result :=
  fun format position reason failed => implies position (shows format position reason failed)

theorem shows_or {more : Position → Prop} {result : Except RuleError Result}
    (shows : Shows places result) :
    Shows (fun position => places position ∨ more position) result :=
  shows_mono shows fun _ => .inl

theorem shows_bind {first : Except RuleError Result} {continued : Result → Except RuleError Next}
    (shows : Shows places first)
    (others : ∀ result, first = .ok result → Shows places (continued result)) :
    Shows places (first >>= continued) := by
  intro format position reason failed
  cases first with
  | error error =>
      obtain rfl : error = .malformed format (some position) reason := Except.error.inj failed
      exact shows format position reason rfl
  | ok result => exact others result rfl format position reason failed

theorem shows_map {result : Except RuleError Result} {change : Result → Next}
    (shows : Shows places result) : Shows places (result.map change) := by
  intro format position reason failed
  cases result with
  | error error =>
      obtain rfl : error = .malformed format (some position) reason := Except.error.inj failed
      exact shows format position reason rfl
  | ok result => cases failed

theorem shows_map_m {step : Item → Except RuleError Result} (items : List Item)
    (shows : ∀ item, Shows places (step item)) : Shows places (items.mapM step) := by
  induction items with
  | nil => exact shows_ok _
  | cons item rest induction =>
      rw [List.mapM_cons]
      exact shows_bind (shows item) fun _ _ => shows_bind induction fun _ _ => shows_ok _

theorem shows_fold_m {step : Result → Item → Except RuleError Result} (items : List Item)
    (shows : ∀ result item, Shows places (step result item)) (first : Result) :
    Shows places (items.foldlM step first) := by
  induction items generalizing first with
  | nil => exact shows_ok _
  | cons item rest induction =>
      rw [List.foldlM_cons]
      exact shows_bind (shows first item) fun next _ => induction next

/-- Faults of a text are shown in it. -/
theorem shows_located (format : Format) (text : String) (result : Except Fault Result) :
    Shows (·.LiesIn text) (Dialect.located format text result) := by
  intro found position reason failed
  match result, failed with
  | .error (.malformed offset complaint), failed =>
      cases failed
      exact Position.lies_in_of_offset text _
  | .error (.unsupported construct), failed => cases failed

end

namespace Sigma

/-- What is wrong is shown at the start of a text. -/
abbrev AtStart {Result : Type} (reading : Reading Result) : Prop := Shows (· = .start) reading

section

variable {Result : Type}

theorem at_start_fault (reason : String) : AtStart (fault reason : Reading Result) := by
  intro format position complaint failed
  cases failed
  rfl

theorem at_start_unsupported (construct : String) :
    AtStart (unsupported construct : Reading Result) := by
  intro format position reason failed
  cases failed

theorem at_start_or_fault (reason : String) (found : Option Result) :
    AtStart (orFault reason found) := by
  cases found with
  | none => exact at_start_fault reason
  | some result => exact shows_ok result

end

theorem at_start_optional_text (entries : Entries) (key : String) :
    AtStart (optionalText entries key) := by
  rw [optionalText]
  split
  · exact shows_ok _
  · exact shows_map (at_start_or_fault _ _)

theorem at_start_required_text (entries : Entries) (key : String) :
    AtStart (requiredText entries key) :=
  shows_bind (at_start_optional_text entries key) fun _ _ => at_start_or_fault _ _

theorem at_start_log_source (entries : Entries) : AtStart (logSource entries) := by
  refine shows_bind (at_start_or_fault _ _) fun value _ => ?_
  split
  · exact shows_ok _
  · refine shows_bind (at_start_or_fault _ _) fun source _ => ?_
    refine shows_bind (at_start_optional_text source "product") fun _ _ => ?_
    refine shows_bind (at_start_optional_text source "category") fun _ _ => ?_
    exact shows_bind (at_start_optional_text source "service") fun _ _ => shows_ok _

theorem at_start_keyword (selection : String) (value : Yaml) :
    AtStart (keyword selection value) := by
  refine shows_bind (at_start_or_fault _ _) fun text _ => ?_
  split <;> exact shows_ok _

theorem at_start_value_of (field : String) (value : Yaml) : AtStart (valueOf field value) := by
  rw [valueOf.eq_def]
  split
  · exact shows_ok _
  · exact at_start_unsupported _
  · exact shows_map (at_start_or_fault _ _)

theorem at_start_values_of (field : String) (value : Yaml) : AtStart (valuesOf field value) := by
  have filled (values : List Value) : AtStart (
      if values.isEmpty then fault ("field '" ++ field ++ "' has no values") else pure values) := by
    split
    · exact at_start_fault _
    · exact shows_ok _
  rw [valuesOf.eq_def]
  dsimp only
  split
  · exact shows_bind (shows_map_m _ (at_start_value_of field)) fun values _ => filled values
  · refine shows_bind (at_start_value_of field _) fun value _ => ?_
    exact shows_bind (shows_ok [value]) fun values _ => filled values

theorem at_start_add_modifier (field : String) (modifiers : Modifiers) (modifier : String) :
    AtStart (addModifier field modifiers modifier) := by
  rw [addModifier]
  repeat' split
  all_goals first
    | exact shows_ok _
    | exact at_start_fault _
    | exact at_start_unsupported _

theorem at_start_field_test (field : String) (op : Option Operator) (values : List Value) :
    AtStart (fieldTest field op values) := by
  rw [fieldTest.eq_def]
  repeat' split
  all_goals first
    | exact shows_ok _
    | exact at_start_fault _

theorem at_start_field_tests (key : String) (value : Yaml) : AtStart (fieldTests key value) := by
  rw [fieldTests]
  split
  · exact shows_ok _
  · rename_i field names _
    have others : AtStart (do
        let modifiers ← names.foldlM (addModifier field) {}
        let values ← valuesOf field value
        if modifiers.all then values.mapM fun value => fieldTest field modifiers.op [value]
        else return [← fieldTest field modifiers.op values]) := by
      refine shows_bind (shows_fold_m names (at_start_add_modifier field) {}) fun modifiers _ => ?_
      refine shows_bind (at_start_values_of field value) fun values _ => ?_
      split
      · exact shows_map_m _ fun value => at_start_field_test field modifiers.op [value]
      · exact shows_bind (at_start_field_test field modifiers.op values) fun _ _ => shows_ok _
    split
    · exact shows_bind (at_start_fault _) fun _ _ => others
    · exact others

theorem at_start_mapping_tests (selection : String) (entries : Entries) :
    AtStart (mappingTests selection entries) := by
  refine shows_bind (shows_map_m _ fun entry => ?_) fun tests _ => ?_
  · exact shows_bind (at_start_or_fault _ _) fun key _ => at_start_field_tests key entry.2
  · split
    · exact at_start_fault _
    · exact shows_ok _

theorem at_start_keywords (name : String) (values : List Yaml) :
    AtStart (keywords name values) := by
  refine shows_bind (shows_map_m _ (at_start_keyword name)) fun alternatives _ => ?_
  split
  · exact at_start_fault _
  · exact shows_ok _

theorem at_start_alternatives (name : String) (number : Nat) (mappings : List Entries) :
    AtStart (alternatives name number mappings) := by
  induction mappings generalizing number with
  | nil => exact shows_ok _
  | cons entries rest induction =>
      refine shows_bind (at_start_mapping_tests name entries) fun tests _ => ?_
      exact shows_bind (induction (number + 1)) fun _ _ => shows_ok _

theorem at_start_selections (name : String) (value : Yaml) : AtStart (selections name value) := by
  rw [selections.eq_def]
  split
  · exact shows_bind (at_start_mapping_tests name _) fun _ _ => shows_ok _
  · exact shows_bind (at_start_mapping_tests name _) fun _ _ => shows_ok _
  · split
    · exact shows_bind (at_start_alternatives name 1 _) fun _ _ => shows_ok _
    · exact at_start_keywords name _
  · exact at_start_keywords name _

theorem at_start_add_entry (detection : Detection) (entry : Yaml × Yaml) :
    AtStart (addEntry detection entry) := by
  refine shows_bind (at_start_or_fault _ _) fun key _ => ?_
  split
  · exact shows_bind (at_start_or_fault _ _) fun _ _ => shows_ok _
  · refine shows_bind (at_start_or_fault _ _) fun text _ => ?_
    exact shows_bind (at_start_or_fault _ _) fun _ _ => shows_ok _
  · exact shows_bind (at_start_selections _ _) fun _ _ => shows_ok _

/-- The condition of the document that a text is. -/
def IsConditionOf (condition text : String) : Prop :=
  ∃ document entries, Yaml.read? text = some document ∧ detection? document = some entries ∧
    condition? entries = some condition

theorem condition_of_entries {entries : Entries} {detection : Detection}
    (added : entries.foldlM addEntry {} = .ok detection) :
    detection.condition = condition? entries := by
  have silent : Event.IsLinear fun _ => [] := fun _ _ => nofun
  have adds := adds_entries Search.simple_is_regex silent added
  rw [adds.condition, Option.or_none]

theorem shows_to_rule (document : Yaml) :
    Shows (fun position => position = .start ∨ ∃ entries condition,
      detection? document = some entries ∧ condition? entries = some condition ∧
        position.LiesIn condition) (toRule document) := by
  refine shows_bind (shows_or (at_start_or_fault _ _)) fun root isRoot => ?_
  refine shows_bind (shows_or (at_start_required_text root "title")) fun title _ => ?_
  refine shows_bind (shows_or (at_start_optional_text root "description")) fun description _ => ?_
  refine shows_bind (shows_or (at_start_log_source root)) fun logSource _ => ?_
  refine shows_bind (shows_or (at_start_or_fault _ _)) fun value isValue => ?_
  refine shows_bind (shows_or (at_start_or_fault _ _)) fun entries areEntries => ?_
  refine shows_bind (shows_or (shows_fold_m entries at_start_add_entry {})) fun detection added => ?_
  refine shows_bind (shows_or (at_start_or_fault _ _)) fun condition isCondition => ?_
  refine shows_bind ?_ fun parsed _ => shows_ok _
  refine shows_mono (shows_located .sigma condition (readCondition detection condition)) ?_
  intro position inside
  refine .inr ⟨entries, condition, ?_, ?_, inside⟩
  · simp [detection?, of_or_fault isRoot, of_or_fault isValue, of_or_fault areEntries]
  · rw [← condition_of_entries added, of_or_fault isCondition]

theorem shows_read (text : String) :
    Shows (fun position => position.LiesIn text ∨
      ∃ condition, IsConditionOf condition text ∧ position.LiesIn condition) (read text) := by
  refine shows_bind (shows_or (shows_located _ _ _)) fun _ _ => ?_
  split
  · intro format position reason failed
    cases failed
  · rename_i document found
    refine shows_bind (shows_mono (shows_to_rule document) ?_) fun rule _ =>
      shows_or (shows_located _ _ _)
    rintro position (rfl | ⟨entries, condition, isDetection, isCondition, inside⟩)
    · exact .inl (Position.start_lies_in text)
    · exact .inr ⟨condition, ⟨document, entries, found, isDetection, isCondition⟩, inside⟩

end Sigma

namespace PaloAlto

/-- The text has an object that is not written as JSON or does not have the shape of a rule. -/
def ObjectRefused (text : String) : Prop :=
  ∃ object misfit, body text.toList = .ok object ∧
    shape.fitText (String.ofList object) = .error misfit

theorem shows_read (text : String) :
    Shows (fun position => position.LiesIn text ∨ ObjectRefused text) (read text) := by
  rw [read.eq_def]
  refine shows_bind (shows_or (shows_located _ _ _)) fun _ _ => ?_
  extract_lets continued
  have others : Shows (fun position => position.LiesIn text ∨ ObjectRefused text) (continued ()) := by
    refine shows_bind (shows_or (shows_located _ _ _)) fun object found => ?_
    refine shows_bind ?_ fun json _ => shows_or (shows_located _ _ _)
    intro format position reason failed
    cases read : shape.fitText (String.ofList object) with
    | ok json =>
        rw [read] at failed
        cases failed
    | error misfit => exact .inr ⟨object, misfit, Success.of_map_error found, read⟩
  split
  · exact shows_bind (shows_or (shows_located _ _ _)) fun _ _ => others
  · exact others

end PaloAlto

/-- What is wrong with a text is shown at a place of the text, apart from what the reader of JSON
finds in it; a text that is not YAML is refused without a place, of which nothing is said. What is
wrong with the condition of a Sigma document may be shown at a place that only the condition
has. -/
theorem shown_in_text (format : Format) (text : String) {found : Format} {position : Position}
    {reason : String}
    (failed : format.read text = .error (.malformed found (some position) reason)) :
    position.LiesIn text ∨ (format = .paloalto ∧ PaloAlto.ObjectRefused text) ∨
      (format = .sigma ∧ ∃ condition, Sigma.IsConditionOf condition text ∧
        position.LiesIn condition) := by
  cases format with
  | sigma =>
      exact (Sigma.shows_read text found position reason failed).imp_right fun inside =>
        .inr ⟨rfl, inside⟩
  | paloalto =>
      exact (PaloAlto.shows_read text found position reason failed).imp_right fun refused =>
        .inl ⟨rfl, refused⟩
  | splunk => exact .inl (shows_located .splunk text _ found position reason failed)
  | qradar => exact .inl (shows_located .qradar text _ found position reason failed)
  | kql => exact .inl (shows_located .kql text _ found position reason failed)
  | crowdstrike => exact .inl (shows_located .crowdstrike text _ found position reason failed)
  | yara => exact .inl (shows_located .yara text _ found position reason failed)
  | yaral => exact .inl (shows_located .yaral text _ found position reason failed)

def failedLogons : String :=
  "title: Logon\nlogsource:\n  product: windows\ndetection:\n  failed: [a]\n" ++
  "  condition: failed and not known\n"

theorem read_failed_logons : Format.sigma.read failedLogons =
    .error (.malformed .sigma (some ⟨1, 16⟩) "unknown selection 'known'") :=
  Success.failure_eq_some_iff.mp (by decide +kernel)

theorem unknown_name_shown :
    Format.sigma.read failedLogons =
      .error (.malformed .sigma (some ⟨1, 16⟩) "unknown selection 'known'") ∧
    (Position.LiesIn ⟨1, 16⟩ failedLogons ∨
      (Format.sigma = .paloalto ∧ PaloAlto.ObjectRefused failedLogons) ∨
      (Format.sigma = .sigma ∧ ∃ condition, Sigma.IsConditionOf condition failedLogons ∧
        Position.LiesIn ⟨1, 16⟩ condition)) :=
  ⟨read_failed_logons, shown_in_text .sigma failedLogons read_failed_logons⟩

/-- The first line of the document is shorter than the condition, so it has no column 16. -/
theorem unknown_name_misplaced : ¬ ∀ (format found : Format) (text : String) (position : Position)
    (reason : String), format.read text = .error (.malformed found (some position) reason) →
    (format = .paloalto ∧ PaloAlto.ObjectRefused text) ∨ position.LiesIn text := by
  intro shown
  have outside : ¬ Position.LiesIn ⟨1, 16⟩ failedLogons := by decide +kernel
  rcases shown .sigma .sigma failedLogons ⟨1, 16⟩ _ read_failed_logons with ⟨other, _⟩ | inside
  · cases other
  · exact outside inside

end DetectionRules
