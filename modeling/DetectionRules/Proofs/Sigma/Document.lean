import DetectionRules.Proofs.Accepted
import DetectionRules.Proofs.Number
import DetectionRules.Proofs.Selections
import DetectionRules.Proofs.Sigma.Condition

/-!
Rules follow the documents they are read from. The meaning of a document is
stated for the document as it is written: a mapping asks for all of its keys, a
list for one of its items, a key for one of its values or for all of them, and
the condition says which entries must hold.
-/

namespace DetectionRules

namespace Sigma

/-- The items of a sequence; any other value is its own item. -/
def items : Yaml → List Yaml
  | .sequence items => items
  | value => [value]

/-- A key such as `field|contains|all`. -/
structure Key where
  field : String
  modifiers : List String

namespace Key

def ofText (text : String) : Key :=
  match (Text.splitWhen (· == '|') text.toList).map String.ofList with
  | [] => ⟨"", []⟩
  | field :: modifiers => ⟨field, modifiers⟩

def op? (key : Key) : Option Operator := key.modifiers.findSome? operatorOf?

end Key

section Meaning

variable (search : Search) (event : Event)

/-- Without an operator a value is a glob. -/
def Matches (op : Option Operator) (written text : String) : Prop :=
  match op with
  | none => Piece.Cover (Glob.pieces '*' written.toList) text.toList
  | some op => op.accepts search written text = true

def ItemHolds (key : Key) (item : Yaml) : Prop :=
  ∃ written, scalarText? item = some written ∧
    ∃ text ∈ event key.field, Matches search key.op? written text

/-- Some value of the key, or every value if the key says so. -/
def KeyHolds (key : Key) (value : Yaml) : Prop :=
  if "all" ∈ key.modifiers then ∀ item ∈ items value, ItemHolds search event key item
  else ∃ item ∈ items value, ItemHolds search event key item

def MappingHolds (entries : Entries) : Prop :=
  ∀ entry ∈ entries, ∃ key, entry.1.str? = some key ∧ KeyHolds search event (Key.ofText key) entry.2

/-- A keyword is a glob if it has an asterisk, and else it stands somewhere in a text. -/
def KeywordHolds (keyword : Yaml) : Prop :=
  ∃ written, scalarText? keyword = some written ∧ ∃ text ∈ event keywordField,
    Matches search (if '*' ∈ written.toList then none else some .contains) written text

def PartHolds (part : Yaml) : Prop :=
  match part.entries? with
  | some entries => MappingHolds search event entries
  | none => KeywordHolds search event part

/-- What the value of an entry says: some mapping of several, or some keyword. -/
def EntryHolds (value : Yaml) : Prop := ∃ part ∈ items value, PartHolds search event part

/-- The entries that a condition can name, with what they say. -/
def meaning? (entry : Yaml × Yaml) : Option (String × Prop) :=
  match entry.1.str? with
  | some "condition" | some "timeframe" | none => none
  | some name => some (name, EntryHolds search event entry.2)

def entryMeanings (entries : Entries) : Meanings := entries.filterMap (meaning? search event)

end Meaning

def detection? (document : Yaml) : Option Entries := do
  let root ← document.entries?
  (← Yaml.lookup? "detection" root).entries?

def conditionText? (entry : Yaml × Yaml) : Option String :=
  if entry.1.str? = some "condition" then entry.2.str? else none

/-- The condition of a detection section, of which the last one counts. -/
def condition? (entries : Entries) : Option String := (entries.filterMap conditionText?).getLast?

variable {search : Search} {event : Event}

/-- What an alternative accepts is what its expression finds. -/
theorem search_pattern (isRegex : search.IsRegex) {alternative : Alternative}
    (textual : alternative.1.isComparison = false) (text : String) :
    search (pattern alternative) text = true ↔
      alternative.1.accepts search alternative.2.text text = true := by
  obtain ⟨op, value⟩ := alternative
  have escaped : (Regex.escape value.text).toList = Regex.escapeChars value.text.toList :=
    String.toList_ofList
  cases op with
  | equals =>
      change search ("^" ++ Regex.escape value.text ++ "$") text = true ↔ (text == value.text) = true
      rw [isRegex.literal_apply true true (by simp [escaped]; rfl), beq_iff_eq, ← String.toList_inj]
      constructor
      · rintro ⟨front, back, whole, start, ending⟩
        simp [whole, start rfl, ending rfl]
      · exact fun same => ⟨[], [], by simpa using same, fun _ => rfl, fun _ => rfl⟩
  | contains =>
      change search (Regex.escape value.text) text = true ↔
        decide (value.text.toList <:+: text.toList) = true
      rw [isRegex.literal_apply false false (by simp [escaped]; rfl), decide_eq_true_iff]
      constructor
      · exact fun ⟨front, back, whole, _⟩ => ⟨front, back, whole.symm⟩
      · exact fun ⟨front, back, whole⟩ => ⟨front, back, whole.symm, nofun, nofun⟩
  | startsWith =>
      change search ("^" ++ Regex.escape value.text) text = true ↔
        value.text.toList.isPrefixOf text.toList = true
      rw [isRegex.literal_apply true false (by simp [escaped]; rfl), List.isPrefixOf_iff_prefix]
      constructor
      · exact fun ⟨front, back, whole, start, _⟩ => ⟨back, by simp [whole, start rfl]⟩
      · exact fun ⟨back, whole⟩ => ⟨[], back, by simp [whole], fun _ => rfl, nofun⟩
  | endsWith =>
      change search (Regex.escape value.text ++ "$") text = true ↔
        value.text.toList.isSuffixOf text.toList = true
      rw [isRegex.literal_apply false true (by simp [escaped]; rfl), List.isSuffixOf_iff_suffix]
      constructor
      · exact fun ⟨front, back, whole, _, ending⟩ => ⟨front, by simp [whole, ending rfl]⟩
      · exact fun ⟨front, whole⟩ => ⟨front, [], by simp [whole], nofun, fun _ => rfl⟩
  | regex => rfl
  | gt | gte | lt | lte => cases textual

theorem holds_iff (test : FieldTest) : test.holds (event.truth search) = true ↔
    ∃ value ∈ test.values, ∃ text ∈ event test.field,
      test.op.accepts search value.text text = true := by
  simp [FieldTest.holds, Event.truth]

theorem holds_merge (isRegex : search.IsRegex) (field : String) {alternatives : List Alternative}
    (textual : ∀ alternative ∈ alternatives, alternative.1.isComparison = false) :
    (merge field alternatives).holds (event.truth search) = true ↔
      ∃ alternative ∈ alternatives, ∃ text ∈ event field,
        alternative.1.accepts search alternative.2.text text = true := by
  rw [merge]
  split
  · rename_i same
    simp only [List.all_eq_true, decide_eq_true_eq] at same
    rw [holds_iff]
    simp only [Expression.mem_fold_add_value, List.not_mem_nil, false_or, List.mem_map,
      exists_exists_and_eq_and]
    refine exists_congr fun alternative => and_congr_right fun member => ?_
    rw [same alternative member]
  · rw [holds_iff]
    simp only [List.mem_map, exists_exists_and_eq_and]
    refine exists_congr fun alternative => and_congr_right fun member => ?_
    refine exists_congr fun text => and_congr_right fun _ => ?_
    exact search_pattern isRegex (textual alternative member) text

theorem textual_glob (glob : String) : (globAlternative glob).1.isComparison = false := by
  rw [globAlternative]
  cases classified : Glob.classify '*' glob.toList with
  | mk op inner =>
      rcases Glob.shape_of_classify classified with ⟨rfl, _⟩ | ⟨rfl, _⟩ | ⟨before, after, rfl, _⟩
      · rfl
      · rfl
      · cases before <;> cases after <;> rfl

theorem accepts_glob (isRegex : search.IsRegex) (glob : String) {text : String}
    (line : '\n' ∉ text.toList) :
    (globAlternative glob).1.accepts search (globAlternative glob).2.text text = true ↔
      Matches search none glob text :=
  Glob.accepts_classified isRegex line rfl

theorem equality_textual (value : Value) : (equalityAlternative value).1.isComparison = false := by
  cases value with
  | int => rfl
  | str text =>
      rw [equalityAlternative]
      split
      · exact textual_glob text
      · rfl

theorem accepts_equality (isRegex : search.IsRegex) (value : Value) {text : String}
    (line : '\n' ∉ text.toList) :
    (equalityAlternative value).1.accepts search (equalityAlternative value).2.text text = true ↔
      Matches search none value.text text := by
  have plain (written : String) (noStar : '*' ∉ written.toList) :
      (text == written) = true ↔ Matches search none written text := by
    rw [Matches, Glob.pieces_plain noStar, Piece.cover_literals, beq_iff_eq, String.toList_inj]
  cases value with
  | int number =>
      refine plain _ fun member => ?_
      rcases Value.of_mem_int_text member with digit | minus
      · exact absurd digit (by decide)
      · exact absurd minus (by decide)
  | str written =>
      rw [equalityAlternative]
      split
      · exact accepts_glob isRegex written line
      · rename_i noStar
        exact plain written (by simpa [Text.containsChar] using noStar)

theorem holds_field_test (isRegex : search.IsRegex) (linear : event.IsLinear) {field : String}
    {op : Option Operator} {values : List Value} {test : FieldTest}
    (accepted : fieldTest field op values = .ok test) :
    test.holds (event.truth search) = true ↔
      ∃ value ∈ values, ∃ text ∈ event field, Matches search op value.text text := by
  cases op with
  | none =>
      cases accepted
      rw [holds_merge isRegex field fun alternative member => by
        obtain ⟨value, _, rfl⟩ := List.mem_map.mp member
        exact equality_textual value]
      simp only [List.mem_map, exists_exists_and_eq_and]
      refine exists_congr fun value => and_congr_right fun _ => ?_
      refine exists_congr fun text => and_congr_right fun member => ?_
      exact accepts_equality isRegex value (linear field text member)
  | some op =>
      rw [fieldTest] at accepted
      split at accepted
      · split at accepted
        · cases accepted
          exact holds_iff _
        · cases accepted
      · split at accepted
        · cases accepted
        · cases accepted
          rw [holds_iff]
          simp only [List.mem_map, exists_exists_and_eq_and]
          rfl

theorem text_of_value {field : String} {item : Yaml} {value : Value}
    (accepted : valueOf field item = .ok value) : scalarText? item = some value.text := by
  rw [valueOf.eq_def] at accepted
  split at accepted
  · rename_i number
    cases accepted
    cases fits : Text.int64? number with
    | none => rfl
    | some small =>
        simp [scalarText?, Value.text, Text.to_int_of_int64 fits]
  · cases accepted
  · obtain ⟨text, found, rfl⟩ := Success.of_map accepted
    exact of_or_fault found

theorem of_values {field : String} {value : Yaml} {values : List Value}
    (accepted : valuesOf field value = .ok values) :
    (items value).mapM (valueOf field) = .ok values := by
  rw [valuesOf.eq_def] at accepted
  cases value with
  | sequence =>
      obtain ⟨found, listed, accepted⟩ := Success.of_bind accepted
      dsimp only at accepted
      split at accepted
      · cases accepted
      · cases accepted
        exact listed
  | _ =>
      obtain ⟨found, read, accepted⟩ := Success.of_bind accepted
      cases accepted
      rw [items, List.mapM_cons, read]
      · rfl
      · nofun

theorem item_holds_iff {key : Key} {item : Yaml} {value : Value}
    (accepted : valueOf key.field item = .ok value) :
    (∃ text ∈ event key.field, Matches search key.op? value.text text) ↔
      ItemHolds search event key item := by
  simp [ItemHolds, text_of_value accepted]

theorem of_add_modifier {field modifier : String} {known modifiers : Modifiers}
    (accepted : addModifier field known modifier = .ok modifiers) :
    modifiers.op = known.op.or (operatorOf? modifier) ∧
      (modifiers.all = true ↔ known.all = true ∨ modifier = "all") := by
  rw [addModifier] at accepted
  split at accepted
  · rename_i op found
    split at accepted
    · cases accepted
    · rename_i fresh
      cases accepted
      have other : modifier ≠ "all" := by
        rintro rfl
        cases found
      simp only [Option.isSome_iff_ne_none, ne_eq, not_not] at fresh
      simp [fresh, found, other]
  · rename_i found
    split at accepted
    · rename_i all
      cases accepted
      have none : operatorOf? "all" = none := rfl
      simp [all, none]
    · split at accepted <;> cases accepted

theorem of_modifiers {field : String} {names : List String} {known modifiers : Modifiers}
    (accepted : names.foldlM (addModifier field) known = .ok modifiers) :
    modifiers.op = known.op.or (names.findSome? operatorOf?) ∧
      (modifiers.all = true ↔ known.all = true ∨ "all" ∈ names) := by
  induction names generalizing known with
  | nil =>
      cases accepted
      simp
  | cons name rest induction =>
      rw [List.foldlM_cons] at accepted
      obtain ⟨next, added, accepted⟩ := Success.of_bind accepted
      obtain ⟨op, all⟩ := of_add_modifier added
      obtain ⟨lastOp, lastAll⟩ := induction accepted
      constructor
      · rw [lastOp, op, Option.or_assoc, List.findSome?_cons]
        cases operatorOf? name <;> rfl
      · rw [lastAll, all, List.mem_cons, or_assoc, @eq_comm _ name]

theorem holds_field_tests (isRegex : search.IsRegex) (linear : event.IsLinear) {text : String}
    {value : Yaml} {tests : List FieldTest} (accepted : fieldTests text value = .ok tests) :
    (∀ test ∈ tests, test.holds (event.truth search) = true) ↔
      KeyHolds search event (Key.ofText text) value := by
  rw [fieldTests] at accepted
  split at accepted
  · rename_i none
    exact absurd (List.map_eq_nil_iff.mp none) (Text.split_when_ne_nil _)
  · rename_i field names parts
    have key : Key.ofText text = ⟨field, names⟩ := by
      simp only [Key.ofText, parts]
    rw [key]
    split at accepted
    · cases accepted
    · obtain ⟨modifiers, modified, accepted⟩ := Success.of_bind accepted
      obtain ⟨values, listed, accepted⟩ := Success.of_bind accepted
      obtain ⟨op, all⟩ := of_modifiers modified
      have read := of_values listed
      rw [Option.none_or] at op
      rw [op] at accepted
      simp only [Bool.false_eq_true, false_or] at all
      have each : ∀ item ∈ items value, ∀ read, valueOf field item = .ok read →
          ((∃ text ∈ event field, Matches search (names.findSome? operatorOf?) read.text text) ↔
            ItemHolds search event ⟨field, names⟩ item) :=
        fun item _ read found => @item_holds_iff search event ⟨field, names⟩ item read found
      rw [KeyHolds]
      split at accepted
      · rename_i every
        rw [if_pos (all.mp every)]
        rw [Success.forall_iff_of_map_m
          (fun value _ test made => holds_field_test isRegex linear made) accepted]
        simp only [List.mem_singleton, exists_eq_left]
        exact Success.forall_iff_of_map_m each read
      · rename_i some
        obtain ⟨test, made, done⟩ := Success.of_bind accepted
        cases done
        rw [if_neg (some ∘ all.mpr), List.forall_mem_singleton,
          holds_field_test isRegex linear made]
        exact Success.exists_iff_of_map_m each read

theorem holds_mapping_tests (isRegex : search.IsRegex) (linear : event.IsLinear)
    {selection : String} {entries : Entries} {tests : List FieldTest}
    (accepted : mappingTests selection entries = .ok tests) :
    (∀ test ∈ tests, test.holds (event.truth search) = true) ↔
      MappingHolds search event entries := by
  obtain ⟨keyed, listed, accepted⟩ := Success.of_bind accepted
  split at accepted
  · cases accepted
  · cases accepted
    have each : ∀ entry ∈ entries, ∀ tests, (do
        fieldTests (← orFault ("selection '" ++ selection ++ "' has a non-string field") entry.1.str?)
          entry.2) = .ok tests → ((∀ test ∈ tests, test.holds (event.truth search) = true) ↔
            ∃ key, entry.1.str? = some key ∧ KeyHolds search event (Key.ofText key) entry.2) := by
      intro entry _ tests made
      obtain ⟨key, found, made⟩ := Success.of_bind made
      simp [of_or_fault found, holds_field_tests isRegex linear made]
    rw [MappingHolds, ← Success.forall_iff_of_map_m each listed, List.forall_mem_flatten]

theorem of_keyword {selection : String} {item : Yaml} {alternative : Alternative}
    (accepted : keyword selection item = .ok alternative) :
    ∃ written, scalarText? item = some written ∧ alternative =
      if '*' ∈ written.toList then globAlternative written else (.contains, .str written) := by
  obtain ⟨written, found, accepted⟩ := Success.of_bind accepted
  refine ⟨written, of_or_fault found, ?_⟩
  split at accepted
  · rename_i star
    cases accepted
    rw [if_pos (by simpa [Text.containsChar] using star)]
  · rename_i plain
    cases accepted
    rw [if_neg (by simpa [Text.containsChar] using plain)]

theorem textual_keyword {selection : String} {item : Yaml} {alternative : Alternative}
    (accepted : keyword selection item = .ok alternative) :
    alternative.1.isComparison = false := by
  obtain ⟨written, _, rfl⟩ := of_keyword accepted
  split
  · exact textual_glob written
  · rfl

theorem entries_of_scalar {item : Yaml} {written : String}
    (scalar : scalarText? item = some written) : item.entries? = none := by
  cases item with
  | scalar => rfl
  | _ => cases scalar

theorem accepts_keyword (isRegex : search.IsRegex) (linear : event.IsLinear) {selection : String}
    {item : Yaml} {alternative : Alternative}
    (accepted : keyword selection item = .ok alternative) :
    (∃ text ∈ event keywordField,
      alternative.1.accepts search alternative.2.text text = true) ↔
      PartHolds search event item := by
  obtain ⟨written, found, rfl⟩ := of_keyword accepted
  rw [PartHolds, entries_of_scalar found, KeywordHolds]
  simp only [found, Option.some.injEq, exists_eq_left']
  refine exists_congr fun text => and_congr_right fun member => ?_
  split
  · exact accepts_glob isRegex written (linear keywordField text member)
  · rfl

theorem holds_keywords (isRegex : search.IsRegex) (linear : event.IsLinear) {name : String}
    {values : List Yaml} {named : Named} (accepted : keywords name values = .ok named) :
    ∃ test, named = single name [test] ∧
      (test.holds (event.truth search) = true ↔ ∃ part ∈ values, PartHolds search event part) := by
  obtain ⟨alternatives, listed, accepted⟩ := Success.of_bind accepted
  split at accepted
  · cases accepted
  · cases accepted
    refine ⟨_, rfl, ?_⟩
    rw [holds_merge isRegex keywordField]
    · exact Success.exists_iff_of_map_m
        (fun item _ alternative made => accepts_keyword isRegex linear made) listed
    · have each : ∀ item ∈ values, ∀ alternative, keyword name item = .ok alternative →
          (alternative.1.isComparison = false ↔ True) :=
        fun item _ alternative made => iff_true_intro (textual_keyword made)
      exact (Success.forall_iff_of_map_m each listed).mpr fun _ _ => trivial

theorem holds_alternatives (isRegex : search.IsRegex) (linear : event.IsLinear) {name : String}
    {number : Nat} {mappings : List Entries} {made : List Selection}
    (accepted : alternatives name number mappings = .ok made) :
    (∃ selection ∈ made, selection.holds (event.truth search) = true) ↔
      ∃ entries ∈ mappings, MappingHolds search event entries := by
  induction mappings generalizing number made with
  | nil =>
      cases accepted
      simp
  | cons entries rest induction =>
      obtain ⟨tests, first, accepted⟩ := Success.of_bind accepted
      obtain ⟨others, later, accepted⟩ := Success.of_bind accepted
      cases accepted
      rw [List.exists_mem_cons_iff, List.exists_mem_cons_iff, induction later, Selection.holds,
        List.all_eq_true, holds_mapping_tests isRegex linear first]

/-- The conditions over selections are about what the selections are. -/
def Agrees (truth : Truth) (selections : List Selection) (holds : String → Bool) : Prop :=
  ∀ selection ∈ selections, holds selection.name = selection.holds truth

theorem eval_single {truth : Truth} {name : String} {tests : List FieldTest}
    {holds : String → Bool} (agrees : Agrees truth (single name tests).1 holds) :
    (single name tests).2.eval holds = true ↔ ∀ test ∈ tests, test.holds truth = true := by
  have same : holds name = Selection.holds truth ⟨name, tests⟩ := agrees ⟨name, tests⟩ (by simp [single])
  rw [single, Logic.eval, same, Selection.holds, List.all_eq_true]

theorem holds_mappings {parts : List Yaml} {mappings : List Entries}
    (found : parts.mapM Yaml.entries? = some mappings) :
    (∃ part ∈ parts, PartHolds search event part) ↔
      ∃ entries ∈ mappings, MappingHolds search event entries := by
  induction parts generalizing mappings with
  | nil =>
      cases found
      simp
  | cons part rest induction =>
      rw [List.mapM_cons] at found
      obtain ⟨entries, first, found⟩ := Option.bind_eq_some_iff.mp found
      obtain ⟨others, later, same⟩ := Option.bind_eq_some_iff.mp found
      cases same
      rw [List.exists_mem_cons_iff, List.exists_mem_cons_iff, induction later, PartHolds, first]

theorem eval_selections (isRegex : search.IsRegex) (linear : event.IsLinear) {name : String}
    {value : Yaml} {named : Named} (accepted : selections name value = .ok named)
    {holds : String → Bool} (agrees : Agrees (event.truth search) named.1 holds) :
    named.2.eval holds = true ↔ EntryHolds search event value := by
  have fromKeywords {values : List Yaml} (made : keywords name values = .ok named) :
      named.2.eval holds = true ↔ ∃ part ∈ values, PartHolds search event part := by
    obtain ⟨test, rfl, meant⟩ := holds_keywords isRegex linear made
    rw [eval_single agrees, List.forall_mem_singleton, meant]
  have fromMapping {entries : Entries} {tests : List FieldTest}
      (made : mappingTests name entries = .ok tests) (same : named = single name tests) :
      named.2.eval holds = true ↔ MappingHolds search event entries := by
    subst same
    rw [eval_single agrees, holds_mapping_tests isRegex linear made]
  rw [selections.eq_def] at accepted
  rw [EntryHolds]
  split at accepted
  · obtain ⟨tests, made, done⟩ := Success.of_bind accepted
    cases done
    rw [fromMapping made rfl]
    simp [items, PartHolds, Yaml.entries?, Yaml.untagged]
  · obtain ⟨tests, made, done⟩ := Success.of_bind accepted
    cases done
    rw [fromMapping made rfl]
    simp [items, PartHolds, Yaml.entries?, Yaml.untagged]
  · split at accepted
    · rename_i found
      obtain ⟨made, listed, done⟩ := Success.of_bind accepted
      cases done
      rw [items, holds_mappings found, ← holds_alternatives isRegex linear listed,
        Logic.eval_disj, List.any_map, List.any_eq_true]
      exact exists_congr fun selection => and_congr_right fun member => by
        rw [Function.comp_apply, Logic.eval, agrees selection member]
    · exact fromKeywords accepted
  · rename_i noMapping _ noSequence
    have own : items value = [value] := by
      rw [items.eq_def]
      split
      · exact absurd rfl (noSequence _)
      · rfl
    rw [own]
    exact fromKeywords accepted

/-- What entries add to what the detection section has said before them. -/
structure Adds (search : Search) (event : Event) (entries : Entries)
    (detection next : Detection) : Prop where
  condition : next.condition = (condition? entries).or detection.condition
  selections : detection.selections <+: next.selections
  names : ∀ holds, Agrees (event.truth search) next.selections holds →
    meanings next.names holds = meanings detection.names holds ++ entryMeanings search event entries

namespace Adds

theorem refl (detection : Detection) : Adds search event [] detection detection :=
  ⟨rfl, List.prefix_rfl, fun _ _ => (List.append_nil _).symm⟩

theorem trans {front back : Entries} {first second third : Detection}
    (before : Adds search event front first second) (behind : Adds search event back second third) :
    Adds search event (front ++ back) first third := by
  refine ⟨?_, before.selections.trans behind.selections, fun holds agrees => ?_⟩
  · rw [behind.condition, before.condition, condition?, condition?, condition?,
      List.filterMap_append, List.getLast?_append, Option.or_assoc]
  · have known : Agrees (event.truth search) second.selections holds :=
      fun selection member => agrees selection (behind.selections.subset member)
    rw [behind.names holds agrees, before.names holds known, entryMeanings, entryMeanings,
      entryMeanings, List.filterMap_append, List.append_assoc]

end Adds

theorem adds_entry (isRegex : search.IsRegex) (linear : event.IsLinear) {detection next : Detection}
    {entry : Yaml × Yaml} (accepted : addEntry detection entry = .ok next) :
    Adds search event [entry] detection next := by
  obtain ⟨key, value⟩ := entry
  obtain ⟨name, found, accepted⟩ := Success.of_bind accepted
  have found := of_or_fault found
  split at accepted
  · obtain ⟨text, written, accepted⟩ := Success.of_bind accepted
    cases accepted
    have written := of_or_fault written
    exact ⟨by simp [condition?, conditionText?, found, written], List.prefix_rfl,
      by simp [entryMeanings, meaning?, found]⟩
  · obtain ⟨text, written, accepted⟩ := Success.of_bind accepted
    obtain ⟨window, read, accepted⟩ := Success.of_bind accepted
    cases accepted
    exact ⟨by simp [condition?, conditionText?, found], List.prefix_rfl,
      by simp [entryMeanings, meaning?, found]⟩
  · rename_i noCondition noTimeframe
    obtain ⟨named, made, accepted⟩ := Success.of_bind accepted
    cases accepted
    have noText : conditionText? (key, value) = none := by
      rw [conditionText?, found, if_neg (noCondition ∘ Option.some.inj)]
    have meaning : meaning? search event (key, value) =
        some (name, EntryHolds search event value) := by
      rw [meaning?, found]
      split
      · rename_i same
        exact absurd (Option.some.inj same) noCondition
      · rename_i same
        exact absurd (Option.some.inj same) noTimeframe
      · rename_i same
        cases same
      · rename_i same
        rw [Option.some.inj same]
    refine ⟨by simp [condition?, noText], List.prefix_append _ _, fun holds agrees => ?_⟩
    have own : Agrees (event.truth search) named.1 holds :=
      fun selection member => agrees selection (List.mem_append_right _ member)
    simp [meanings, entryMeanings, meaning, eval_selections isRegex linear made own]

theorem adds_entries (isRegex : search.IsRegex) (linear : event.IsLinear) {entries : Entries}
    {detection final : Detection} (accepted : entries.foldlM addEntry detection = .ok final) :
    Adds search event entries detection final := by
  -- By induction on the entries: each adds what it says to what was said before.
  induction entries generalizing detection with
  | nil =>
      cases accepted
      exact .refl _
  | cons entry rest induction =>
      rw [List.foldlM_cons] at accepted
      obtain ⟨next, added, accepted⟩ := Success.of_bind accepted
      exact (adds_entry isRegex linear added).trans (induction accepted)

theorem agrees_of_rule {rule : Rule} (proper : rule.Proper) (truth : Truth) :
    Agrees truth rule.selections fun name => (rule.selection? name).any (·.holds truth) := by
  intro selection member
  dsimp only
  rw [Rule.selection_of_mem proper member, Option.any_some]

/-- The condition of a rule holds for the events for which the condition holds that its document
writes down. The text of the condition spells one formula only. -/
theorem read_follows_document (isRegex : search.IsRegex) {text : String} {rule : Rule}
    (accepted : read text = .ok rule) :
    ∃ document entries condition formula, Yaml.read? text = some document ∧
      detection? document = some entries ∧ condition? entries = some condition ∧
      (∀ other, Writes condition other ↔ other = formula) ∧
      ∀ event : Event, event.IsLinear → (rule.holds (event.truth search) = true ↔
        formula.Holds (entryMeanings search event entries)) := by
  obtain ⟨sound, document, found, built⟩ := of_read_document accepted
  obtain ⟨_, root, value, entries, detection, condition, isRoot, isValue, areEntries, added,
    isCondition, selected, parsed⟩ := of_to_rule built
  obtain ⟨formula, writes, follows⟩ := of_read_condition parsed
  have adds (event : Event) (linear : event.IsLinear) : Adds search event entries {} detection :=
    adds_entries isRegex linear added
  have written : condition? entries = some condition := by
    have silent : Event.IsLinear fun _ => [] := fun _ _ => nofun
    rw [← isCondition, (adds _ silent).condition, Option.or_none]
  refine ⟨document, entries, condition, formula, found, ?_, written, fun other => ?_,
    fun event linear => ?_⟩
  · simp [detection?, isRoot, isValue, areEntries]
  · exact ⟨fun also => also.unique writes, fun same => same ▸ writes⟩
  · have agrees := agrees_of_rule (Rule.well_formed_iff rule |>.mp sound) (event.truth search)
    rw [selected] at agrees
    rw [Rule.holds, follows, (adds event linear).names _ agrees]
    rfl

def suspiciousTools : String :=
  "title: Tools\nlogsource:\ndetection:\n  tool:\n    Line|all: [e*, h]\n" ++
  "  _ok: [u]\n  condition: 1 of t* and not _ok\n"

theorem suspicious_tools_followed : Search.simple.IsRegex ∧ ∃ rule,
    read suspiciousTools = .ok rule ∧ ∃ document entries condition formula,
      Yaml.read? suspiciousTools = some document ∧ detection? document = some entries ∧
      condition? entries = some condition ∧ (∀ other, Writes condition other ↔ other = formula) ∧
      ∀ event : Event, event.IsLinear → (rule.holds (event.truth Search.simple) = true ↔
        formula.Holds (entryMeanings Search.simple event entries)) := by
  have isRegex := Search.simple_is_regex
  obtain ⟨rule, accepted⟩ : ∃ rule, read suspiciousTools = .ok rule :=
    Success.of_is_ok (by decide +kernel)
  exact ⟨isRegex, rule, accepted, read_follows_document isRegex accepted⟩

end Sigma

end DetectionRules
