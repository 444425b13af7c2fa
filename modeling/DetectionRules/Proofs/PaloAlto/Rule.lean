import DetectionRules.Proofs.Json.Fitting
import DetectionRules.Proofs.PaloAlto.Condition
import DetectionRules.Proofs.Text

/-!
Rules that are written are read back. The name after the word `rule` is passed
over, the document fits the shape as it was written, and its condition stands
for the condition of the rule with each value on its own.
-/

namespace DetectionRules.PaloAlto

open Json (Readable Fits FitsFields)

/-- Rules that can be written and read back. -/
structure Writes (rule : Rule) : Prop where
  proper : rule.Proper
  shallow : rule.condition.depth ≤ 31
  tests : ∀ selection ∈ rule.selections, ∀ test ∈ selection.tests, Writable test
  titled : ∀ title ∈ rule.title, Text.isAllBlank title = false

def titleOf (rule : Rule) : String := rule.title.getD Named.defaultTitle

theorem is_name_part_name_text (title : String) :
    ∀ c ∈ (nameText title).toList, isNamePart c = true := by
  rw [nameText]
  split
  · simp [Named.defaultTitle, isNamePart]
  · intro c member
    rw [String.toList_ofList] at member
    obtain ⟨original, _, rfl⟩ := List.mem_map.mp member
    split
    · assumption
    · rfl

theorem name_text_ne_nil (title : String) : (nameText title).toList ≠ [] := by
  rw [nameText]
  split
  · decide
  · rename_i filled
    simpa using filled

theorem is_blank_of_is_name_part {c : Char} (part : isNamePart c = true) :
    Text.isBlank c = false := by
  rw [isNamePart, Bool.or_eq_true, Bool.or_eq_true] at part
  rcases part with (alphanum | underscore) | hyphen
  · exact Text.is_blank_of_is_alphanum alphanum
  · rw [beq_iff_eq.mp underscore]
    rfl
  · rw [beq_iff_eq.mp hyphen]
    rfl

theorem body_after_name {name rest : List Char} (filled : name ≠ [])
    (named : ∀ c ∈ name, isNamePart c = true) :
    body ('r' :: 'u' :: 'l' :: 'e' :: ' ' :: (name ++ ' ' :: '\x7b' :: rest)) =
      .ok ('\x7b' :: rest) := by
  obtain ⟨first, others, rfl⟩ := List.exists_cons_of_ne_nil filled
  have part := named first List.mem_cons_self
  have name : Text.dropBlanks (' ' :: (first :: others ++ ' ' :: '\x7b' :: rest)) =
      first :: others ++ ' ' :: '\x7b' :: rest := by
    rw [Text.dropBlanks, List.dropWhile_cons_of_pos rfl]
    exact Text.drop_blanks_of_ink (is_blank_of_is_name_part part) _
  have object : Text.dropBlanks ((first :: others ++ ' ' :: '\x7b' :: rest).dropWhile isNamePart) =
      '\x7b' :: rest := by
    rw [List.dropWhile_append_of_pos named, List.dropWhile_cons_of_neg (by decide),
      Text.dropBlanks, List.dropWhile_cons_of_pos rfl, List.dropWhile_cons_of_neg (by decide)]
  rw [body, Text.drop_blanks_of_ink rfl]
  have blank : Text.isBlank ' ' = true := rfl
  have front : (first :: others ++ ' ' :: '\x7b' :: rest).head?.any isNamePart = true := part
  simp only [List.head?_cons, Option.any_some, blank, name, front, object]
  rfl

theorem fits_log_source (source : LogSource) : Fits LogSource.shape source.toJson := by
  have text : ∀ value : Option String, ∀ content ∈ value, Fits (.optional .text) (.str content) :=
    fun _ content _ => Json.fits_optional_text content
  rw [LogSource.shape, LogSource.toJson, Json.ofMembers]
  exact Json.fits_record (.option (text _) (.option (text _) (.option (text _) .nil))) (by decide)

theorem readable_grouped {expression : Logic FieldTest} {levels : Nat}
    (shallow : expression.depth ≤ levels) :
    Readable (2 * levels + 3) (grouped (ofLogic expression)).toJson := by
  have inner := readable_condition shallow
  unfold grouped
  split
  · rename_i items same
    exact (same ▸ inner).mono (by omega)
  · rw [Condition.toJson]
    exact readable_member (@readable_items _ _ id _ (List.forall_mem_singleton.mpr inner))

theorem readable_log_source (source : LogSource) : Readable 1 source.toJson := by
  have text (name : String) (value : Option String) :
      ∀ member ∈ value.map fun content => (name, Json.str content), Readable 0 member.2 :=
    Option.forall_mem_map.mpr fun content _ => .str content
  refine .of_members ?_
  simp only [List.forall_mem_cons]
  exact ⟨text _ _, text _ _, text _ _, List.forall_mem_nil _⟩

theorem readable_document {rule : Rule} (shallow : rule.condition.depth ≤ 31) :
    Readable Json.Draft.maxDepth (toJson rule rule.expression (titleOf rule)) := by
  have tree := readable_grouped ((Rule.depth_expression_le rule).trans
    (Nat.add_le_add_right shallow 1))
  have there {name : String} {value : Json} (readable : Readable 67 value) :
      ∀ member ∈ some (name, value), Readable 67 member.2 := by
    rintro _ ⟨⟩
    exact readable
  have description : ∀ member ∈ rule.description.map fun text => ("description", Json.str text),
      Readable 67 member.2 :=
    Option.forall_mem_map.mpr fun text _ => .str text
  have source : ∀ member ∈ if rule.logSource.isEmpty then none
      else some ("logsource", rule.logSource.toJson), Readable 67 member.2 := by
    split
    · rintro _ ⟨⟩
    · exact there ((readable_log_source rule.logSource).mono (by decide))
  have actions : Readable 67 (Json.ofStrings ["alert"]) :=
    .array (List.forall_mem_singleton.mpr (.str "alert"))
  have whole : Readable (67 + 1) (toJson rule rule.expression (titleOf rule)) := by
    refine .of_members ?_
    simp only [List.forall_mem_cons]
    exact ⟨there (.str _), description, there (.str _), source, there tree, there actions,
      List.forall_mem_nil _⟩
  exact whole.mono (by decide)

theorem fits_document {rule : Rule} (shallow : rule.condition.depth ≤ 31) :
    Fits shape (toJson rule rule.expression (titleOf rule)) := by
  have readable := readable_grouped ((Rule.depth_expression_le rule).trans
    (Nat.add_le_add_right shallow 1))
  have tree := Condition.of_json_to_json (grouped (ofLogic rule.expression))
  have conditions := @Json.fits_passing (fun json => (Condition.ofJson? json).isSome) _ _ readable
    (by rw [tree]; rfl)
  have actions : Fits (.list .text) (Json.ofStrings ["alert"]) :=
    Json.fits_list (List.forall_mem_singleton.mpr (Json.fits_text "alert"))
  have description : ∀ text ∈ rule.description, Fits (.optional .text) (.str text) :=
    fun text _ => Json.fits_optional_text text
  have severity : "medium" ∈ ["critical", "high", "medium", "low", "informational"] := by simp
  rw [shape, toJson, Json.ofMembers]
  refine Json.fits_record (.present (Json.fits_text _) (.option description
    (.present (Json.fits_choice severity) ?_))) (by decide)
  cases rule.logSource.isEmpty with
  | true => exact .absent (.present conditions (.present actions .nil))
  | false => 
      exact .present (fits_log_source _) (.present conditions (.present actions .nil))

theorem log_source_of_to_json (source : LogSource) : LogSource.ofJson source.toJson = source := by
  obtain ⟨product, category, service⟩ := source
  cases product <;> cases category <;> cases service <;> 
    simp [LogSource.ofJson, LogSource.toJson, Json.ofMembers, Json.member?, Json.str?]

def readTree (rule : Rule) : Logic FieldTest := rule.expression.bind spread

theorem to_logic_grouped {expression : Logic FieldTest} (normal : (expression.bind spread).Normal)
    (filled : expression.hasEmptyGroup = false) (writable : ∀ test ∈ expression.terms, Writable test)
    {levels : Nat} (shallow : expression.depth < levels) :
    toLogic (levels + 1) (grouped (ofLogic expression)) = .ok (expression.bind spread) := by
  have whole := is_read expression filled writable
  unfold grouped
  split
  · rename_i items same
    exact same ▸ whole (levels + 1) (Nat.lt_succ_of_lt shallow)
  · have alone := to_group "all" Logic.conj (List.cons_ne_nil expression [])
      (List.forall_mem_singleton.mpr (whole levels shallow))
    rw [List.map_singleton, List.map_singleton, Logic.conj_single normal] at alone
    rw [toLogic]
    exact alone

section

variable {rule : Rule} (writes : Writes rule)

include writes

theorem writable_of_mem {test : FieldTest} (member : test ∈ rule.expression.terms) :
    Writable test := by
  obtain ⟨selection, inside, _, place⟩ := Rule.mem_terms_expression member
  exact writes.tests selection inside test place

theorem normal_read_tree : (readTree rule).Normal :=
  .bind (Rule.normal_expression writes.proper).filled fun _ member =>
    normal_spread (writable_of_mem writes member).proper.filled

theorem proper_of_read_tree {test : FieldTest} (member : test ∈ (readTree rule).terms) :
    test.Proper := by
  rw [readTree, Logic.terms_bind] at member
  obtain ⟨original, inside, place⟩ := List.mem_flatMap.mp member
  exact proper_spread (writable_of_mem writes inside).proper test place

theorem to_logic_document :
    toLogic (maxDepth + 1) (grouped (ofLogic rule.expression)) = .ok (readTree rule) := by
  have depth := Rule.depth_expression_le rule
  have shallow := writes.shallow
  have levels : maxDepth = 64 := rfl
  exact to_logic_grouped (normal_read_tree writes) (Rule.normal_expression writes.proper).filled
    (fun _ => writable_of_mem writes) (by omega)

end

def readBack (rule : Rule) : Rule where
  dialect := .paloalto
  title := some (titleOf rule)
  description := rule.description
  logSource := rule.logSource
  selections := (Expression.toSelections (readTree rule)).1
  condition := (Expression.toSelections (readTree rule)).2
  aggregation := none

theorem document_members (rule : Rule) :
    let document := toJson rule rule.expression (titleOf rule)
    document.member? "name" = some (.str (titleOf rule)) ∧
      document.member? "description" = rule.description.map .str ∧
      document.member? "logsource" =
        (if rule.logSource.isEmpty then none else some rule.logSource.toJson) ∧
      document.member? "conditions" = some (grouped (ofLogic rule.expression)).toJson ∧
      document.member? "actions" = some (Json.ofStrings ["alert"]) := by
  intro document
  cases described : rule.description <;> cases placed : rule.logSource.isEmpty <;>
    simp [document, toJson, Json.ofMembers, Json.member?, described, placed]

theorem title_not_blank {rule : Rule}
    (titled : ∀ title ∈ rule.title, Text.isAllBlank title = false) :
    Text.isAllBlank (titleOf rule) = false := by
  rw [titleOf]
  cases title : rule.title with
  | none => simp [Named.defaultTitle, Text.isAllBlank, Text.isBlank]
  | some text => exact titled text title

theorem log_source_of_document (source : LogSource) :
    ((if source.isEmpty then none else some source.toJson).map LogSource.ofJson).getD {} =
      source := by
  split
  · rename_i empty
    obtain ⟨product, category, service⟩ := source
    simp_all [LogSource.isEmpty]
  · exact log_source_of_to_json source

theorem to_rule_document {rule : Rule} (writes : Writes rule) :
    toRule (toJson rule rule.expression (titleOf rule)) = .ok (readBack rule) := by
  obtain ⟨name, description, source, conditions, actions⟩ := document_members rule
  have described : (rule.description.map Json.str).bind (·.str?) = rule.description := by
    cases rule.description <;> rfl
  have titled : ((some (Json.str (titleOf rule))).bind (·.str?)).getD "" = titleOf rule := rfl
  have alert : (((some (Json.ofStrings ["alert"])).bind (·.array?)).getD []).isEmpty = false := rfl
  have tree : ((some (grouped (ofLogic rule.expression)).toJson).bind Condition.ofJson?).getD
      (.all []) = grouped (ofLogic rule.expression) := by
    rw [Option.bind_some, Condition.of_json_to_json, Option.getD_some]
  rw [toRule, name, description, source, conditions, actions, log_source_of_document, described]
  simp only [titled, alert, tree, title_not_blank writes.titled, to_logic_document writes, bind,
    Except.bind, Bool.false_eq_true, if_false]
  rfl

theorem read_back_holds {rule : Rule} (writes : Writes rule) (truth : Valuation) :
    (readBack rule).holdsFor truth = rule.holdsFor truth := by
  rw [Expression.holds_for_of_selections rfl rfl, readTree, Logic.eval_bind,
    ← Rule.eval_expression_for writes.proper]
  exact Logic.eval_congr _ fun test _ => eval_spread test truth

theorem read_back_well_formed {rule : Rule} (writes : Writes rule) : (readBack rule).WellFormed := by
  apply Expression.well_formed_of_selections rfl rfl (normal_read_tree writes)
  · exact fun test => proper_of_read_tree writes
  · rintro _ ⟨⟩

theorem written_eq {rule : Rule} {text : String} (proper : rule.Proper)
    (written : write rule = .ok text) :
    text = "rule " ++ nameText (titleOf rule) ++ " " ++
      ((toJson rule rule.expression (titleOf rule)).pretty ++ "\n") := by
  rw [write] at written
  obtain ⟨ready, _, written⟩ := Success.of_bind written
  rw [Dialect.expression_eq .paloalto proper] at written
  rw [← String.append_assoc]
  exact (Except.ok.inj written).symm

theorem body_of_written {rule : Rule} {text : String} (proper : rule.Proper)
    (written : write rule = .ok text) :
    body text.toList =
      .ok ((toJson rule rule.expression (titleOf rule)).pretty ++ "\n").toList := by
  obtain ⟨rest, first⟩ : ∃ rest,
      ((toJson rule rule.expression (titleOf rule)).pretty ++ "\n").toList = '\x7b' :: rest := by
    obtain ⟨rest, first⟩ := Json.pretty_object 0 _
    rw [Json.pretty, toJson, Json.ofMembers, String.toList_append, first]
    exact ⟨rest ++ _, rfl⟩
  have split : text.toList = 'r' :: 'u' :: 'l' :: 'e' :: ' ' ::
      ((nameText (titleOf rule)).toList ++ ' ' :: '\x7b' :: rest) := by
    rw [written_eq proper written, String.toList_append, first]
    simp
  rw [split, first]
  exact body_after_name (name_text_ne_nil _) (is_name_part_name_text _)

/-- A rule that has been written is read, and what is read holds for the same events with numbers
and texts told apart, and has the same description, source and title. A condition that is a single
name has depth one, so at depth 31 the connectives nest 30 deep. -/
theorem written_rule_read_back {rule : Rule} {text : String} (written : write rule = .ok text)
    (titled : ∀ title ∈ rule.title, Text.isAllBlank title = false)
    (patterns : ∀ selection ∈ rule.selections, ∀ test ∈ selection.tests, test.op = .regex →
      ∀ value ∈ test.values, Regex.isValid value.text = true)
    (shallow : rule.condition.depth ≤ 31) (short : text.utf8ByteSize ≤ maxBytes) :
    ∃ again, read text = .ok again ∧
      (∀ truth : Valuation, again.holdsFor truth = rule.holdsFor truth) ∧
      again.description = rule.description ∧ again.logSource = rule.logSource ∧
      again.title = some (rule.title.getD "translated_detection") := by
  have sound : rule.WellFormed := by
    rw [write] at written
    exact Dialect.well_formed_of_writable (Success.of_bind written).choose_spec.1
  have proper := (Rule.well_formed_iff rule).mp sound
  have writes : Writes rule := ⟨proper, shallow, fun selection inside test member =>
    ⟨(proper.selections selection inside).tests test member, patterns selection inside test member⟩,
    titled⟩
  have content : Dialect.ensureContent text = .ok () := by
    rw [Dialect.ensureContent, if_neg]
    rw [written_eq proper written]
    simp [Text.isAllBlank, Text.isBlank]
  have fitted := Json.fit_text_pretty (readable_document shallow) (fits_document shallow)
  have checked : Dialect.checked (readBack rule) = .ok (readBack rule) := by
    have none : (readBack rule).check = none := read_back_well_formed writes
    rw [Dialect.checked, none]
  refine ⟨readBack rule, ?_, read_back_holds writes, rfl, rfl, rfl⟩
  rw [read, content, if_neg (Nat.not_lt.mpr short), body_of_written proper written]
  simp only [Dialect.located, Except.mapError, bind, Except.bind, String.ofList_toList, fitted,
    to_rule_document writes, checked]

def failedLogins : Rule where
  dialect := .sigma
  title := none
  description := some "Failed \"logins\"\tfrom\u0007 abroad"
  logSource := { product := some "panos" }
  selections := [
    ⟨"start", [⟨"user", .startsWith, [.str "adm\\in", .int 5, .str "5"]⟩,
      ⟨"tries", .gte, [.int (-3)]⟩]⟩,
    ⟨"known", [⟨"host", .regex, [.str "^(a|b)$"]⟩,
      ⟨"from", .equals, [.str "", .int 7, .str "7"]⟩]⟩]
  condition := .any [.term "start", .not (.term "known")]
  aggregation := none

theorem failed_logins_reread : ∃ text, write failedLogins = .ok text ∧ ∃ again,
    read text = .ok again ∧
    (∀ truth : Valuation, again.holdsFor truth = failedLogins.holdsFor truth) ∧
    again.description = failedLogins.description ∧ again.logSource = failedLogins.logSource ∧
    again.title = some "translated_detection" := by
  have short : (write failedLogins).toOption.any (decide <| ·.utf8ByteSize ≤ maxBytes) = true := by
    decide +kernel
  cases written : write failedLogins with
  | error failure =>
      rw [written] at short
      cases short
  | ok text =>
      rw [written] at short
      exact ⟨text, rfl, written_rule_read_back written (by decide) (by decide +kernel) (by decide)
        (of_decide_eq_true short)⟩

end DetectionRules.PaloAlto
