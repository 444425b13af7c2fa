import DetectionRules.Dialect.Registry
import DetectionRules.Proofs.Ensuring
import DetectionRules.Proofs.Rule
import DetectionRules.Proofs.Success

/-!
Rules that some reader accepts. They are well formed, they are rules of the
reader's dialect, and they test nothing and come from nowhere that the dialect
has no words for.

The dialect of what parsers give. A path through a parser ends in a rule or in a refusal, and
only the rules at the ends matter.
-/

namespace DetectionRules

open DetectionRules.Parser (Ensures ensures_pure ensures_bind ensures_last ensures_fail_at
  ensures_expected ensures_unsupported ensures_check ensures_unless ensures_ite ensures_iterate)

namespace Dialect

theorem of_checked {rule again : Rule} (success : checked rule = .ok again) :
    rule = again ∧ rule.WellFormed := by
  rw [checked] at success
  cases sound : rule.check with
  | none =>
      rw [sound] at success
      cases success
      exact ⟨rfl, sound⟩
  | some flaw =>
      rw [sound] at success
      cases success

theorem of_located_tokens {quoting : Quoting} {parser : Parser Rule} {format : Format}
    {text : String} {rule : Rule}
    (success : located format text (readTokens quoting parser text) = .ok rule) :
    rule.WellFormed ∧ ∃ tokens rest, Token.list quoting text = .ok tokens ∧
      parser tokens = .ok (rule, rest) := by
  obtain ⟨_, _, success⟩ := Success.of_bind (Success.of_map_error success)
  obtain ⟨tokens, listed, success⟩ := Success.of_bind success
  obtain ⟨⟨parsed, rest⟩, found, success⟩ := Success.of_bind success
  obtain ⟨rfl, sound⟩ := of_checked success
  exact ⟨sound, tokens, rest, listed, found⟩

theorem of_read_tokens {quoting : Quoting} {parser : Parser Rule} {format : Format}
    {text : String} {rule : Rule} {property : Rule → Prop} (ensures : Ensures parser property)
    (success : located format text (readTokens quoting parser text) = .ok rule) :
    rule.WellFormed ∧ property rule := by
  obtain ⟨sound, tokens, rest, _, found⟩ := of_located_tokens success
  exact ⟨sound, ensures tokens rule rest found⟩

theorem of_ensure_regex {complaint pattern : String} {offset : Option Nat} {tokens rest : List Token}
    {done : Unit} (success : ensureRegexOr complaint offset pattern tokens = .ok (done, rest)) :
    Regex.isValid pattern = true ∧ rest = tokens := by
  rw [ensureRegexOr] at success
  split at success
  · rename_i valid
    cases success
    exact ⟨valid, rfl⟩
  · cases success

theorem keeps_ensure_regex {kind : Token → Prop} (complaint : String) (offset : Option Nat)
    (pattern : String) :
    Parser.Keeps kind (ensureRegexOr complaint offset pattern) fun _ =>
      Regex.isValid pattern = true := by
  intro tokens _ _ all success
  obtain ⟨valid, rfl⟩ := of_ensure_regex success
  exact ⟨valid, all⟩

end Dialect

theorem Kql.ensures_query : Ensures Kql.query (·.dialect = .kql) := by
  refine ensures_last fun source => ensures_last fun query => ensures_last fun atEnd => ?_
  exact ensures_check fun _ => ensures_pure rfl

theorem Splunk.ensures_query : Ensures Splunk.query (·.dialect = .splunk) := by
  refine ensures_last fun _ => ensures_last fun _ => ensures_last fun isEmpty => ?_
  apply ensures_ite
  · refine ensures_last fun start => ensures_last fun query => ensures_last fun atEnd => ?_
    exact ensures_check fun _ => ensures_pure rfl
  · refine ensures_last fun filter => ensures_last fun start => ?_
    refine ensures_last fun query => ensures_last fun atEnd => ?_
    exact ensures_check fun _ => ensures_pure rfl

theorem QRadar.ensures_query : Ensures QRadar.query (·.dialect = .qradar) := by
  refine ensures_last fun _ => ensures_last fun _ => ensures_last fun _ => ?_
  refine ensures_last fun (table, offset) => ensures_unless fun _ => ensures_last fun isFiltered => ?_
  refine ensures_ite ?_ ?_
  · refine ensures_last fun filter => ensures_last fun _ => ensures_last fun clauses => ?_
    exact ensures_pure rfl
  · exact ensures_last fun _ => ensures_last fun clauses => ensures_pure rfl

namespace CrowdStrike

theorem add_source_service {known found source : LogSource}
    (added : addSource? known found = some source) : source.service = none := by
  rw [addSource?] at added
  split at added
  · cases added
  · cases added
    rfl

theorem lift_sources_service (tests : List FieldTest) {known : LogSource}
    (none : known.service = none) : (liftSources known tests).1.service = .none := by
  induction tests generalizing known with
  | nil => exact none
  | cons test rest induction =>
      rw [liftSources]
      split
      · rename_i source found
        obtain ⟨_, _, added⟩ := Option.bind_eq_some_iff.mp found
        exact induction (add_source_service added)
      · exact induction none

theorem lift_source_service (expression : Logic FieldTest) :
    (liftSource expression).1.service = none := by
  rw [liftSource]
  split
  · rfl
  · exact lift_sources_service _ rfl

end CrowdStrike

theorem CrowdStrike.ensures_query : Ensures CrowdStrike.query fun rule =>
    rule.dialect = .crowdstrike ∧ rule.logSource.service = none := by
  refine ensures_last fun _ => ensures_last fun query => ensures_last fun atEnd => ?_
  refine ensures_check fun _ => ensures_check fun _ => ensures_pure ?_
  exact ⟨rfl, CrowdStrike.lift_source_service _⟩

theorem YaraL.ensures_rule : Ensures YaraL.rule (·.dialect = .yaral) := by
  refine ensures_last fun _ => ensures_last fun (name, offset) => ensures_check fun _ => ?_
  refine ensures_last fun _ => ensures_last fun metadata => ensures_last fun _ => ?_
  refine ensures_last fun (groups, placeholders) => ensures_last fun matched => ?_
  refine ensures_last fun outcomes => ensures_last fun _ => ensures_last fun tokens => ?_
  refine ensures_last fun requirements => ensures_last fun _ => ensures_last fun atEnd => ?_
  refine ensures_check fun _ => ?_
  split
  · exact ensures_fail_at _ _
  · exact ensures_pure rfl

namespace Yara

/-- Tests for a text or a pattern, and tests for bytes. -/
def IsStringTest (test : FieldTest) : Prop :=
  (test.field = contentField ∧ (test.op = .contains ∨ test.op = .regex)) ∨
    (test.field = bytesField ∧ test.op = .equals)

theorem ensures_string_test : Ensures stringTest IsStringTest := by
  apply ensures_last
  intro tokens
  split
  · exact ensures_last fun _ => ensures_pure (.inl ⟨rfl, .inl rfl⟩)
  · refine ensures_last fun _ => ensures_check fun _ => ensures_last fun _ => ?_
    exact ensures_pure (.inl ⟨rfl, .inr rfl⟩)
  · exact ensures_last fun _ => ensures_last fun bytes => ensures_pure (.inr ⟨rfl, rfl⟩)
  · exact ensures_expected _

theorem ensures_modifier {test : FieldTest} (isString : IsStringTest test) :
    Ensures (modifier test) fun next => ∀ found ∈ next, IsStringTest found := by
  apply ensures_last
  intro tokens
  split
  · split
    · exact ensures_pure nofun
    · split
      · refine ensures_last fun _ => ensures_pure ?_
        rintro _ ⟨⟩
        exact .inl ⟨rfl, .inr rfl⟩
      · split
        · refine ensures_last fun _ => ensures_pure ?_
          rintro _ ⟨⟩
          exact isString
        · exact ensures_ite (ensures_unsupported _) (ensures_fail_at _ _)
  · exact ensures_pure nofun

theorem ensures_string_definition :
    Ensures stringDefinition fun selection => ∀ test ∈ selection.tests, IsStringTest test := by
  apply ensures_last
  rintro ⟨word, offset⟩
  simp only
  split
  · exact ensures_fail_at _ _
  · refine ensures_last fun _ => ensures_bind ensures_string_test fun start isString => ?_
    refine ensures_bind (ensures_iterate (fun _ => ensures_modifier) isString) fun test found => ?_
    exact ensures_pure (by simpa using found)

theorem ensures_next_string {selections : List Selection}
    (known : ∀ selection ∈ selections, ∀ test ∈ selection.tests, IsStringTest test) :
    Ensures (nextString selections) fun next =>
      ∀ found ∈ next, ∀ selection ∈ found, ∀ test ∈ selection.tests, IsStringTest test := by
  refine ensures_last fun atEnd => ensures_ite (ensures_pure (by simp)) ?_
  refine ensures_last fun offset => ensures_bind ensures_string_definition fun selection tests => ?_
  refine ensures_check fun _ => ensures_pure ?_
  rintro _ ⟨⟩ other member
  rcases List.mem_append.mp member with member | member
  · exact known other member
  · obtain rfl := List.mem_singleton.mp member
    exact tests

theorem ensures_rule : Ensures rule fun rule =>
    rule.dialect = .yara ∧ rule.aggregation = none ∧ ∀ test ∈ rule.tests, IsStringTest test := by
  refine ensures_last fun _ => ensures_last fun _ => ensures_last fun _ => ?_
  refine ensures_last fun name => ensures_last fun _ => ensures_last fun metadata => ?_
  refine ensures_last fun _ => ?_
  refine ensures_bind (ensures_iterate (fun _ => ensures_next_string) (by simp)) fun selections known => ?_
  refine ensures_check fun _ => ensures_last fun _ => ensures_last fun condition => ?_
  refine ensures_last fun _ => ensures_last fun atEnd => ensures_check fun _ => ensures_pure ⟨rfl, rfl, ?_⟩
  intro test member
  obtain ⟨selection, inside, place⟩ := List.mem_flatMap.mp member
  exact known selection inside test place

end Yara

theorem Sigma.of_read_document {text : String} {rule : Rule}
    (accepted : Sigma.read text = .ok rule) :
    rule.WellFormed ∧ ∃ document, Yaml.read? text = some document ∧
      Sigma.toRule document = .ok rule := by
  obtain ⟨_, _, accepted⟩ := Success.of_bind accepted
  cases found : Yaml.read? text with
  | none =>
      rw [found] at accepted
      cases accepted
  | some document =>
      rw [found] at accepted
      obtain ⟨built, success, accepted⟩ := Success.of_bind accepted
      obtain ⟨rfl, sound⟩ := Dialect.of_checked (Success.of_map_error accepted)
      exact ⟨sound, document, rfl, success⟩

theorem Sigma.of_or_fault {Result : Type} {reason : String} {found : Option Result}
    {result : Result} (accepted : Sigma.orFault reason found = .ok result) :
    found = some result := by
  cases found with
  | none => cases accepted
  | some other =>
      cases accepted
      rfl

/-- The detection section of a document gives the selections and the condition of its rule. -/
theorem Sigma.of_to_rule {document : Yaml} {rule : Rule}
    (built : Sigma.toRule document = .ok rule) :
    rule.dialect = .sigma ∧ ∃ root value entries detection text,
      document.entries? = some root ∧ Yaml.lookup? "detection" root = some value ∧
      value.entries? = some entries ∧ entries.foldlM Sigma.addEntry {} = .ok detection ∧
      detection.condition = some text ∧ rule.selections = detection.selections ∧
      Sigma.readCondition detection text = .ok (rule.condition, rule.aggregation) := by
  obtain ⟨root, isRoot, built⟩ := Success.of_bind built
  obtain ⟨title, _, built⟩ := Success.of_bind built
  obtain ⟨description, _, built⟩ := Success.of_bind built
  obtain ⟨source, _, built⟩ := Success.of_bind built
  obtain ⟨value, isValue, built⟩ := Success.of_bind built
  obtain ⟨entries, areEntries, built⟩ := Success.of_bind built
  obtain ⟨detection, added, built⟩ := Success.of_bind built
  obtain ⟨text, isText, built⟩ := Success.of_bind built
  obtain ⟨⟨condition, aggregation⟩, read, built⟩ := Success.of_bind built
  cases built
  exact ⟨rfl, root, value, entries, detection, text, of_or_fault isRoot, of_or_fault isValue,
    of_or_fault areEntries, added, of_or_fault isText, rfl, Success.of_map_error read⟩

theorem Sigma.of_read {text : String} {rule : Rule} (accepted : Sigma.read text = .ok rule) :
    rule.WellFormed ∧ rule.dialect = .sigma := by
  obtain ⟨sound, _, _, built⟩ := Sigma.of_read_document accepted
  exact ⟨sound, (Sigma.of_to_rule built).1⟩

theorem PaloAlto.of_to_rule {json : Json} {rule : Rule} (built : toRule json = .ok rule) :
    rule.dialect = .paloalto ∧ rule.aggregation = none := by
  rw [toRule] at built
  simp only at built
  split at built
  · cases built
  · split at built
    · cases built
    · obtain ⟨expression, _, built⟩ := Success.of_bind built
      cases built
      exact ⟨rfl, rfl⟩

theorem PaloAlto.of_read {text : String} {rule : Rule} (accepted : PaloAlto.read text = .ok rule) :
    rule.WellFormed ∧ rule.dialect = .paloalto ∧ rule.aggregation = none := by
  obtain ⟨_, _, accepted⟩ := Success.of_bind accepted
  simp only at accepted
  split at accepted
  · cases accepted
  · obtain ⟨object, _, accepted⟩ := Success.of_bind accepted
    obtain ⟨json, _, accepted⟩ := Success.of_bind accepted
    obtain ⟨built, success, accepted⟩ := Success.of_bind (Success.of_map_error accepted)
    obtain ⟨rfl, sound⟩ := Dialect.of_checked accepted
    exact ⟨sound, of_to_rule (Success.of_map_error success)⟩

/-- What is known of a rule that a reader accepts. -/
structure Format.Accepts (format : Format) (rule : Rule) : Prop where
  sound : rule.WellFormed
  dialect : rule.dialect = format
  service : format = .crowdstrike → rule.logSource.service = none
  strings : format = .yara → ∀ test ∈ rule.tests, Yara.IsStringTest test
  correlation : rule.aggregation ≠ none → format.supportsCorrelation = true

theorem Format.accepts_of_read {format : Format} {text : String} {rule : Rule}
    (accepted : format.read text = .ok rule) : format.Accepts rule := by
  cases format with
  | splunk =>
      obtain ⟨sound, dialect⟩ := Dialect.of_read_tokens Splunk.ensures_query accepted
      exact ⟨sound, dialect, nofun, nofun, fun _ => rfl⟩
  | qradar =>
      obtain ⟨sound, dialect⟩ := Dialect.of_read_tokens QRadar.ensures_query accepted
      exact ⟨sound, dialect, nofun, nofun, fun _ => rfl⟩
  | sigma =>
      obtain ⟨sound, dialect⟩ := Sigma.of_read accepted
      exact ⟨sound, dialect, nofun, nofun, fun _ => rfl⟩
  | kql =>
      obtain ⟨sound, dialect⟩ := Dialect.of_read_tokens Kql.ensures_query accepted
      exact ⟨sound, dialect, nofun, nofun, fun _ => rfl⟩
  | paloalto =>
      obtain ⟨sound, dialect, uncounted⟩ := PaloAlto.of_read accepted
      exact ⟨sound, dialect, nofun, nofun, fun counted => absurd uncounted counted⟩
  | crowdstrike =>
      obtain ⟨sound, dialect, service⟩ := Dialect.of_read_tokens CrowdStrike.ensures_query accepted
      exact ⟨sound, dialect, fun _ => service, nofun, fun _ => rfl⟩
  | yara =>
      obtain ⟨sound, dialect, uncounted, strings⟩ := Dialect.of_read_tokens Yara.ensures_rule accepted
      exact ⟨sound, dialect, nofun, fun _ => strings, fun counted => absurd uncounted counted⟩
  | yaral =>
      obtain ⟨sound, dialect⟩ := Dialect.of_read_tokens YaraL.ensures_rule accepted
      exact ⟨sound, dialect, nofun, nofun, fun _ => rfl⟩

end DetectionRules
