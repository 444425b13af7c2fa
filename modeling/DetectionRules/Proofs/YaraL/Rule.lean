import DetectionRules.Proofs.YaraL.Events
import DetectionRules.Proofs.YaraL.Summary

/-!
A rule that is written as a YARA-L rule is read again: it holds for the same
events, counts the same and says the same about itself.
-/

namespace DetectionRules.YaraL

open Expression (wordingIn)
open DetectionRules.Parser (Reads reads_bind reads_bind_cons reads_bind_nil reads_bind_last
  reads_pure)
open Token (Spells SpellsLine joined behind)

def ruleName (rule : Rule) : String := Named.toIdentifier (rule.title.getD Named.defaultTitle)

def boundOf (aggregation : Option Aggregation) : List (String × String) := aggregation.elim [] bound

def matchPart (aggregation : Option Aggregation) : List Lexeme :=
  aggregation.elim [] fun aggregation => aggregation.window.elim [] fun window =>
    .word "match:" :: matchLexemes aggregation window

def outcomePart (aggregation : Option Aggregation) : List Lexeme :=
  aggregation.elim [] fun aggregation => outcomeLexemes aggregation.counted

def bodyLexemes (rule : Rule) : List Lexeme :=
  .word "events:" :: joined [] Line.lexemes
      (eventLines rule.expression (boundOf rule.aggregation)) ++
    (matchPart rule.aggregation ++ (outcomePart rule.aggregation ++
      .word "condition:" :: (conditionLexemes rule.aggregation ++ [.symbol "\x7d"])))

def ruleLexemes (rule : Rule) : List Lexeme :=
  .word "rule" :: .word (ruleName rule) :: .symbol "\x7b" ::
    (Named.Metadata.sectionLexemes (Named.Metadata.ofRule rule (ruleName rule)) ++ bodyLexemes rule)

theorem spells_section {name : String} {lines : List String} {parts : List (List Lexeme)}
    (word : Spells quoting (name ++ ":") [.word (name ++ ":")])
    (each : List.Forall₂ (Spells quoting) lines parts) :
    SpellsLine quoting (sectionText name lines) (.word (name ++ ":") :: parts.flatten) :=
  Named.spells_section (by simp [Text.isBlank]) (by simp [Text.isBlank]) word each

theorem spells_optional_section {name : String} {lines : List String} {parts : List (List Lexeme)}
    (word : Spells quoting (name ++ ":") [.word (name ++ ":")])
    (each : List.Forall₂ (Spells quoting) lines parts) :
    SpellsLine quoting (optionalSectionText name lines)
      (if lines.isEmpty then [] else .word (name ++ ":") :: parts.flatten) := by
  rw [optionalSectionText]
  by_cases empty : lines.isEmpty = true
  · rw [if_pos empty, if_pos empty]
    exact Token.line_empty
  · rw [if_neg empty, if_neg empty]
    exact spells_section word each

theorem spells_heading {name : String} (known : Named.isIdentifier name = true) :
    SpellsLine quoting ("rule " ++ name ++ " \x7b\n")
      [.word "rule", .word name, .symbol "\x7b"] :=
  Named.spells_head known ' ' (by decide) (by simp)

theorem spells_conjunct {conjunct : Logic FieldTest} {text : String} (normal : conjunct.Normal)
    (single : conjunct.isConjunction = false) (proper : ∀ test ∈ conjunct.terms, test.Proper)
    (written : conjunctLine conjunct = .ok text) :
    Spells quoting text (wordingIn wording .negation conjunct) := by
  obtain ⟨inner, rendered, written⟩ := Success.of_bind written
  cases written
  have tests : ∀ test ∈ conjunct.terms, ∀ text, spelling.term test = .ok text →
      Spells quoting text (wording.term test) := by
    intro test member text rendered
    exact (spells_test (proper test member) rendered).1
  have spells := Expression.spells_render normal.filled tests Token.connects_and Token.connects_or
    (fun _ _ => Token.spells_not) rfl rendered
  have whole := @Expression.spells_enclose _ conjunct.isDisjunction _ _ spells
  have same : Expression.enclosed conjunct.isDisjunction (wordingIn wording .none conjunct) =
      wordingIn wording .negation conjunct := by
    cases conjunct with
    | all items => cases single
    | term test => rfl
    | any items => rfl
    | not item => rfl
  rwa [same] at whole

theorem path_of_rendered {conjunct : Logic FieldTest} {text : String}
    (proper : ∀ test ∈ conjunct.terms, test.Proper) (written : conjunctLine conjunct = .ok text) :
    ∀ test ∈ conjunct.terms, isFieldPath test.field = true := by
  obtain ⟨inner, rendered, _⟩ := Success.of_bind written
  intro test member
  obtain ⟨text, term⟩ := Expression.render_terms rendered test member
  exact (spells_test (proper test member) term).2

theorem path_of_written {rule : Rule} {conjuncts : List String} (proper : rule.Proper)
    (written : rule.expression.conjuncts.mapM conjunctLine = .ok conjuncts) :
    ∀ test ∈ rule.expression.terms, isFieldPath test.field = true := by
  intro test member
  have place := member
  rw [← Logic.terms_conjuncts] at place
  obtain ⟨conjunct, inside, place⟩ := List.mem_flatMap.mp place
  obtain ⟨text, rendered⟩ := Success.of_mem_map_m written inside
  apply path_of_rendered _ rendered test place
  intro other otherPlace
  obtain ⟨selection, known, _, found⟩ :=
    Rule.mem_terms_expression (terms_of_conjunct inside otherPlace)
  exact (proper.selections selection known).tests other found

theorem spells_binding {binding : String × String} (known : isFieldPath binding.2 = true)
    (parts : ∀ c ∈ binding.1.toList, Named.isNamePart c = true) :
    Spells quoting (bindingText binding) (Line.lexemes (.inr binding)) := by
  have whole := Token.connects_equal (spells_path known) (spells_dollar parts)
  have split : " = $" = " = " ++ "$" := by simp
  unfold bindingText
  rw [split]
  simpa only [Line.lexemes, String.append_assoc, List.cons_append, List.nil_append] using whole

def matchTexts (aggregation : Option Aggregation) : List String :=
  aggregation.elim [] fun aggregation => aggregation.window.elim [] fun window =>
    [matchText aggregation window]

def sectionsOf (aggregation : Option Aggregation) : Sections where
  bindings := (boundOf aggregation).map bindingText
  matchLines := matchTexts aggregation
  outcomeLines := aggregation.elim [] fun aggregation => outcomeTexts aggregation.counted
  condition := conditionText aggregation

theorem sections_ok {aggregation : Aggregation} {sections : Sections}
    (written : aggregationSections aggregation = .ok sections) :
    (∃ window, Summarizes aggregation window) ∧ sections = sectionsOf (some aggregation) := by
  obtain ⟨window, summarizes, rfl⟩ := aggregation_sections_ok written
  refine ⟨⟨window, summarizes⟩, ?_⟩
  simp [sectionsOf, boundOf, matchTexts, summarizes.window]

/-- What makes a rule that can be written be read again. -/
structure Writes (rule : Rule) : Prop where
  proper : rule.Proper
  shallow : rule.condition.depth < Expression.maxDepth
  tests : ∀ test ∈ rule.expression.terms, Writable test
  summarizes : ∀ aggregation ∈ rule.aggregation, ∃ window, Summarizes aggregation window

theorem parts_of_bound_of {aggregation : Option Aggregation}
    (summarizes : ∀ given ∈ aggregation, ∃ window, Summarizes given window)
    {binding : String × String} (member : binding ∈ boundOf aggregation) :
    isFieldPath binding.2 = true ∧ ∀ c ∈ binding.1.toList, Named.isNamePart c = true := by
  cases aggregation with
  | none => cases member
  | some aggregation =>
      obtain ⟨window, summarizes⟩ := summarizes aggregation rfl
      have place : binding.2 ∈ (bound aggregation).map (·.2) := List.mem_map_of_mem member
      rw [bound_fields] at place
      exact ⟨summarizes.group_paths _ place, parts_of_bound member⟩

theorem spells_events {rule : Rule} (writes : Writes rule) {conjuncts : List String}
    (written : rule.expression.conjuncts.mapM conjunctLine = .ok conjuncts) :
    SpellsLine quoting
      (sectionText "events" (conjuncts ++ (boundOf rule.aggregation).map bindingText))
      (.word "events:" ::
        joined [] Line.lexemes (eventLines rule.expression (boundOf rule.aggregation))) := by
  have normal := Rule.normal_expression writes.proper
  have tests : List.Forall₂ (fun text conjunct => Spells quoting text (Line.lexemes (.inl conjunct)))
      conjuncts rule.expression.conjuncts := by
    apply Success.of_map_m _ written
    intro conjunct member text rendered
    apply spells_conjunct (normal.conjunct member).1 (normal.conjunct member).2 _ rendered
    exact fun test place => (writes.tests test (terms_of_conjunct member place)).proper
  have placeholders : List.Forall₂ (fun text binding =>
      Spells quoting text (Line.lexemes (.inr binding)))
      ((boundOf rule.aggregation).map bindingText) (boundOf rule.aggregation) := by
    rw [List.forall₂_map_left_iff, List.forall₂_same]
    intro binding member
    have parts := parts_of_bound_of writes.summarizes member
    exact spells_binding parts.1 parts.2
  have lines : List.Forall₂ (Spells quoting)
      (conjuncts ++ (boundOf rule.aggregation).map bindingText)
      ((eventLines rule.expression (boundOf rule.aggregation)).map Line.lexemes) := by
    rw [List.forall₂_map_right_iff, eventLines]
    apply List.rel_append
    · rwa [List.forall₂_map_right_iff]
    · rwa [List.forall₂_map_right_iff]
  rw [Token.joined_nil]
  exact spells_section (Token.spells_plain (by simp) (by simp [Token.isPlain])) lines

theorem spells_matches {aggregation : Option Aggregation}
    (summarizes : ∀ given ∈ aggregation, ∃ window, Summarizes given window) :
    SpellsLine quoting (optionalSectionText "match" (matchTexts aggregation))
      (matchPart aggregation) := by
  cases aggregation with
  | none => exact Token.line_empty
  | some aggregation =>
      obtain ⟨window, summarizes⟩ := summarizes aggregation rfl
      have lines : List.Forall₂ (Spells quoting) [matchText aggregation window]
          [matchLexemes aggregation window] := .cons (spells_match summarizes) .nil
      have whole := @spells_optional_section "match" _ _
        (Token.spells_plain (by simp) (by simp [Token.isPlain])) lines
      simpa [matchTexts, matchPart, summarizes.window] using whole

theorem spells_outcomes {aggregation : Option Aggregation}
    (summarizes : ∀ given ∈ aggregation, ∃ window, Summarizes given window) :
    SpellsLine quoting
      (optionalSectionText "outcome"
        (aggregation.elim [] fun aggregation => outcomeTexts aggregation.counted))
      (outcomePart aggregation) := by
  cases aggregation with
  | none => exact Token.line_empty
  | some aggregation =>
      obtain ⟨window, summarizes⟩ := summarizes aggregation rfl
      rw [Option.elim_some, outcomePart, Option.elim_some]
      cases found : aggregation.counted with
      | events => exact Token.line_empty
      | distinct field =>
          have known := summarizes.paths field (by simp [Aggregation.fields, found])
          have lines : List.Forall₂ (Spells quoting) [outcomeText field]
              [(outcomeLexemes (.distinct field)).tail] := .cons (spells_outcome known) .nil
          have whole := @spells_optional_section "outcome" _ _
            (Token.spells_plain (by simp) (by simp [Token.isPlain])) lines
          simpa [outcomeTexts, outcomeLexemes] using whole

theorem spells_metadata (rule : Rule) (name : String) :
    SpellsLine quoting
      (optionalSectionText "meta" ((Named.Metadata.ofRule rule name).map Named.Metadata.line))
      (Named.Metadata.sectionLexemes (Named.Metadata.ofRule rule name)) := by
  have entries := @Named.Metadata.spells_lines quoting rule name
  have whole := @spells_optional_section "meta" _ _
    (Token.spells_plain (by simp) (by simp [Token.isPlain])) entries
  rw [List.isEmpty_map, ← List.flatMap_def] at whole
  rw [Named.Metadata.sectionLexemes]
  exact whole

def ruleText (rule : Rule) (conjuncts : List String) : String :=
  let sections := sectionsOf rule.aggregation
  "rule " ++ ruleName rule ++ " \x7b\n"
    ++ optionalSectionText "meta"
      ((Named.Metadata.ofRule rule (ruleName rule)).map Named.Metadata.line)
    ++ sectionText "events" (conjuncts ++ sections.bindings)
    ++ optionalSectionText "match" sections.matchLines
    ++ optionalSectionText "outcome" sections.outcomeLines
    ++ sectionText "condition" [sections.condition] ++ "\x7d\n"

theorem write_ok {rule : Rule} {text : String} (written : write rule = .ok text) :
    rule.Proper ∧ (∀ given ∈ rule.aggregation, ∃ window, Summarizes given window) ∧
      ∃ conjuncts, rule.expression.conjuncts.mapM conjunctLine = .ok conjuncts ∧
        text = ruleText rule conjuncts := by
  obtain ⟨_, ready, written⟩ := Success.of_bind written
  have proper := (Rule.well_formed_iff rule).mp (Dialect.well_formed_of_writable ready)
  rw [Dialect.expression_eq .yaral proper] at written
  obtain ⟨expression, same, written⟩ := Success.of_bind written
  cases same
  obtain ⟨conjuncts, conjunctsWritten, written⟩ := Success.of_bind written
  cases found : rule.aggregation with
  | none =>
      rw [found] at written
      cases written
      refine ⟨proper, by simp, conjuncts, conjunctsWritten, ?_⟩
      rw [ruleText, found]
      rfl
  | some aggregation =>
      rw [found] at written
      obtain ⟨sections, sectionsWritten, written⟩ := Success.of_bind written
      obtain ⟨summarizes, rfl⟩ := sections_ok sectionsWritten
      cases written
      refine ⟨proper, by simpa using summarizes, conjuncts, conjunctsWritten, ?_⟩
      rw [ruleText, found]
      rfl

theorem write_spells {rule : Rule} {text : String} (writes : Writes rule)
    (written : write rule = .ok text) : Spells quoting text (ruleLexemes rule) := by
  obtain ⟨_, _, conjuncts, conjunctsWritten, rfl⟩ := write_ok written
  have heading := spells_heading (Named.is_identifier_to_identifier
    (rule.title.getD Named.defaultTitle))
  have condition := @spells_section "condition" [conditionText rule.aggregation] _
    (Token.spells_plain (by simp) (by simp [Token.isPlain]))
    (.cons (spells_condition rule.aggregation) .nil)
  have sections := Token.line_append (Token.line_append (Token.line_append (Token.line_append
    (Token.line_append (Token.line_append heading (spells_metadata rule (ruleName rule)))
      (spells_events writes conjunctsWritten)) (spells_matches writes.summarizes))
    (spells_outcomes writes.summarizes)) condition) Named.spells_end
  have whole := Token.spells_of_line sections
  simpa [ruleText, sectionsOf, ruleLexemes, bodyLexemes, ruleName] using whole

def matchedOf (aggregation : Option Aggregation) : Option (List String × TimeWindow) :=
  aggregation.bind fun aggregation => aggregation.window.map (aggregation.groupBy, ·)

def readBack (rule : Rule) : Rule where
  dialect := .yaral
  title := some (rule.title.getD Named.defaultTitle)
  description := rule.description
  logSource := rule.logSource
  selections := (Expression.toSelections (rule.expression.bind testTree)).1
  condition := (Expression.toSelections (rule.expression.bind testTree)).2
  aggregation := rule.aggregation

theorem reads_matched {rule : Rule} (writes : Writes rule) {next : List Lexeme}
    (other : next.head? ≠ some (.word "match:")) :
    Reads (optionalSection "match:" (matchSection (boundOf rule.aggregation)))
      (matchPart rule.aggregation) (matchedOf rule.aggregation) next := by
  cases found : rule.aggregation with
  | none => exact reads_bind_last (Parser.reads_no_word other) (reads_pure _ _)
  | some aggregation =>
      obtain ⟨window, summarizes⟩ := writes.summarizes aggregation found
      have proper := writes.proper.aggregation aggregation found
      have positive := proper.window window summarizes.window
      have read := reads_match summarizes positive next
      rw [matchPart, matchedOf, Option.elim_some, Option.bind_some, summarizes.window]
      apply reads_bind_cons (Parser.reads_take_word "match:" _)
      exact reads_bind_last read (reads_pure _ _)

theorem events_of_requirement_tree (aggregation : Option Aggregation) :
    ((requirementTree aggregation).map Requirement.event?).flatten =
      some (.term eventVariable) := by
  cases aggregation with
  | none => rfl
  | some aggregation =>
      rw [requirementTree]
      cases aggregation.counted <;> rfl

theorem threshold_of_requirement_tree (aggregation : Option Aggregation) :
    (requirementTree aggregation).terms.findSome? Requirement.threshold? =
      aggregation.map thresholdOf := by
  cases aggregation with
  | none => rfl
  | some aggregation =>
      rw [requirementTree]
      cases aggregation.counted <;> rfl

theorem aggregation_read {aggregation : Option Aggregation}
    (summarizes : ∀ given ∈ aggregation, ∃ window, Summarizes given window) :
    aggregation? (aggregation.map thresholdOf) (matchedOf aggregation) = aggregation := by
  cases aggregation with
  | none => rfl
  | some aggregation =>
      obtain ⟨window, summarizes⟩ := summarizes aggregation rfl
      obtain ⟨counted, groupBy, comparison, threshold, window⟩ := aggregation
      obtain rfl := summarizes.window
      rfl

theorem heading_not_plain {entry : String × String} (known : entry.1 ∈ Named.Metadata.keys)
    (offset : Nat) (rest : List Token) : atSection (⟨.word entry.1, offset⟩ :: rest) = false := by
  simp only [Named.Metadata.keys, List.mem_cons, List.not_mem_nil, or_false] at known
  rcases known with same | same | same | same | same
  all_goals simp [atSection, same]

theorem ends_events {aggregation : Option Aggregation} (next : List Lexeme) :
    EndsEvents (matchPart aggregation ++ (outcomePart aggregation ++ .word "condition:" :: next)) := by
  rcases aggregation with _ | ⟨counted, groupBy, comparison, threshold, window⟩
  · exact ⟨"condition:", by decide, rfl⟩
  · cases window with
    | some window => exact ⟨"match:", by decide, rfl⟩
    | none =>
        cases counted with
        | events => exact ⟨"condition:", by decide, rfl⟩
        | distinct field => exact ⟨"outcome:", by decide, rfl⟩

theorem outcome_not_match (aggregation : Option Aggregation) (next : List Lexeme) :
    (outcomePart aggregation ++ .word "condition:" :: next).head? ≠ some (.word "match:") := by
  rcases aggregation with _ | ⟨counted, groupBy, comparison, threshold, window⟩
  · simp [outcomePart]
  · cases counted <;> simp [outcomePart, outcomeLexemes]

theorem reads_counted {aggregation : Option Aggregation}
    (summarizes : ∀ given ∈ aggregation, ∃ window, Summarizes given window) (next : List Lexeme) :
    Reads (optionalSection "outcome:" (Parser.many outcome)) (outcomePart aggregation)
      (aggregation.bind fun aggregation => outcomesOf aggregation.counted)
      (.word "condition:" :: next) := by
  cases aggregation with
  | none => exact reads_bind_last (Parser.reads_no_word (by simp)) (reads_pure _ _)
  | some aggregation =>
      obtain ⟨window, summarizes⟩ := summarizes aggregation rfl
      apply reads_outcomes
      intro field counted
      exact summarizes.paths field (by simp [Aggregation.fields, counted])

theorem reads_own_metadata (rule : Rule) :
    Reads (Named.metadata atSection)
      (Named.Metadata.sectionLexemes (Named.Metadata.ofRule rule (ruleName rule)))
      (Named.Metadata.ofRule rule (ruleName rule)).reverse (bodyLexemes rule ++ []) := by
  apply Named.Metadata.reads_metadata (by simp [bodyLexemes])
  · exact fun entry member => heading_not_plain (Named.Metadata.keys_of_rule rule _ entry member)
  · intro tokens same
    obtain ⟨offset, rest, rfl, _⟩ := Parser.cons_of_lexemes same
    simp [atSection]

theorem bound_paths {rule : Rule} (writes : Writes rule) {binding : String × String}
    (member : binding ∈ boundOf rule.aggregation) :
    isFieldPath binding.2 = true ∧ '.' ∉ binding.1.toList := by
  obtain ⟨path, parts⟩ := parts_of_bound_of writes.summarizes member
  exact ⟨path, fun dot => absurd (parts '.' dot) (by decide)⟩

/-- The selections of the only event are those of the whole condition. -/
theorem to_selections_only {rule : Rule} (writes : Writes rule) :
    toSelections false ⟨eventVariable, (rule.expression.bind testTree).conjuncts⟩ =
      Expression.toSelections (rule.expression.bind testTree) := by
  have normal := normal_bind_tree (Rule.normal_expression writes.proper) writes.tests
  rw [toSelections, Logic.conj_conjuncts normal]
  rfl

theorem reads_rule {rule : Rule} (writes : Writes rule) :
    Reads YaraL.rule (ruleLexemes rule) (readBack rule) [] := by
  have known : Named.isIdentifier (ruleName rule) = true :=
    Named.is_identifier_to_identifier (rule.title.getD Named.defaultTitle)
  apply reads_bind_cons (Named.reads_heading "rule" _)
  apply Parser.reads_bind_word_at
  intro offset
  simp only [known, Bool.not_true, Bool.false_eq_true, if_false]
  apply reads_bind_cons (Parser.reads_sign "\x7b" _)
  apply reads_bind (reads_own_metadata rule)
  apply reads_bind_cons (Named.reads_heading "events:" _)
  have shallow : rule.expression.depth ≤ Expression.maxDepth :=
    (Rule.depth_expression_le rule).trans writes.shallow
  apply reads_bind (reads_events (Rule.normal_expression writes.proper) shallow writes.tests
    (fun binding => bound_paths writes) (by rw [List.append_nil]; exact ends_events _))
  apply reads_bind (reads_matched writes
    (by rw [List.append_nil]; exact outcome_not_match _ _))
  apply reads_bind (reads_counted writes.summarizes _)
  apply reads_bind_cons (Named.reads_heading "condition:" _)
  apply Parser.reads_bind_get
  intro left whole
  apply reads_bind
  · apply reads_condition
    simpa using whole
  · apply reads_bind_cons (Parser.reads_sign "\x7d" _)
    apply Parser.reads_nil
    intro rest follows
    obtain rfl : rest = [] := by simpa using follows
    have title := Named.Metadata.title_of_rule rule
    simp only [Parser.bind_apply, Parser.at_end_apply, List.isEmpty_nil, Bool.not_true,
      Bool.false_eq_true, if_false, events_of_requirement_tree, threshold_of_requirement_tree,
      aggregation_read writes.summarizes, ruleName, title, Named.Metadata.description_of_rule,
      Named.Metadata.log_source_of_rule, List.length_singleton, Nat.lt_irrefl, decide_false,
      List.map_cons, List.map_nil, List.flatMap_singleton, List.lookup_cons_self, Option.map_some,
      Option.getD_some, Logic.bind, to_selections_only writes, Parser.pure_apply]
    rfl

theorem read_back_holds {rule : Rule} (writes : Writes rule) (truth : Truth) :
    (readBack rule).holds truth = rule.holds truth := by
  have meaning :=
    @Expression.holds_of_selections (readBack rule) (rule.expression.bind testTree) rfl rfl truth
  rw [meaning, Logic.eval_bind, ← Rule.eval_expression writes.proper]
  apply Logic.eval_congr
  intro test _
  exact eval_test_tree test truth

theorem read_back_well_formed {rule : Rule} (writes : Writes rule) :
    (readBack rule).WellFormed := by
  have normal := Rule.normal_expression writes.proper
  apply Expression.well_formed_of_selections rfl rfl (normal_bind_tree normal writes.tests)
  · intro test member
    rw [Logic.terms_bind] at member
    obtain ⟨original, inside, place⟩ := List.mem_flatMap.mp member
    exact proper_test_tree (writes.tests original inside).proper test place
  · exact writes.proper.aggregation

/-- A rule that can be written is read again: it holds for the same events, counts the same and
says the same about itself, with the title that rules without one get. Each field to group by has
a placeholder of its own, which stands for this field. A condition that is a single name has depth
one, so at depth 31 the connectives nest 30 deep. -/
theorem rule_read_back {rule : Rule} {text : String} (written : write rule = .ok text)
    (shallow : rule.condition.depth ≤ 31)
    (patterns : ∀ selection ∈ rule.selections, ∀ test ∈ selection.tests, test.op = .regex →
      ∀ value ∈ test.values, Regex.isValid value.text = true)
    (unquoted : ∀ selection ∈ rule.selections, ∀ test ∈ selection.tests,
      test.op = .contains ∨ test.op = .startsWith ∨ test.op = .endsWith →
      ∀ value ∈ test.values, Text.contains value.text "\\E" = false) :
    ∃ again, read text = .ok again ∧ (∀ truth, again.holds truth = rule.holds truth) ∧
      again.title = some (rule.title.getD "translated_detection") ∧
      again.description = rule.description ∧ again.logSource = rule.logSource ∧
      again.aggregation = rule.aggregation ∧
      ∀ aggregation ∈ rule.aggregation, ∃ lines names,
        bindings [] aggregation.groupBy = .ok (lines, names) ∧
          names.length = aggregation.groupBy.length ∧ names.Nodup ∧
          ∀ binding ∈ names.zip aggregation.groupBy,
            (names.zip aggregation.groupBy).lookup binding.1 = some binding.2 := by
  obtain ⟨proper, summarizes, conjuncts, conjunctsWritten, rfl⟩ := write_ok written
  have normal := Rule.normal_expression proper
  have tests : ∀ test ∈ rule.expression.terms, Writable test := by
    intro test member
    obtain ⟨selection, inside, _, place⟩ := Rule.mem_terms_expression member
    have fine := (proper.selections selection inside).tests test place
    refine ⟨fine, ?_, patterns selection inside test place, unquoted selection inside test place⟩
    exact path_of_written proper conjunctsWritten test member
  have writes : Writes rule := by
    refine ⟨proper, ?_, tests, summarizes⟩
    have limit : Expression.maxDepth = 64 := rfl
    omega
  have filled : ruleLexemes rule ≠ [] := by simp [ruleLexemes]
  have parsed := Dialect.read_tokens_of_reads filled (write_spells writes written)
    (reads_rule writes) (read_back_well_formed writes)
  refine ⟨readBack rule, ?_, read_back_holds writes, rfl, rfl, rfl, rfl, ?_⟩
  · have quoted : ({ slashes := true, backticks := true } : Quoting) = quoting := rfl
    rw [read, quoted, parsed]
    rfl
  · intro aggregation found
    obtain ⟨window, sums⟩ := summarizes aggregation found
    refine ⟨_, _, bindings_of_paths sums.group_paths, ?_, ?_, ?_⟩
    · exact placeholders_length [] aggregation.groupBy
    · exact placeholders_nodup List.nodup_nil
    · exact fun binding member => lookup_bound member

def manyLogons : Rule where
  dialect := .sigma
  title := some "Many logons"
  description := some "From more than one \"place\""
  logSource := ⟨some "windows", none, some "security"⟩
  selections := [
    ⟨"logon", [⟨"metadata.event_type", .equals, [.str "USER_LOGIN", .str "USER_CREATION"]⟩,
      ⟨"security_result.severity", .gte, [.int 3]⟩]⟩,
    ⟨"machine", [⟨"target.user.userid", .endsWith, [.str "$"]⟩,
      ⟨"principal.process.command_line", .regex, [.str "^a\x60b"]⟩]⟩]
  condition := .all [.term "logon", .not (.term "machine")]
  aggregation := some ⟨.distinct "principal.ip", ["principal.hostname", "target.hostname"], .gt, 5,
    some ⟨600⟩⟩

theorem many_logons_read_back : ∃ text again,
    write manyLogons = .ok text ∧ read text = .ok again ∧
      (∀ truth, again.holds truth = manyLogons.holds truth) ∧
      again.title = some (manyLogons.title.getD "translated_detection") ∧
      again.description = manyLogons.description ∧ again.logSource = manyLogons.logSource ∧
      again.aggregation = manyLogons.aggregation ∧
      ∀ aggregation ∈ manyLogons.aggregation, ∃ lines names,
        bindings [] aggregation.groupBy = .ok (lines, names) ∧
          names.length = aggregation.groupBy.length ∧ names.Nodup ∧
          ∀ binding ∈ names.zip aggregation.groupBy,
            (names.zip aggregation.groupBy).lookup binding.1 = some binding.2 := by
  obtain ⟨text, written⟩ := Success.of_is_ok (show (write manyLogons).isOk = true by decide +kernel)
  obtain ⟨again, readBack⟩ :=
    rule_read_back written (by decide) (by decide +kernel) (by decide +kernel)
  exact ⟨text, again, written, readBack⟩

end DetectionRules.YaraL
