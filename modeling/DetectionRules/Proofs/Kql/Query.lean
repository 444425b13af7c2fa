import DetectionRules.Proofs.Kql.Test
import DetectionRules.Proofs.Kql.Filter
import DetectionRules.Proofs.Kql.Summary

/-!
The table of a Kusto query. Wherever some table has the source of events, the
table that is chosen for the source is read back as this source.

Kusto queries mean what the rules they are written for mean: the table says
where events come from wherever some table has this source, the filter holds
for the same events, and the count with its threshold is the same.
-/

namespace DetectionRules.Kql

open DetectionRules.Parser (Reads)
open Token (Spells)

def tableLexemes (name : Option String) : List Lexeme :=
  match name with
  | some name => [.word name]
  | none => [.word "union", .word "*"]

/-- The source that is read back from a table. -/
def sourceOf (name : Option String) : LogSource := name.elim {} sourceOfTable

theorem name_of_tables {known : Table} (member : known ∈ tables) :
    isTableName known.name = true ∧ known.name ≠ "union" ∧
      sourceOfTable known.name = known.source := by
  simp only [tables, List.mem_cons, List.not_mem_nil, or_false] at member
  rcases member with rfl | rfl | rfl | rfl | rfl | rfl | rfl | rfl | rfl | rfl | rfl | rfl | rfl
  all_goals exact ⟨by decide, by decide, by simp [sourceOfTable, tables]⟩

theorem service_table_eq_some {source : LogSource} {name : String}
    (found : serviceTable? source = some name) :
    isTableName name = true ∧ source = { service := some name } := by
  obtain ⟨product, category, service⟩ := source
  unfold serviceTable? at found
  split at found
  · rename_i known same
    cases same
    by_cases isName : isTableName known = true
    · rw [if_pos isName] at found
      cases found
      exact ⟨isName, rfl⟩
    · rw [if_neg isName] at found
      cases found
  · cases found

theorem name_of_source {source : LogSource} {name : String}
    (union : source.service ≠ some "union") (found : tableOfSource? source = some name) :
    isTableName name = true ∧ name ≠ "union" := by
  have known (test : Table → Bool) (found : (tables.find? test).map (·.name) = some name) :
      isTableName name = true ∧ name ≠ "union" := by
    obtain ⟨table, inside, rfl⟩ := Option.map_eq_some_iff.mp found
    have sound := name_of_tables (List.mem_of_find?_eq_some inside)
    exact ⟨sound.1, sound.2.1⟩
  rw [tableOfSource?] at found
  split at found
  · cases found
  · rcases Option.or_eq_some_iff.mp found with exact | ⟨_, found⟩
    · exact known _ exact
    · rcases Option.or_eq_some_iff.mp found with service | ⟨_, found⟩
      · obtain ⟨isName, rfl⟩ := service_table_eq_some service
        exact ⟨isName, fun same => union (by rw [same])⟩
      · rcases Option.or_eq_some_iff.mp found with close | ⟨_, product⟩
        · exact known _ close
        · exact known _ product

/-- A source that some table has is read back from the table that is chosen for it. -/
theorem source_of_chosen {source : LogSource} {name : String} (isName : isTableName name = true)
    (same : source = sourceOfTable name) : sourceOf (tableOfSource? source) = source := by
  by_cases empty : source.isEmpty = true
  · have nothing : source = {} := by
      obtain ⟨product, category, service⟩ := source
      simpa [LogSource.isEmpty, and_assoc] using empty
    rw [tableOfSource?, if_pos empty, nothing]
    rfl
  · rw [tableOfSource?, if_neg empty, exactTable?]
    cases found : tables.find? (·.source = source) with
    | some table =>
        have sound := name_of_tables (List.mem_of_find?_eq_some found)
        have equal : table.source = source := by simpa using List.find?_some found
        simp [sourceOf, sound.2.2, equal]
    | none =>
        have unknown : sourceOfTable name = { service := some name } := by
          rw [sourceOfTable]
          cases known : tables.find? (·.name == name) with
          | none => rfl
          | some table =>
              have member := List.mem_of_find?_eq_some known
              have named : table.name = name := by simpa using List.find?_some known
              have sound := name_of_tables member
              rw [named, ← same] at sound
              exact absurd sound.2.2.symm (by simpa using List.find?_eq_none.mp found table member)
        have service : serviceTable? source = some name := by
          rw [same, unknown, serviceTable?, if_pos isName]
        rw [service]
        simp [sourceOf, same]

def tableText (name : Option String) : String := name.getD "union *"

theorem spells_table {name : Option String}
    (isName : ∀ known ∈ name, isTableName known = true) :
    Spells quoting (tableText name) (tableLexemes name) := by
  cases name with
  | some known => exact Token.spells_word (is_word_of_table_name (isName known rfl))
  | none =>
      have union : Spells quoting "union" [.word "union"] :=
        Token.spells_plain (by simp) (by simp [Token.isPlain])
      have star : Spells quoting "*" [.word "*"] :=
        Token.spells_plain (by simp) (by simp [Token.isPlain])
      have split : "union *" = "union" ++ " " ++ "*" := by simp
      rw [tableText, Option.getD_none, split]
      exact Token.connects_blank union star

theorem reads_table {name : Option String}
    (isName : ∀ known ∈ name, isTableName known = true ∧ known ≠ "union") (next : List Lexeme) :
    Reads table (tableLexemes name) (sourceOf name) next := by
  cases name with
  | some known =>
      obtain ⟨isName, other⟩ := isName known rfl
      apply Parser.reads_cons
      intro offset
      apply Parser.reads_nil
      intro rest _
      simp [table, other, isName, sourceOf]
  | none =>
      apply Parser.reads_cons
      intro union
      apply Parser.reads_cons
      intro star
      apply Parser.reads_nil
      intro rest _
      simp [table, sourceOf]

end DetectionRules.Kql

namespace DetectionRules.Kql

open Expression (wordingIn)
open DetectionRules.Parser (Reads reads_bind reads_bind_cons reads_bind_nil reads_bind_last
  reads_pure reads_cons reads_nil)
open Token (Spells joined)

/-- Rules that can be written as queries. -/
structure Writes (rule : Rule) : Prop where
  proper : rule.Proper
  shallow : rule.condition.depth < maxNegations
  tests : ∀ selection ∈ rule.selections, ∀ test ∈ selection.tests, Writable test
  union : rule.logSource.service ≠ some "union"

def stages (rule : Rule) : List (List Lexeme) :=
  (.symbol "|" :: .word "where" :: wordingIn wording .none rule.expression) ::
    rule.aggregation.elim [] fun aggregation =>
      [.symbol "|" :: summarizeLexemes aggregation, .symbol "|" :: thresholdLexemes aggregation]

def queryLexemes (rule : Rule) : List Lexeme :=
  tableLexemes (tableOfSource? rule.logSource) ++ (stages rule).flatten

theorem writable_of_mem {rule : Rule} (writes : Writes rule) {test : FieldTest}
    (member : test ∈ rule.expression.terms) : Writable test := by
  obtain ⟨selection, inside, _, place⟩ := Rule.mem_terms_expression member
  exact writes.tests selection inside test place

theorem render_test_total (test : FieldTest) : ∃ text, renderTest test = .ok text := by
  obtain ⟨field, op, values⟩ := test
  cases op with
  | equals =>
      match values with
      | [] => exact ⟨_, rfl⟩
      | [value] => exact ⟨_, rfl⟩
      | first :: second :: others => exact ⟨_, rfl⟩
  | gt | gte | lt | lte => exact ⟨_, rfl⟩
  | contains | startsWith | endsWith | regex =>
      rw [renderTest]
      unfold wordTestText
      exact Expression.render_alternatives_total _ _ _

theorem spells_not {text : String} {lexemes : List Lexeme} (spells : Spells quoting text lexemes) :
    Spells quoting ("not(" ++ text ++ ")")
      (.word "not" :: .symbol "(" :: lexemes ++ [.symbol ")"]) :=
  Token.spells_plain_call (by simp) (by simp) (by simp [Token.isPlain]) spells

theorem spells_filter {filter : Logic FieldTest} {text : String} (normal : filter.Normal)
    (writable : ∀ test ∈ filter.terms, Writable test)
    (rendered : Expression.render spelling filter = .ok text) :
    Spells quoting text (wordingIn wording .none filter) := by
  have tests : ∀ test ∈ filter.terms, ∀ text, spelling.term test = .ok text →
      Spells quoting text (wording.term test) := by
    intro test member text rendered
    exact spells_test (writable test member).proper rendered
  exact Expression.spells_render normal.filled tests Token.connects_and Token.connects_or
    (fun _ _ => spells_not) rfl rendered

theorem write_spells {rule : Rule} (writes : Writes rule) :
    ∃ text, write rule = .ok text ∧ Spells quoting text (queryLexemes rule) := by
  have proper := writes.proper
  have tests : ∀ test ∈ rule.expression.terms, Writable test := fun test =>
    writable_of_mem writes
  obtain ⟨filter, rendered⟩ : ∃ filter, Expression.render spelling rule.expression = .ok filter :=
    Expression.render_total (fun test _ => render_test_total test) .none
  have ready : Dialect.ensureWritable .kql rule = .ok () :=
    Dialect.ensure_writable ((Rule.well_formed_iff rule).mpr proper) rfl
  have filterSpells := spells_filter (Rule.normal_expression proper) tests rendered
  have names : ∀ known ∈ tableOfSource? rule.logSource, isTableName known = true := fun known found =>
    (name_of_source writes.union found).1
  refine ⟨String.intercalate "\n" ([(tableOfSource? rule.logSource).getD "union *",
    "| where " ++ filter] ++ rule.aggregation.elim [] aggregationLines), ?_, ?_⟩
  · rw [write, ready, Dialect.expression_eq .kql proper]
    simp only [bind, Except.bind, rendered]
    rfl
  · have connects : Token.Connects quoting "\n" [] :=
      Token.connects_blanks (by simp) (by simp [Text.isBlank])
    have lines : List.Forall₂ (fun text lexemes => Spells quoting text lexemes)
        ([(tableOfSource? rule.logSource).getD "union *", "| where " ++ filter] ++
          rule.aggregation.elim [] aggregationLines)
        (tableLexemes (tableOfSource? rule.logSource) :: stages rule) := by
      refine .cons (spells_table names) (.cons (spells_where filterSpells) ?_)
      cases rule.aggregation with
      | none => exact .nil
      | some aggregation =>
          rw [Option.elim_some, Option.elim_some, aggregation_lines]
          exact .cons (spells_summarize aggregation) (.cons (spells_threshold aggregation) .nil)
    have whole := @Token.spells_intercalate _ _ _ _ id _ _ connects lines (by simp)
    simpa [queryLexemes, joined, Token.behind, List.flatMap_id] using whole

def nextStage (query : Query) : Parser (Option Query) := do
  if ← Parser.takeSign "|" then return some (← stage query) else return none

theorem reads_next_stage {start result : Query} {lexemes next : List Lexeme}
    (reads : Reads (stage start) lexemes result next) :
    Reads (nextStage start) (.symbol "|" :: lexemes) (some result) next := by
  apply reads_bind_cons (Parser.reads_take_sign "|" _)
  rw [if_pos rfl]
  exact reads_bind_last reads (reads_pure _ _)

theorem reads_no_stage (query : Query) : Reads (nextStage query) [] none [] := by
  apply reads_bind_nil
  · exact Parser.reads_no_sign (by simp)
  · exact reads_pure _ _

theorem reads_where_stage {filter : Logic FieldTest} {next : List Lexeme} (normal : filter.Normal)
    (shallow : filter.depth ≤ maxNegations) (writable : ∀ test ∈ filter.terms, Writable test)
    (noAnd : next.head? ≠ some (.word "and")) (noOr : next.head? ≠ some (.word "or")) :
    Reads (stage {}) (.word "where" :: wordingIn wording .none filter)
      { conjuncts := [filter.bind FieldTest.listed] } next := by
  apply reads_cons
  intro offset tokens rest same follows
  have read := reads_filter normal shallow writable noAnd noOr tokens rest same follows
  simp only [stage, Parser.bind_apply, Parser.word_at_apply, whereStage, read, Parser.pure_apply]
  rfl

theorem reads_summarize_stage {aggregation : Aggregation} (proper : aggregation.Proper)
    {next : List Lexeme} (ends : EndsSummary next) (start : Query) :
    Reads (stage start) (summarizeLexemes aggregation)
      { start with summary := some (summaryOf aggregation) } next := by
  apply reads_cons
  intro offset tokens rest same follows
  have read := reads_summarize proper ends tokens rest same follows
  simp only [stage, Parser.bind_apply, Parser.word_at_apply, read, Parser.pure_apply]

theorem reads_threshold_stage (aggregation : Aggregation) (start : Query) (next : List Lexeme) :
    Reads (stage { start with summary := some (summaryOf aggregation) })
      (thresholdLexemes aggregation)
      { start with
        summary := some (summaryOf aggregation)
        threshold := some (aggregation.comparison, aggregation.threshold) } next := by
  apply reads_cons
  intro offset tokens rest same follows
  have read := reads_threshold aggregation next tokens rest same follows
  have named : (summaryOf aggregation).result = countName := rfl
  simp only [stage, Parser.bind_apply, Parser.word_at_apply, whereStage, named, read,
    Parser.pure_apply]

def queryOf (rule : Rule) : Query where
  conjuncts := [rule.expression.bind FieldTest.listed]
  summary := rule.aggregation.map summaryOf
  threshold := rule.aggregation.map fun aggregation =>
    (aggregation.comparison, aggregation.threshold)

theorem reads_stages {rule : Rule} (writes : Writes rule) :
    Reads (Parser.iterate nextStage {}) (stages rule).flatten (queryOf rule) [] := by
  have normal := Rule.normal_expression writes.proper
  have shallow : rule.expression.depth ≤ maxNegations :=
    (Rule.depth_expression_le rule).trans writes.shallow
  have tests : ∀ test ∈ rule.expression.terms, Writable test := fun test =>
    writable_of_mem writes
  have filter (next : List Lexeme) (noAnd : next.head? ≠ some (.word "and"))
      (noOr : next.head? ≠ some (.word "or")) := reads_next_stage
    (reads_where_stage normal shallow tests noAnd noOr)
  unfold stages queryOf
  cases found : rule.aggregation with
  | none =>
      simp only [Option.elim_none, List.flatten_cons, List.flatten_nil, List.append_nil,
        Option.map_none]
      exact Parser.reads_iterate_last (by simp) (filter [] (by simp) (by simp)) (reads_no_stage _)
  | some aggregation =>
      have proper := writes.proper.aggregation aggregation found
      have ends : EndsSummary (.symbol "|" :: thresholdLexemes aggregation ++ []) :=
        ⟨by simp, by simp, by simp⟩
      have counted := reads_next_stage (reads_summarize_stage proper ends
        { conjuncts := [rule.expression.bind FieldTest.listed] })
      have compared := reads_next_stage (reads_threshold_stage aggregation
        { conjuncts := [rule.expression.bind FieldTest.listed] } [])
      simp only [Option.elim_some, List.flatten_cons, List.flatten_nil, List.append_nil,
        Option.map_some]
      apply Parser.reads_iterate_next (by simp) (filter _ (by simp) (by simp))
      apply Parser.reads_iterate_next (by simp) counted
      exact Parser.reads_iterate_last (by simp) compared (reads_no_stage _)

def readBack (rule : Rule) : Rule :=
  (queryOf rule).toRule (sourceOf (tableOfSource? rule.logSource))

theorem reads_query {rule : Rule} (writes : Writes rule) :
    Reads query (queryLexemes rule) (readBack rule) [] := by
  have names : ∀ known ∈ tableOfSource? rule.logSource,
      isTableName known = true ∧ known ≠ "union" := fun known found =>
    name_of_source writes.union found
  apply reads_bind (reads_table names _)
  apply reads_bind_last (reads_stages writes)
  apply reads_nil
  intro rest follows
  obtain rfl : rest = [] := by simpa using follows
  rfl

theorem normal_read_tree {rule : Rule} (writes : Writes rule) :
    (rule.expression.bind FieldTest.listed).Normal := by
  apply Logic.Normal.bind (Rule.normal_expression writes.proper).filled
  intro test member
  exact FieldTest.normal_listed (writable_of_mem writes member).proper.filled

theorem read_back_selections {rule : Rule} (writes : Writes rule) :
    ((readBack rule).selections, (readBack rule).condition) =
      Expression.toSelections (rule.expression.bind FieldTest.listed) := by
  have single := Logic.conj_single (normal_read_tree writes)
  simp [readBack, Query.toRule, queryOf, Logic.group?, single]

theorem read_back_aggregation (rule : Rule) : (readBack rule).aggregation = rule.aggregation := by
  cases found : rule.aggregation with
  | none => simp [readBack, Query.toRule, Query.aggregation, queryOf, found]
  | some aggregation =>
      simp [readBack, Query.toRule, Query.aggregation, queryOf, summaryOf, found]

theorem read_back_holds {rule : Rule} (writes : Writes rule) (truth : Truth) :
    (readBack rule).holds truth = rule.holds truth := by
  have same := read_back_selections writes
  rw [Expression.holds_of_selections (congrArg Prod.fst same) (congrArg Prod.snd same),
    Logic.eval_bind, ← Rule.eval_expression writes.proper]
  apply Logic.eval_congr
  intro test _
  exact FieldTest.eval_listed test truth

theorem read_back_well_formed {rule : Rule} (writes : Writes rule) :
    (readBack rule).WellFormed := by
  have same := read_back_selections writes
  apply Expression.well_formed_of_selections (congrArg Prod.fst same) (congrArg Prod.snd same)
    (normal_read_tree writes)
  · intro test member
    rw [Logic.terms_bind] at member
    obtain ⟨original, inside, place⟩ := List.mem_flatMap.mp member
    exact FieldTest.proper_listed (writable_of_mem writes inside).proper test place
  · rw [read_back_aggregation]
    exact writes.proper.aggregation

/-- A rule is written, the query is read, and what is read holds for the same events, counts the
same and comes from the same source if some table has it. A condition that is a single name has
depth one, so at depth 31 the connectives nest 30 deep. -/
theorem query_read_back {rule : Rule} (sound : rule.WellFormed)
    (shallow : rule.condition.depth ≤ 31)
    (patterns : ∀ selection ∈ rule.selections, ∀ test ∈ selection.tests, test.op = .regex →
      ∀ value ∈ test.values, Regex.isValid value.text = true)
    (timeless : ∀ selection ∈ rule.selections, ∀ test ∈ selection.tests,
      test.op.isComparison = true → test.field ≠ "TimeGenerated" ∧ test.field ≠ "Timestamp")
    (union : rule.logSource.service ≠ some "union") :
    ∃ text again, write rule = .ok text ∧ read text = .ok again ∧
      (∀ truth, again.holds truth = rule.holds truth) ∧
      again.aggregation = rule.aggregation ∧
      ((∃ name, isTableName name = true ∧ rule.logSource = sourceOfTable name) →
        again.logSource = rule.logSource) := by
  have proper := (Rule.well_formed_iff rule).mp sound
  have writes : Writes rule := by
    refine ⟨proper, Nat.lt_succ_of_le shallow, fun selection inside test member => ?_, union⟩
    refine ⟨(proper.selections selection inside).tests test member,
      patterns selection inside test member, fun comparison => ?_⟩
    simpa [timeFields] using timeless selection inside test member comparison
  obtain ⟨text, written, spells⟩ := write_spells writes
  have filled : queryLexemes rule ≠ [] := by simp [queryLexemes, stages]
  have parsed := Dialect.read_tokens_of_reads filled spells (reads_query writes)
    (read_back_well_formed writes)
  refine ⟨text, readBack rule, written, ?_, read_back_holds writes, read_back_aggregation rule, ?_⟩
  · rw [read, parsed]
    rfl
  · rintro ⟨name, isName, same⟩
    exact source_of_chosen isName same

def remoteStart : Rule where
  dialect := .sigma
  title := none
  description := none
  logSource := windows (some "process_creation") none
  selections := [
    ⟨"start", [⟨"Folder Path", .endsWith, [.str "it's.exe", .str "a\"b"]⟩, ⟨"Hops", .gt, [.int 3]⟩]⟩,
    ⟨"admin", [⟨"User", .regex, [.str "^adm"]⟩]⟩]
  condition := .all [.term "start", .not (.term "admin")]
  aggregation := some ⟨.distinct "User", ["Folder Path"], .gte, 5, some ⟨300⟩⟩

theorem remote_start_read_back : ∃ text again, write remoteStart = .ok text ∧ read text = .ok again ∧
    (∀ truth, again.holds truth = remoteStart.holds truth) ∧
    again.aggregation = remoteStart.aggregation ∧
    ((∃ name, isTableName name = true ∧ remoteStart.logSource = sourceOfTable name) →
      again.logSource = remoteStart.logSource) :=
  query_read_back (by decide) (by decide) (by decide +kernel) (by decide) (by decide)

end DetectionRules.Kql
