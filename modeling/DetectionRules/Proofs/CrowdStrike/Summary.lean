import DetectionRules.Proofs.CrowdStrike.Test

/-!
Counts in CrowdStrike queries: what is counted, per which fields and time, and
the stage after it that compares the count.
-/

namespace DetectionRules.CrowdStrike

open DetectionRules.Parser (Reads reads_bind reads_bind_cons reads_bind_nil reads_bind_last
  reads_bind_offset reads_bind_get reads_pure reads_cons reads_nil)
open Token (Spells joined)

def countLexemes : Counted → List Lexeme
  | .events => [.word "count", .symbol "(", .symbol ")"]
  | .distinct field => [.word "count", .symbol "(", .word field, .symbol ",", .word "distinct",
      .symbol "=", .word "true", .symbol ")"]

def fieldListLexemes (fields : List String) : List Lexeme :=
  .symbol "[" :: joined [.symbol ","] (fun field => [.word field]) fields ++ [.symbol "]"]

def spanLexemes (window : TimeWindow) : List Lexeme :=
  [.word "span", .symbol "=", .word window.text]

def functionLexemes (counted : Counted) : List Lexeme :=
  .word "function" :: .symbol "=" :: countLexemes counted

def statsLexemes (aggregation : Aggregation) : List Lexeme :=
  match aggregation.window, aggregation.groupBy with
  | none, [] => countLexemes aggregation.counted
  | none, fields => .word "groupBy" :: .symbol "(" :: (fieldListLexemes fields ++ [.symbol ","] ++
      functionLexemes aggregation.counted) ++ [.symbol ")"]
  | some window, [] => .word "bucket" :: .symbol "(" :: (spanLexemes window ++ [.symbol ","] ++
      functionLexemes aggregation.counted) ++ [.symbol ")"]
  | some window, fields => .word "bucket" :: .symbol "(" :: (spanLexemes window ++ [.symbol ","] ++
      (.word "field" :: .symbol "=" :: fieldListLexemes fields) ++ [.symbol ","] ++
      functionLexemes aggregation.counted) ++ [.symbol ")"]

def thresholdLexemes (aggregation : Aggregation) : List Lexeme :=
  [.word countField, .symbol aggregation.comparison.singleSign,
    .word (toString aggregation.threshold)]

def aggregationLexemes (aggregation : Aggregation) : List Lexeme :=
  .symbol "|" :: statsLexemes aggregation ++ .symbol "|" :: thresholdLexemes aggregation

theorem spells_field {field text : String} (written : fieldText field = .ok text) :
    Spells quoting text [.word field] := by
  obtain ⟨rfl, plain⟩ := field_text_ok written
  exact Token.spells_word (is_word_of_plain_field plain)

theorem spells_count {counted : Counted} {text : String} (written : countText counted = .ok text) :
    Spells quoting text (countLexemes counted) ∧ text.toList.head? = some 'c' := by
  have isWord : Token.IsWord quoting "count".toList :=
    Token.is_word_of_plain (by simp) (by simp [Token.isPlain])
  cases counted with
  | events =>
      cases written
      have split : "count()" = "count" ++ "(" ++ "" ++ ")" := by simp
      refine ⟨?_, by simp⟩
      rw [split]
      exact Token.spells_call isWord Token.spells_empty
  | distinct field =>
      rw [countText] at written
      obtain ⟨known, fieldWritten, written⟩ := Success.of_bind written
      cases written
      have value : Spells quoting "true" [.word "true"] :=
        Token.spells_plain (by simp) (by simp [Token.isPlain])
      have distinct := @spells_assigned "distinct" _ _ (by simp [Token.isPlain]) (by simp)
        ⟨'t', by simp, by decide⟩ value
      have whole := Token.spells_call isWord
        (Token.connects_comma (spells_field fieldWritten) distinct)
      have opening : "count(" = "count" ++ "(" := by simp
      have closing : ", distinct=true)" = ", " ++ ("distinct" ++ "=" ++ "true") ++ ")" := by simp
      refine ⟨?_, by simp⟩
      rw [opening, closing]
      simpa only [String.append_assoc, countLexemes, List.cons_append, List.nil_append] using whole

theorem spells_field_list {fields texts : List String} (filled : fields ≠ [])
    (written : fields.mapM fieldText = .ok texts) :
    Spells quoting ("[" ++ String.intercalate ", " texts ++ "]") (fieldListLexemes fields) := by
  have each := Success.of_map_m (fun _ _ _ => spells_field) written
  exact Token.spells_brackets (Token.spells_intercalate Token.connects_comma each filled)

theorem spells_span (window : TimeWindow) :
    Spells quoting ("span" ++ "=" ++ window.text) (spanLexemes window) :=
  spells_assigned (by simp [Token.isPlain]) (by simp) (Token.front_of_window window)
    (Token.spells_window window)

theorem spells_function {counted : Counted} {text : String}
    (written : countText counted = .ok text) :
    Spells quoting ("function" ++ "=" ++ text) (functionLexemes counted) := by
  obtain ⟨spells, front⟩ := spells_count written
  exact spells_assigned (by simp [Token.isPlain]) (by simp) ⟨'c', by simp [front], by decide⟩ spells

theorem spells_stats {aggregation : Aggregation} {text : String}
    (written : statsText aggregation = .ok text) : Spells quoting text (statsLexemes aggregation) := by
  obtain ⟨counted, groupBy, comparison, threshold, window⟩ := aggregation
  rw [statsText] at written
  obtain ⟨count, countWritten, written⟩ := Success.of_bind written
  obtain ⟨texts, fieldsWritten, written⟩ := Success.of_bind written
  have function := spells_function countWritten
  have bucket : Token.IsWord quoting "bucket".toList :=
    Token.is_word_of_plain (by simp) (by simp [Token.isPlain])
  have groupCall : Token.IsWord quoting "groupBy".toList :=
    Token.is_word_of_plain (by simp) (by simp [Token.isPlain])
  have list (filled : groupBy ≠ []) := spells_field_list filled fieldsWritten
  have comma : ", function=" = ", " ++ ("function" ++ "=") := by simp
  have span : "bucket(span=" = "bucket" ++ "(" ++ ("span" ++ "=") := by simp
  cases fields : groupBy with
  | nil =>
      subst fields
      cases fieldsWritten
      cases window with
      | none =>
          cases written
          exact (spells_count countWritten).1
      | some window =>
          cases written
          have whole := Token.spells_call bucket (Token.connects_comma (spells_span window) function)
          rw [span, comma]
          simpa only [String.append_assoc, statsLexemes, List.append_assoc] using whole
  | cons first others =>
      have list := list (by simp [fields])
      subst fields
      have some : texts.isEmpty = false := by
        cases Success.of_map_m (fun _ _ _ => spells_field) fieldsWritten
        rfl
      rw [some] at written
      cases window with
      | none =>
          cases written
          have whole := Token.spells_call groupCall (Token.connects_comma list function)
          have opening : "groupBy(" = "groupBy" ++ "(" := by simp
          rw [opening, comma]
          simpa only [String.append_assoc, statsLexemes, List.append_assoc] using whole
      | some window =>
          cases written
          have field := @spells_assigned "field" _ _ (by simp [Token.isPlain]) (by simp)
            ⟨'[', by simp, by decide⟩ list
          have whole := Token.spells_call bucket (Token.connects_comma
            (Token.connects_comma (spells_span window) field) function)
          have named : ", field=" = ", " ++ ("field" ++ "=") := by simp
          rw [span, comma, named]
          simpa only [String.append_assoc, statsLexemes, List.append_assoc] using whole

theorem spells_aggregation {aggregation : Aggregation} {front text : String}
    {lexemes : List Lexeme} (spells : Spells quoting front lexemes)
    (written : aggregationText aggregation = .ok text) :
    Spells quoting (front ++ text) (lexemes ++ aggregationLexemes aggregation) := by
  rw [aggregationText] at written
  obtain ⟨stats, statsWritten, written⟩ := Success.of_bind written
  cases written
  have count : Spells quoting countField [.word countField] :=
    Token.spells_plain (by simp [countField]) (by simp [countField, Token.isPlain])
  have compared := Token.connects_single_threshold aggregation.comparison count
    (Token.spells_uint64 aggregation.threshold)
  have counted := Token.connects_pipe spells (spells_stats statsWritten)
  have whole := Token.connects_pipe counted compared
  simpa only [aggregationLexemes, thresholdLexemes, String.append_assoc, List.append_assoc,
    List.cons_append, List.nil_append] using whole

def statsOf (aggregation : Aggregation) : Stats where
  counted := aggregation.counted
  groupBy := aggregation.groupBy
  window := aggregation.window

theorem reads_no_parameter {next : List Lexeme} (other : next[1]? ≠ some (.symbol "=")) :
    Reads parameter? [] none next := by
  apply reads_nil
  intro rest follows
  have noSign : Parser.secondIsSign "=" rest = false := by
    apply Parser.next_is_sign_of_head
    rw [List.map_drop, follows]
    simpa using other
  simp [parameter?, noSign]

theorem reads_another {Arguments : Type} {argument : Arguments → Parser Arguments}
    {found result : Arguments} {lexemes next : List Lexeme}
    (reads : Reads (argument found) lexemes result next) :
    Reads (do if ← comma then return some (← argument found) else return none)
      (.symbol "," :: lexemes) (some result) next := by
  apply reads_bind_cons (Parser.reads_take_sign "," _)
  rw [if_pos rfl]
  exact reads_bind_last reads (reads_pure _ _)

theorem reads_no_other {Arguments : Type} {argument : Arguments → Parser Arguments}
    {found : Arguments} {next : List Lexeme} (ends : next.head? ≠ some (.symbol ",")) :
    Reads (do if ← comma then return some (← argument found) else return none) [] none next :=
  reads_bind_nil (Parser.reads_no_sign ends) (reads_pure _ _)

theorem reads_listed_name (field : String) (next : List Lexeme) :
    Reads fieldName [.word field] field next := by
  apply reads_cons
  intro offset
  apply reads_nil
  intro rest _
  simp [fieldName]

theorem reads_field_list {fields : List String} (filled : fields ≠ []) (next : List Lexeme) :
    Reads fieldList (fieldListLexemes fields) fields next := by
  have items : Reads (Parser.sepBy comma fieldName)
      (joined [.symbol ","] (fun field => [.word field]) fields) (fields.map id)
      (.symbol "]" :: next) :=
    Parser.reads_commas (fun _ => True) filled
      (fun field _ following _ => reads_listed_name field following) (fun _ => trivial) trivial
      (by simp)
  rw [List.map_id] at items
  apply reads_bind_cons (Parser.reads_take_sign "[" _)
  rw [if_pos rfl]
  apply reads_bind items
  exact reads_bind_last (Parser.reads_sign "]" _) (reads_pure _ _)

theorem next_call_of_lexemes {name : String} {tokens : List Token} {lexemes : List Lexeme}
    (same : tokens.map (·.lexeme) = .word name :: .symbol "(" :: lexemes) :
    Parser.nextCall? tokens = some (Text.lower name) := by
  obtain ⟨offset, _, rfl, after⟩ := Parser.cons_of_lexemes same
  obtain ⟨opening, _, rfl, _⟩ := Parser.cons_of_lexemes after
  simp [Parser.nextCall?]

theorem reads_count_call {lexemes next : List Lexeme} {field : Option String} {distinct more : Bool}
    {counted : Counted}
    (arguments : Reads (Parser.iterate countStep ((none, false), true)) lexemes
      ((field, distinct), more) (.symbol ")" :: next))
    (gives : (distinct = false ∧ counted = .events) ∨
      ∃ name, field = some name ∧ distinct = true ∧ counted = .distinct name) :
    Reads countCall (.word "count" :: .symbol "(" :: lexemes ++ [.symbol ")"]) counted next := by
  apply reads_bind_offset
  intro offset
  apply reads_bind_get
  intro left same
  have called : Parser.nextCall? left = some "count" := next_call_of_lexemes same
  rw [if_neg (by simp [called])]
  apply reads_bind_cons (Parser.reads_skip _ _)
  apply reads_bind_cons (Parser.reads_sign "(" _)
  apply reads_bind arguments
  apply reads_bind_last (Parser.reads_sign ")" _)
  rcases gives with ⟨rfl, rfl⟩ | ⟨name, rfl, rfl, rfl⟩
  · cases field <;> exact reads_pure _ _
  · exact reads_pure _ _

theorem count_step_ends {state : Option String × Bool} {next : List Lexeme} :
    Reads (countStep (state, true)) [] none (.symbol ")" :: next) := by
  apply reads_nil
  intro rest follows
  obtain ⟨offset, others, rfl, _⟩ := Parser.cons_of_lexemes follows
  simp [countStep]

theorem count_step_last {state : Option String × Bool} {next : List Lexeme} :
    Reads (countStep (state, false)) [] none next := by
  apply reads_nil
  intro rest _
  simp [countStep]

theorem reads_counted_field (field : String) (next : List Lexeme) :
    Reads (countStep ((none, false), true)) [.word field, .symbol ","]
      (some ((some field, false), true)) next := by
  apply reads_cons
  intro offset
  apply reads_cons
  intro commaOffset
  apply reads_nil
  intro rest _
  simp [countStep, countArgument, parameter?, Parser.secondIsSign, fieldList, fieldName, comma,
    Parser.takeSign]

theorem reads_distinct (field : Option String) (next : List Lexeme) :
    Reads (countStep ((field, false), true)) [.word "distinct", .symbol "=", .word "true"]
      (some ((field, true), false)) (.symbol ")" :: next) := by
  apply reads_cons
  intro offset
  apply reads_cons
  intro signOffset
  apply reads_cons
  intro valueOffset
  apply reads_nil
  intro rest follows
  obtain ⟨closing, others, rfl, _⟩ := Parser.cons_of_lexemes follows
  simp [countStep, countArgument, parameter?, Parser.secondIsSign, comma, Parser.takeSign]

theorem reads_count (counted : Counted) (next : List Lexeme) :
    Reads countCall (countLexemes counted) counted next := by
  cases counted with
  | events =>
      exact reads_count_call (Parser.reads_iterate_stop count_step_ends) (.inl ⟨rfl, rfl⟩)
  | distinct field =>
      have arguments := Parser.reads_iterate_next (by simp) (reads_counted_field field _)
        (Parser.reads_iterate_last (by simp) (reads_distinct (some field) next) count_step_last)
      exact reads_count_call arguments (.inr ⟨field, rfl, rfl, rfl⟩)

theorem reads_function (call : String) (stats : Stats) (isFirst : Bool) (counted : Counted)
    (next : List Lexeme) :
    Reads (statsArgument call (stats, isFirst)) (functionLexemes counted)
      ({ stats with counted }, false) next := by
  apply reads_bind_offset
  intro offset
  apply reads_bind_parameter "function"
  exact reads_bind_last (reads_count counted next) (reads_pure _ _)

theorem reads_fields (call : String) (stats : Stats) (isFirst : Bool) {fields : List String}
    (filled : fields ≠ []) (next : List Lexeme) :
    Reads (statsArgument call (stats, isFirst))
      (.word "field" :: .symbol "=" :: fieldListLexemes fields)
      ({ stats with groupBy := fields }, false) next := by
  apply reads_bind_offset
  intro offset
  apply reads_bind_parameter "field"
  exact reads_bind_last (reads_field_list filled next) (reads_pure _ _)

theorem reads_first_fields (stats : Stats) {fields : List String} (filled : fields ≠ [])
    (next : List Lexeme) :
    Reads (statsArgument "groupby" (stats, true)) (fieldListLexemes fields)
      ({ stats with groupBy := fields }, false) next := by
  obtain ⟨first, others, rfl⟩ := List.exists_cons_of_ne_nil filled
  apply reads_bind_offset
  intro offset
  apply reads_bind_nil
  · exact reads_no_parameter (by simp [fieldListLexemes, joined])
  · exact reads_bind_last (reads_field_list filled next) (reads_pure _ _)

theorem reads_span {window : TimeWindow} (positive : window.seconds ≠ 0) (stats : Stats)
    (isFirst : Bool) (next : List Lexeme) :
    Reads (statsArgument "bucket" (stats, isFirst)) (spanLexemes window)
      ({ stats with window := some window }, false) next := by
  apply reads_bind_offset
  intro offset
  apply reads_bind_parameter "span"
  apply reads_cons
  intro spanOffset
  apply reads_nil
  intro rest _
  have read := TimeWindow.of_text_text positive
  simp [read]

theorem reads_stats_call {call : String} {name : Lexeme} {lexemes next : List Lexeme}
    {stats : Stats} (other : call ≠ "count")
    (argued : Reads (arguments (statsArgument call) ({}, true)) lexemes (stats, false)
      (.symbol ")" :: next))
    (groups : call = "groupby" → stats.groupBy ≠ [])
    (spans : call = "bucket" → stats.window ≠ none) :
    Reads (statsCall call) (name :: .symbol "(" :: lexemes ++ [.symbol ")"]) stats next := by
  rw [statsCall, if_neg (by simpa using other)]
  apply reads_bind_cons (Parser.reads_skip _ _)
  apply reads_bind_cons (Parser.reads_sign "(" _)
  apply reads_bind argued
  apply reads_bind_last (Parser.reads_sign ")" _)
  have grouped : ¬(call == "groupby" && stats.groupBy.isEmpty) = true := by
    simpa using groups
  have spanned : ¬(call == "bucket" && stats.window.isNone) = true := by
    simpa using spans
  rw [if_neg grouped, if_neg spanned]
  exact reads_pure _ _

theorem reads_group_call {fields : List String} (filled : fields ≠ []) (counted : Counted)
    (next : List Lexeme) :
    Reads (statsCall "groupby") (.word "groupBy" :: .symbol "(" :: (fieldListLexemes fields ++
        [.symbol ","] ++ functionLexemes counted) ++ [.symbol ")"])
      { counted, groupBy := fields } next := by
  apply reads_stats_call (by decide) _ (fun _ => filled) (by simp)
  rw [List.append_assoc]
  apply reads_bind (reads_first_fields {} filled _)
  exact Parser.reads_iterate_last (by simp)
    (reads_another (reads_function "groupby" _ false counted _)) (reads_no_other (by simp))

theorem reads_bucket_call {window : TimeWindow} (positive : window.seconds ≠ 0)
    (counted : Counted) (next : List Lexeme) :
    Reads (statsCall "bucket") (.word "bucket" :: .symbol "(" :: (spanLexemes window ++
        [.symbol ","] ++ functionLexemes counted) ++ [.symbol ")"])
      { counted, window := some window } next := by
  apply reads_stats_call (by decide) _ (by simp) (by simp)
  rw [List.append_assoc]
  apply reads_bind (reads_span positive {} true _)
  exact Parser.reads_iterate_last (by simp)
    (reads_another (reads_function "bucket" _ false counted _)) (reads_no_other (by simp))

theorem reads_grouped_bucket_call {window : TimeWindow} {fields : List String}
    (positive : window.seconds ≠ 0) (filled : fields ≠ []) (counted : Counted)
    (next : List Lexeme) :
    Reads (statsCall "bucket") (.word "bucket" :: .symbol "(" :: (spanLexemes window ++
        [.symbol ","] ++ (.word "field" :: .symbol "=" :: fieldListLexemes fields) ++
        [.symbol ","] ++ functionLexemes counted) ++ [.symbol ")"])
      { counted, groupBy := fields, window := some window } next := by
  apply reads_stats_call (by decide) _ (by simp) (by simp)
  have same : spanLexemes window ++ [.symbol ","] ++
      (.word "field" :: .symbol "=" :: fieldListLexemes fields) ++ [.symbol ","] ++
      functionLexemes counted = spanLexemes window ++
        ((.symbol "," :: .word "field" :: .symbol "=" :: fieldListLexemes fields) ++
          (.symbol "," :: functionLexemes counted)) := by simp
  rw [same]
  apply reads_bind (reads_span positive {} true _)
  apply Parser.reads_iterate_next (by simp)
    (reads_another (reads_fields "bucket" _ false filled _))
  exact Parser.reads_iterate_last (by simp)
    (reads_another (reads_function "bucket" _ false counted _)) (reads_no_other (by simp))

/-- The lexemes of a count are a call that a stage tells apart from a filter. -/
theorem reads_stats {aggregation : Aggregation} (proper : aggregation.Proper)
    (next : List Lexeme) :
    ∃ name lexemes, statsLexemes aggregation = .word name :: .symbol "(" :: lexemes ∧
      isCounting (Text.lower name) = true ∧
      Reads (statsCall (Text.lower name)) (statsLexemes aggregation) (statsOf aggregation) next := by
  obtain ⟨counted, groupBy, comparison, threshold, window⟩ := aggregation
  have groupCall : Text.lower "groupBy" = "groupby" := by decide
  have bucket : Text.lower "bucket" = "bucket" := by decide
  have count : Text.lower "count" = "count" := by decide
  have positive : ∀ known ∈ window, known.seconds ≠ 0 := proper.window
  cases groupBy with
  | nil =>
      cases window with
      | none =>
          obtain ⟨rest, same⟩ : ∃ rest, countLexemes counted = .word "count" :: .symbol "(" :: rest := by
            cases counted <;> exact ⟨_, rfl⟩
          refine ⟨"count", rest, same, by rw [count]; rfl, ?_⟩
          rw [count]
          exact reads_bind_last (reads_count counted next) (reads_pure _ _)
      | some window =>
          refine ⟨"bucket", _, rfl, by rw [bucket]; rfl, ?_⟩
          rw [bucket]
          exact reads_bucket_call (positive window rfl) counted next
  | cons first others =>
      cases window with
      | none =>
          refine ⟨"groupBy", _, rfl, by rw [groupCall]; rfl, ?_⟩
          rw [groupCall]
          exact reads_group_call (by simp) counted next
      | some window =>
          refine ⟨"bucket", _, rfl, by rw [bucket]; rfl, ?_⟩
          rw [bucket]
          exact reads_grouped_bucket_call (positive window rfl) (by simp) counted next

theorem reads_stats_stage {aggregation : Aggregation} (proper : aggregation.Proper)
    {start : Query} (uncounted : start.stats = none) (next : List Lexeme) :
    Reads (stage start) (statsLexemes aggregation)
      { start with stats := some (statsOf aggregation) } next := by
  obtain ⟨name, lexemes, same, counting, reads⟩ := reads_stats proper next
  have other : Text.lower name ≠ "in" := by
    intro equal
    rw [equal] at counting
    revert counting
    decide
  intro tokens rest listed follows
  have called : Parser.nextCall? (tokens ++ rest) = some (Text.lower name) :=
    next_call_of_lexemes (by rw [List.map_append, listed, same]; rfl)
  have some : tokens ≠ [] := by
    rintro rfl
    rw [same] at listed
    cases listed
  have read := reads tokens rest listed follows
  simp [stage, some, called, counting, uncounted, read]

theorem reads_threshold_stage (aggregation : Aggregation) {start : Query}
    (counted : start.stats.isSome = true) (uncompared : start.threshold = none)
    (next : List Lexeme) :
    Reads (stage start) (thresholdLexemes aggregation)
      { start with threshold := some (aggregation.comparison, aggregation.threshold) } next := by
  have sign : Comparison.ofSign? aggregation.comparison.singleSign =
      some aggregation.comparison := by
    cases aggregation.comparison <;> rfl
  have other : aggregation.comparison.singleSign ≠ "(" := by
    cases aggregation.comparison <;> decide
  apply reads_cons
  intro nameOffset
  apply reads_cons
  intro signOffset
  apply reads_cons
  intro numberOffset
  apply reads_nil
  intro rest _
  simp [stage, Parser.nextCall?, other, testStage, counted, uncompared, threshold,
    Dialect.comparisonOr, sign, Parser.number, Text.uint64_of_text]

end DetectionRules.CrowdStrike
