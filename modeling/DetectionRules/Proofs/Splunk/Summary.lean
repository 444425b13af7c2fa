import DetectionRules.Proofs.Splunk.Commands

/-!
Counts in Splunk queries: a bucket of time, what is counted per which fields,
and the command after it that compares the count.
-/

namespace DetectionRules.Splunk

open DetectionRules.Parser (Reads reads_bind reads_bind_cons reads_bind_nil reads_bind_last
  reads_pure reads_cons reads_nil)
open Token (Spells joined)

def countLexemes : Counted → List Lexeme
  | .events => [.word "count"]
  | .distinct field => [.word "dc", .symbol "(", .word field, .symbol ")", .word "AS", .word "count"]

def groups (aggregation : Aggregation) : List String :=
  aggregation.groupBy ++ (if aggregation.window.isSome then ["_time"] else [])

def byLexemes : List String → List Lexeme
  | [] => []
  | fields => .word "by" :: joined [.symbol ","] (fun field => [.word field]) fields

def statsLexemes (aggregation : Aggregation) : List Lexeme :=
  .word "stats" :: (countLexemes aggregation.counted ++ byLexemes (groups aggregation))

def bucketLexemes (window : TimeWindow) : List Lexeme :=
  [.word "bucket", .word "_time", .word "span", .symbol "=", .word window.text]

def thresholdLexemes (aggregation : Aggregation) : List Lexeme :=
  [.word "where", .word "count", .symbol aggregation.comparison.sign,
    .word (toString aggregation.threshold)]

def aggregationLexemes (aggregation : Aggregation) : List Lexeme :=
  aggregation.window.elim [] (fun window => .symbol "|" :: bucketLexemes window) ++
    .symbol "|" :: statsLexemes aggregation ++ .symbol "|" :: thresholdLexemes aggregation

def countText : Counted → String
  | .events => "count"
  | .distinct field => "dc(" ++ field ++ ") AS count"

def byText (fields : List String) : String :=
  if fields.isEmpty then "" else " by " ++ String.intercalate ", " fields

theorem aggregation_text_eq (aggregation : Aggregation) :
    aggregationText aggregation = aggregation.window.elim "" (" | " ++ "bucket _time span=" ++ ·.text) ++ " | " ++
      ("stats" ++ " " ++ (countText aggregation.counted ++ byText (groups aggregation))) ++ " | " ++
      ("where" ++ " " ++ ("count" ++ (" " ++ aggregation.comparison.sign ++ " ") ++
        toString aggregation.threshold)) := by
  obtain ⟨counted, groupBy, comparison, threshold, window⟩ := aggregation
  have stats : " | stats " = " | " ++ ("stats" ++ " ") := by simp
  have compared : " | where count " = " | " ++ ("where" ++ " " ++ "count" ++ " ") := by simp
  have bucket : " | bucket _time span=" = " | " ++ "bucket _time span=" := by simp
  cases counted <;> cases window <;>
    simp only [aggregationText, groups, countText, byText, stats, compared, bucket,
      Option.elim_none, Option.elim_some, String.append_assoc] <;> rfl

theorem spells_count {counted : Counted}
    (isWord : ∀ field, counted = .distinct field → Token.IsWord quoting field.toList) :
    Spells quoting (countText counted) (countLexemes counted) := by
  cases counted with
  | events =>
      unfold countText countLexemes
      exact Token.spells_plain (by simp) (by simp [Token.isPlain])
  | distinct field =>
      have name : Token.IsWord quoting "dc".toList :=
        Token.is_word_of_plain (by simp) (by simp [Token.isPlain])
      have call := Token.spells_call name (Token.spells_word (isWord field rfl))
      have named := @Token.spells_before_word quoting _ "AS" _ call (by simp) (by simp [Token.isPlain])
      have whole := @Token.spells_before_word quoting _ "count" _ named (by simp)
        (by simp [Token.isPlain])
      have opening : "dc(" = "dc" ++ "(" := by simp
      have closing : ") AS count" = ")" ++ " " ++ "AS" ++ " " ++ "count" := by simp
      rw [countText, opening, closing]
      simpa only [countLexemes, String.append_assoc, List.append_assoc, List.cons_append,
        List.nil_append] using whole

theorem spells_by {text : String} {lexemes : List Lexeme} {fields : List String}
    (isWord : ∀ field ∈ fields, Token.IsWord quoting field.toList)
    (spells : Spells quoting text lexemes) :
    Spells quoting (text ++ byText fields) (lexemes ++ byLexemes fields) := by
  cases fields with
  | nil => simpa [byText, byLexemes] using spells
  | cons first others =>
      have each : List.Forall₂ (fun text field => Spells quoting text [.word field])
          (first :: others) (first :: others) := by
        rw [List.forall₂_same]
        exact fun field member => Token.spells_word (isWord field member)
      have list := Token.spells_intercalate Token.connects_comma each (by simp)
      have whole := Token.connects_by spells list
      rw [byText, if_neg (by simp), ← String.append_assoc]
      rwa [List.append_assoc, List.singleton_append] at whole

theorem spells_bucket (window : TimeWindow) :
    Spells quoting ("bucket _time span=" ++ window.text) (bucketLexemes window) := by
  have isWord : Token.IsWord quoting "span".toList :=
    Token.is_word_of_plain (by simp) (by simp [Token.isPlain])
  have span := @Token.spells_compared quoting "span" "=" _ _ isWord (by simp)
    (Token.front_of_window window) (Token.spells_window window)
  have time := @Token.spells_behind_word quoting "_time" _ _ _ rfl (by simp) (by simp [Token.isPlain]) span
  have whole := @Token.spells_behind_word quoting "bucket" _ _ _ rfl (by simp) (by simp [Token.isPlain]) time
  have opening : "bucket _time span=" = "bucket" ++ " " ++ ("_time" ++ " " ++ ("span" ++ "=")) := by
    simp
  rw [opening]
  simpa only [bucketLexemes, String.append_assoc] using whole

/-- Counts whose fields are words. -/
def HasWords (aggregation : Aggregation) : Prop :=
  ∀ field ∈ aggregation.fields, Token.IsWord quoting field.toList

theorem words_groups {aggregation : Aggregation} (words : HasWords aggregation) :
    ∀ field ∈ groups aggregation, Token.IsWord quoting field.toList := by
  intro field member
  rcases List.mem_append.mp member with group | bucket
  · apply words
    rw [Aggregation.fields]
    split <;> simp [group]
  · obtain ⟨_, rfl⟩ : aggregation.window.isSome = true ∧ field = "_time" := by
      simpa [List.mem_ite_nil_right] using bucket
    exact Token.is_word_of_plain (by simp) (by simp [Token.isPlain])

theorem spells_aggregation {aggregation : Aggregation} {text : String} {lexemes : List Lexeme}
    (words : HasWords aggregation) (spells : Spells quoting text lexemes) :
    Spells quoting (text ++ aggregationText aggregation)
      (lexemes ++ aggregationLexemes aggregation) := by
  have count : Spells quoting "count" [.word "count"] :=
    Token.spells_plain (by simp) (by simp [Token.isPlain])
  have counts := @spells_count aggregation.counted fun field same =>
    words field (by simp [Aggregation.fields, same])
  have stats := @Token.spells_behind_word quoting "stats" _ _ _ rfl (by simp) (by simp [Token.isPlain])
    (spells_by (words_groups words) counts)
  have compared := @Token.spells_behind_word quoting "where" _ _ _ rfl (by simp) (by simp [Token.isPlain])
    (Token.connects_threshold aggregation.comparison count
      (Token.spells_uint64 aggregation.threshold))
  have bucketed : Spells quoting
      (text ++ aggregation.window.elim "" (" | " ++ "bucket _time span=" ++ ·.text))
      (lexemes ++ aggregation.window.elim [] fun window => .symbol "|" :: bucketLexemes window) := by
    cases aggregation.window with
    | none => simpa using spells
    | some window =>
        have whole := Token.connects_pipe spells (spells_bucket window)
        simpa only [Option.elim_some, String.append_assoc, List.append_assoc, List.cons_append,
          List.nil_append] using whole
  have whole := Token.connects_pipe (Token.connects_pipe bucketed stats) compared
  rw [aggregation_text_eq]
  simpa only [aggregationLexemes, statsLexemes, thresholdLexemes, String.append_assoc,
    List.append_assoc, List.cons_append, List.nil_append] using whole

theorem reads_no_keyword_at_end (keyword : String) {next : List Lexeme} (ends : EndsCommand next) :
    Reads (Parser.takeKeyword keyword) [] false next := by
  apply reads_nil
  intro rest follows
  apply Parser.take_if_false
  rcases rest with _ | ⟨⟨lexeme, offset⟩, others⟩
  · rfl
  · obtain rfl := ends lexeme (by simp [← follows])
    rfl

def separator : Parser Bool := do
  if ← Parser.takeSign "," then return true else return !(← Parser.sees atPipeOrEnd)

theorem reads_no_separator {next : List Lexeme} (ends : EndsCommand next) :
    Reads separator [] false next := by
  have noComma : next.head? ≠ some (.symbol ",") := by
    intro comma
    simpa using ends _ comma
  apply reads_bind_nil
  · exact Parser.reads_no_sign noComma
  · rw [if_neg (by simp)]
    apply reads_bind_nil
    · exact Parser.reads_sees fun _ => at_pipe_or_end ends
    · exact reads_pure _ next

theorem reads_group_fields {fields : List String} (filled : fields ≠ []) {next : List Lexeme}
    (ends : EndsCommand next) :
    Reads groupFields (joined [.symbol ","] (fun field => [.word field]) fields) fields next := by
  obtain ⟨first, others, rfl⟩ := List.exists_cons_of_ne_nil filled
  have items : Reads (Parser.sepBy separator (Parser.word "a group-by field"))
      (joined [.symbol ","] (fun field => [.word field]) (first :: others))
      ((first :: others).map id) next := by
    apply Parser.reads_sep_by (by simp) _ (reads_no_separator ends)
    · apply Parser.along_of_forall
      intro field _ following
      exact Parser.reads_word _ field following
    · intro following
      apply reads_bind_cons (Parser.reads_take_sign "," _)
      rw [if_pos rfl]
      exact reads_pure _ _
  rwa [List.map_id] at items

/-- The parser of `stats` behind what is counted and the name of the result. -/
def statsEnd (counted : Counted) (result : String) : Parser Stats := do
  let groupBy ← if ← Parser.takeKeyword "by" then groupFields else pure []
  if !(← Parser.sees atPipeOrEnd) then Parser.expected "'by' or '|'"
  return ⟨counted, result, groupBy.filter (· != "_time")⟩

theorem reads_stats_end (counted : Counted) (result : String) (fields : List String)
    {next : List Lexeme} (ends : EndsCommand next) :
    Reads (statsEnd counted result) (byLexemes fields)
      ⟨counted, result, fields.filter (· != "_time")⟩ next := by
  have atEnd : Reads (Parser.sees atPipeOrEnd) [] true next :=
    Parser.reads_sees fun _ => at_pipe_or_end ends
  cases fields with
  | nil =>
      apply reads_bind_nil
      · exact reads_no_keyword_at_end "by" ends
      · apply reads_bind_nil (reads_pure [] _)
        exact reads_bind_nil atEnd (reads_pure _ next)
  | cons first others =>
      apply reads_bind_cons (Parser.reads_take_keyword "by" _)
      apply reads_bind_last (reads_group_fields (List.cons_ne_nil first others) ends)
      exact reads_bind_nil atEnd (reads_pure _ next)

theorem reads_count {next : List Lexeme} (noCall : next.head? ≠ some (.symbol "(")) :
    Reads countCall [.word "count"] (.events, "count") next := by
  have count : Text.lower "count" = "count" := by decide
  apply Parser.reads_bind_word_at
  intro offset
  simp only [count]
  apply reads_bind_nil
  · exact Parser.reads_no_sign noCall
  · exact reads_pure _ next

theorem reads_distinct_count (field : String) (next : List Lexeme) :
    Reads countCall [.word "dc", .symbol "(", .word field, .symbol ")"]
      (.distinct field, "dc(" ++ field ++ ")") next := by
  have count : Text.lower "dc" = "dc" := by decide
  apply Parser.reads_bind_word_at
  intro offset
  simp only [count]
  apply reads_bind_cons (Parser.reads_sign "(" _)
  apply reads_bind_cons (Parser.reads_word "a field" _ _)
  exact reads_bind_last (Parser.reads_sign ")" _) (reads_pure _ _)

theorem filter_groups {aggregation : Aggregation} (noTime : "_time" ∉ aggregation.groupBy) :
    (groups aggregation).filter (· != "_time") = aggregation.groupBy := by
  have own : aggregation.groupBy.filter (· != "_time") = aggregation.groupBy := by
    rw [List.filter_eq_self]
    intro field member
    simpa using fun (time : field = "_time") => noTime (time ▸ member)
  rw [groups, List.filter_append, own]
  cases aggregation.window <;> simp

theorem reads_stats {aggregation : Aggregation} (noTime : "_time" ∉ aggregation.groupBy)
    {next : List Lexeme} (ends : EndsCommand next) :
    Reads statsCommand (countLexemes aggregation.counted ++ byLexemes (groups aggregation))
      ⟨aggregation.counted, "count", aggregation.groupBy⟩ next := by
  have ending := reads_stats_end aggregation.counted "count" (groups aggregation) ends
  rw [filter_groups noTime] at ending
  generalize groups aggregation = fields at ending
  cases counted : aggregation.counted with
  | events =>
      rw [counted] at ending
      have noCall : (byLexemes fields ++ next).head? ≠ some (.symbol "(") := by
        cases fields with
        | nil =>
            intro call
            simpa using ends _ call
        | cons first others => simp [byLexemes]
      have noAlias : Reads (Parser.takeKeyword "AS") [] false (byLexemes fields ++ next) := by
        cases fields with
        | nil => exact reads_no_keyword_at_end "AS" ends
        | cons first others => exact Parser.reads_no_keyword (by decide)
      apply reads_bind_cons (reads_count noCall)
      exact reads_bind_nil noAlias ending
  | distinct field =>
      rw [counted] at ending
      apply reads_bind (reads_distinct_count field _)
      apply reads_bind_cons (Parser.reads_take_keyword "AS" _)
      exact reads_bind_cons (Parser.reads_word "an alias" _ _) ending

theorem reads_span {window : TimeWindow} (positive : window.seconds ≠ 0) {next : List Lexeme}
    (ends : EndsCommand next) :
    Reads bucketCommand
      [.word "_time", .word "span", .symbol "=", .word window.text] window next := by
  have more (word : String) (following : List Lexeme) :
      Reads (Parser.sees atPipeOrEnd) [] false (.word word :: following) := by
    apply Parser.reads_sees
    intro tokens same
    obtain ⟨offset, rest, rfl, _⟩ := Parser.cons_of_lexemes same
    rfl
  have time (following : List Lexeme) :
      Reads (bucketArgument none) [.word "_time"] (some none) following := by
    apply reads_bind_nil (more _ _)
    apply Parser.reads_bind_word_at
    intro offset
    exact reads_pure _ _
  have span : Reads (bucketArgument none) [.word "span", .symbol "=", .word window.text]
      (some (some window)) next := by
    have read := TimeWindow.of_text_text positive
    apply reads_bind_nil (more _ _)
    apply Parser.reads_bind_word_at
    intro offset
    apply reads_bind_cons (Parser.reads_sign "=" _)
    apply reads_cons
    intro place
    apply reads_nil
    intro rest _
    simp [read]
  have stops : Reads (bucketArgument (some window)) [] none next := by
    apply reads_bind_nil
    · exact Parser.reads_sees fun _ => at_pipe_or_end ends
    · exact reads_pure _ next
  have arguments := Parser.reads_iterate_next (by simp) (time _)
    (Parser.reads_iterate_last (by simp) span stops)
  exact reads_bind_last arguments (reads_pure _ _)

theorem reads_bucket {window : TimeWindow} (positive : window.seconds ≠ 0) (query : Search)
    {next : List Lexeme} (ends : EndsCommand next) :
    Reads (Splunk.command query) (bucketLexemes window) { query with span := some window } next := by
  have bucket : Text.lower "bucket" = "bucket" := by decide
  apply Parser.reads_bind_word_at
  intro offset
  simp only [bucket]
  exact reads_bind_last (reads_span positive ends) (reads_pure _ _)

def statsOf (aggregation : Aggregation) : Stats :=
  ⟨aggregation.counted, "count", aggregation.groupBy⟩

theorem reads_stats_command {aggregation : Aggregation} (noTime : "_time" ∉ aggregation.groupBy)
    (query : Search) {next : List Lexeme} (ends : EndsCommand next) :
    Reads (Splunk.command query) (statsLexemes aggregation)
      { query with stats := some (statsOf aggregation) } next := by
  have stats : Text.lower "stats" = "stats" := by decide
  apply Parser.reads_bind_word_at
  intro offset
  simp only [stats]
  exact reads_bind_last (reads_stats noTime ends) (reads_pure _ _)

theorem reads_threshold (aggregation : Aggregation) {query : Search}
    (counted : query.stats = some (statsOf aggregation)) (next : List Lexeme) :
    Reads (Splunk.command query) (thresholdLexemes aggregation)
      { query with threshold := some (aggregation.comparison, aggregation.threshold) } next := by
  have whereWord : Text.lower "where" = "where" := by decide
  have others : Text.sameLetters "count" "NOT" = false ∧ Text.sameLetters "count" "match" = false := by
    decide
  have sign : Comparison.ofSign? aggregation.comparison.sign = some aggregation.comparison ∧
      aggregation.comparison.sign ≠ "(" := by
    cases aggregation.comparison <;> simp [Comparison.sign, Comparison.ofSign?]
  obtain ⟨known, noCall⟩ := sign
  apply Parser.reads_bind_word_at
  intro offset
  simp only [whereWord]
  apply reads_cons
  intro nameOffset
  apply reads_cons
  intro signOffset
  apply reads_cons
  intro numberOffset
  apply reads_nil
  intro rest _
  simp [whereCommand, nextIsMatch, others, subject, Parser.takeSign, noCall, counted, statsOf,
    Dialect.comparison, Dialect.comparisonOr, known, Parser.number, Text.uint64_of_text]

def Search.counting (query : Search) (aggregation : Aggregation) : Search :=
  { query with
    span := aggregation.window
    stats := some (statsOf aggregation)
    threshold := some (aggregation.comparison, aggregation.threshold) }

theorem reads_aggregation {aggregation : Aggregation} (proper : aggregation.Proper)
    (noTime : "_time" ∉ aggregation.groupBy) {query : Search} (unbounded : query.span = none) :
    Reads (Parser.iterate nextCommand? query) (aggregationLexemes aggregation)
      (query.counting aggregation) [] := by
  have pipe (lexemes : List Lexeme) : EndsCommand (.symbol "|" :: lexemes) := by
    rintro lexeme ⟨⟩
    rfl
  have threshold (start : Search) (counted : start.stats = some (statsOf aggregation)) :=
    Parser.reads_iterate_last (by simp)
      (reads_next_command (reads_threshold aggregation counted [])) (reads_no_command _)
  have stats (start : Search) := Parser.reads_iterate_next (by simp)
    (reads_next_command (reads_stats_command noTime start (pipe _))) (threshold _ rfl)
  cases bounded : aggregation.window with
  | none =>
      have whole := stats query
      have same : query.counting aggregation = { query with
          stats := some (statsOf aggregation)
          threshold := some (aggregation.comparison, aggregation.threshold) } := by
        rw [Search.counting, bounded, ← unbounded]
      rw [same, aggregationLexemes, bounded]
      simpa using whole
  | some window =>
      have positive := proper.window window bounded
      have whole := Parser.reads_iterate_next (by simp)
        (reads_next_command (reads_bucket positive query (pipe _))) (stats _)
      rw [Search.counting, aggregationLexemes, bounded]
      simpa using whole

end DetectionRules.Splunk
