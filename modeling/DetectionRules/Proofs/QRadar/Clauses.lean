import DetectionRules.Proofs.QRadar.Test

/-!
Clauses of QRadar queries that count: what events are grouped by, what is
counted and compared, and the time in which it is counted, which is written in
the largest unit that divides it.
-/

namespace DetectionRules.QRadar

open DetectionRules.Parser (Reads reads_bind reads_bind_cons reads_bind_nil reads_bind_last
  reads_bind_offset reads_pure reads_cons reads_nil)
open Token (Spells joined)

def countLexemes : Counted → List Lexeme
  | .events => [.word "COUNT", .symbol "(", .word "*", .symbol ")"]
  | .distinct field => .word "UNIQUECOUNT" :: .symbol "(" :: columnLexemes field ++ [.symbol ")"]

def groupLexemes (fields : List String) : List Lexeme :=
  match fields with
  | [] => []
  | fields => .word "GROUP" :: .word "BY" :: joined [.symbol ","] columnLexemes fields

def havingLexemes (aggregation : Aggregation) : List Lexeme :=
  .word "HAVING" :: (countLexemes aggregation.counted ++
    [.symbol aggregation.comparison.singleSign, .word (toString aggregation.threshold)])

def lastLexemes (window : Option TimeWindow) : List Lexeme :=
  window.elim [] fun window =>
    [.word "LAST", .word (toString window.amount.1), .word (unitText window.amount.2)]

def clauseLexemes (aggregation : Aggregation) : List Lexeme :=
  groupLexemes aggregation.groupBy ++ havingLexemes aggregation ++ lastLexemes aggregation.window

def shownColumns (aggregation : Aggregation) : List (List Lexeme) :=
  aggregation.groupBy.map columnLexemes ++
    [[.word "COUNT", .symbol "(", .word "*", .symbol ")", .word "AS", .word "event_count"]]

def selectLexemes (aggregation : Option Aggregation) : List Lexeme :=
  aggregation.elim [.word "*"] fun aggregation => joined [.symbol ","] id (shownColumns aggregation)

def countText : Counted → String
  | .events => "COUNT(*)"
  | .distinct field => "UNIQUECOUNT(" ++ column field ++ ")"

theorem spells_count (counted : Counted) :
    Spells quoting (countText counted) (countLexemes counted) := by
  cases counted with
  | events =>
      have isWord : Token.IsWord quoting "COUNT".toList :=
        Token.is_word_of_plain (by simp) (by simp [Token.isPlain])
      have star : Spells quoting "*" [.word "*"] :=
        Token.spells_plain (by simp) (by simp [Token.isPlain])
      have split : "COUNT(*)" = "COUNT" ++ "(" ++ "*" ++ ")" := by simp
      rw [countText, split]
      exact Token.spells_call isWord star
  | distinct field =>
      rw [countText]
      exact Token.spells_plain_call (by simp) (by simp) (by simp [Token.isPlain])
        (spells_column field)

theorem spells_columns {fields : List String} (filled : fields ≠ []) :
    Spells quoting (String.intercalate ", " (fields.map column))
      (joined [.symbol ","] columnLexemes fields) :=
  Token.spells_intercalate_map Token.connects_comma (fun field _ => spells_column field) filled

def groupText (fields : List String) : String :=
  if fields.isEmpty then "" else " GROUP BY " ++ String.intercalate ", " (fields.map column)

theorem spells_group {text : String} {lexemes : List Lexeme} (spells : Spells quoting text lexemes)
    (fields : List String) :
    Spells quoting (text ++ groupText fields) (lexemes ++ groupLexemes fields) := by
  match fields with
  | [] => simpa [groupText, groupLexemes] using spells
  | first :: others =>
      have group := @Token.spells_before_word quoting text "GROUP" _ spells (by simp) (by simp [Token.isPlain])
      have words := @Token.spells_before_word quoting _ "BY" _ group (by simp) (by simp [Token.isPlain])
      have whole := Token.connects_blank words (@spells_columns (first :: others) (by simp))
      have split : " GROUP BY " = " " ++ "GROUP" ++ " " ++ "BY" ++ " " := by simp
      rw [groupText, if_neg (by simp), split]
      simpa only [groupLexemes, String.append_assoc, List.append_assoc, List.cons_append,
        List.nil_append] using whole

theorem spells_having {text : String} {lexemes : List Lexeme} (spells : Spells quoting text lexemes)
    (aggregation : Aggregation) :
    Spells quoting (text ++ (" HAVING " ++ countText aggregation.counted ++ " " ++
        aggregation.comparison.singleSign ++ " " ++ toString aggregation.threshold))
      (lexemes ++ havingLexemes aggregation) := by
  have keyword := @Token.spells_before_word quoting text "HAVING" _ spells (by simp) (by simp [Token.isPlain])
  have counted := Token.connects_blank keyword (spells_count aggregation.counted)
  have whole := Token.connects_single_threshold aggregation.comparison counted
    (Token.spells_uint64 aggregation.threshold)
  have split : " HAVING " = " " ++ "HAVING" ++ " " := by simp
  rw [split]
  simpa only [havingLexemes, String.append_assoc, List.append_assoc, List.cons_append,
    List.nil_append] using whole

def lastText (window : Option TimeWindow) : String :=
  match window with
  | some window => " LAST " ++ toString window.amount.1 ++ " " ++ unitText window.amount.2
  | none => ""

theorem spells_last {text : String} {lexemes : List Lexeme} (spells : Spells quoting text lexemes)
    (window : Option TimeWindow) :
    Spells quoting (text ++ lastText window) (lexemes ++ lastLexemes window) := by
  cases window with
  | none => simpa [lastText, lastLexemes] using spells
  | some window =>
      have keyword := @Token.spells_before_word quoting text "LAST" _ spells (by simp) (by simp [Token.isPlain])
      have amount := Token.connects_blank keyword (Token.spells_uint64 window.amount.1)
      have whole := @Token.spells_before_word quoting _ (unitText window.amount.2) _ amount
        (by cases window.amount.2 <;> simp [unitText])
        (by cases window.amount.2 <;> simp [unitText, Token.isPlain])
      have split : " LAST " = " " ++ "LAST" ++ " " := by simp
      rw [lastText, split]
      simpa only [lastLexemes, Option.elim_some, String.append_assoc, List.append_assoc,
        List.cons_append, List.nil_append] using whole

theorem aggregation_text_eq (aggregation : Aggregation) :
    aggregationText aggregation = groupText aggregation.groupBy ++ (" HAVING " ++
      countText aggregation.counted ++ " " ++ aggregation.comparison.singleSign ++ " " ++
      toString aggregation.threshold) ++ lastText aggregation.window := by
  obtain ⟨counted, groupBy, comparison, threshold, window⟩ := aggregation
  cases counted <;> cases window <;>
    simp only [aggregationText, groupText, countText, lastText, String.append_assoc]

theorem spells_clauses {text : String} {lexemes : List Lexeme}
    (spells : Spells quoting text lexemes) (aggregation : Aggregation) :
    Spells quoting (text ++ aggregationText aggregation)
      (lexemes ++ clauseLexemes aggregation) := by
  have whole := spells_last (spells_having (spells_group spells aggregation.groupBy) aggregation)
    aggregation.window
  rw [aggregation_text_eq]
  simpa only [clauseLexemes, String.append_assoc, List.append_assoc] using whole

theorem spells_select (aggregation : Option Aggregation) :
    Spells quoting (columnsText aggregation) (selectLexemes aggregation) := by
  cases aggregation with
  | none => exact Token.spells_plain (by simp [columnsText]) (by simp [columnsText, Token.isPlain])
  | some aggregation =>
      have counted := spells_count .events
      have named := @Token.spells_before_word quoting _ "AS" _ counted (by simp) (by simp [Token.isPlain])
      have shown := @Token.spells_before_word quoting _ "event_count" _ named (by simp) (by simp [Token.isPlain])
      have each : List.Forall₂ (fun text lexemes => Spells quoting text (id lexemes))
          (aggregation.groupBy.map column ++ ["COUNT(*) AS event_count"])
          (shownColumns aggregation) := by
        apply List.rel_append
        · rw [List.forall₂_map_left_iff, List.forall₂_map_right_iff, List.forall₂_same]
          exact fun field _ => spells_column field
        · refine .cons ?_ .nil
          have split : "COUNT(*) AS event_count" = "COUNT(*)" ++ " " ++ "AS" ++ " " ++ "event_count" := by
            simp
          rw [split]
          exact shown
      exact Token.spells_intercalate Token.connects_comma each (by simp [shownColumns])

theorem of_name_unit (timeUnit : TimeUnit) : TimeUnit.ofName? (unitText timeUnit) = some timeUnit := by
  cases timeUnit <;> decide

theorem reads_last {window : TimeWindow} (positive : window.seconds ≠ 0) (next : List Lexeme) :
    Reads lastClause
      [.word (toString window.amount.1), .word (unitText window.amount.2)] window next := by
  have read : TimeWindow.ofAmount? window.amount.1 window.amount.2 = some window :=
    TimeWindow.of_amount_amount rfl positive
  apply reads_bind_cons (Parser.reads_number "a duration" _ _)
  apply Parser.reads_bind_word_at
  intro offset
  simp only [of_name_unit, Option.bind_some, read]
  exact reads_pure window next

theorem reads_columns {fields : List String} (filled : fields ≠ []) {next : List Lexeme}
    (noComma : next.head? ≠ some (.symbol ",")) (noCall : next.head? ≠ some (.symbol "(")) :
    Reads (Parser.sepBy (Parser.takeSign ",") field) (joined [.symbol ","] columnLexemes fields)
      fields next := by
  have items := Parser.reads_commas (fun next => next.head? ≠ some (.symbol "(")) filled
    (fun name _ _ noCall => reads_column name noCall) (by simp) noCall noComma
  rwa [List.map_id'] at items

theorem reads_comparison_sign (comparison : Comparison) (next : List Lexeme) :
    Reads Dialect.comparison [.symbol comparison.singleSign] comparison next := by
  have known : Comparison.ofSign? comparison.singleSign = some comparison := by
    cases comparison <;> rfl
  apply reads_cons
  intro offset
  apply reads_nil
  intro rest _
  simp [Dialect.comparison, Dialect.comparisonOr, known]

theorem reads_having (aggregation : Aggregation) (next : List Lexeme) :
    Reads havingClause (countLexemes aggregation.counted ++
        [.symbol aggregation.comparison.singleSign, .word (toString aggregation.threshold)])
      (aggregation.counted, aggregation.comparison, aggregation.threshold) next := by
  have compared : Reads (do
      Parser.sign ")"
      let comparison ← Dialect.comparison
      let threshold ← Parser.number "a threshold"
      return (aggregation.counted, comparison, threshold))
      [.symbol ")", .symbol aggregation.comparison.singleSign,
        .word (toString aggregation.threshold)]
      (aggregation.counted, aggregation.comparison, aggregation.threshold) next := by
    apply reads_bind_cons (Parser.reads_sign ")" _)
    apply reads_bind_cons (reads_comparison_sign _ _)
    apply reads_bind_last (Parser.reads_number "a threshold" _ _)
    exact reads_pure _ _
  cases counted : aggregation.counted with
  | events =>
      rw [counted] at compared
      have count : Text.upper "COUNT" = "COUNT" := by decide
      apply Parser.reads_bind_word_at
      intro offset
      apply reads_bind_cons (Parser.reads_sign "(" _)
      simp only [count]
      apply reads_bind_cons (Parser.reads_skip_until (by simp) (by simp))
      exact reads_bind_nil (reads_pure _ _) compared
  | distinct name =>
      rw [counted] at compared
      have count : Text.upper "UNIQUECOUNT" = "UNIQUECOUNT" := by decide
      rw [countLexemes, List.cons_append, List.cons_append, List.append_assoc]
      apply Parser.reads_bind_word_at
      intro offset
      apply reads_bind_cons (Parser.reads_sign "(" _)
      simp only [count]
      apply reads_bind (reads_column name (by simp))
      exact reads_bind_nil (reads_pure _ _) compared

def clausesOf (aggregation : Aggregation) : Clauses where
  groupBy := if aggregation.groupBy.isEmpty then none else some aggregation.groupBy
  having := some (aggregation.counted, aggregation.comparison, aggregation.threshold)
  window := aggregation.window

theorem clauses_aggregation (aggregation : Aggregation) :
    (clausesOf aggregation).aggregation = some aggregation := by
  obtain ⟨counted, groupBy, comparison, threshold, window⟩ := aggregation
  cases groupBy <;> rfl

/-- The parser of a clause behind the check for the end. -/
def clauseAt (clauses : Clauses) (offset : Option Nat) : Parser (Option Clauses) := do
  if ← Parser.takeKeyword "GROUP" then
    Parser.keyword "BY"
    return some { clauses with groupBy := some (← Parser.sepBy (Parser.takeSign ",") field) }
  else if ← Parser.takeKeyword "HAVING" then
    return some { clauses with having := some (← havingClause) }
  else if ← Parser.takeKeyword "ORDER" then
    Parser.keyword "BY"
    Parser.skipUntil fun tokens =>
      Parser.nextIsKeyword "LIMIT" tokens || Parser.nextIsKeyword "LAST" tokens
    return some clauses
  else if ← Parser.takeKeyword "LIMIT" then
    let _ ← Parser.number "a row limit"
    return some clauses
  else if ← Parser.takeKeyword "LAST" then
    return some { clauses with window := some (← lastClause) }
  else Parser.failAt offset "expected GROUP BY, HAVING, ORDER BY, LIMIT or LAST"

theorem reads_clause {start final : Clauses} {lexeme : Lexeme} {lexemes next : List Lexeme}
    (reads : ∀ offset, Reads (clauseAt start offset) (lexeme :: lexemes) (some final) next) :
    Reads (clause start) (lexeme :: lexemes) (some final) next := by
  have more : Reads Parser.atEnd [] false (lexeme :: lexemes ++ next) := by
    apply reads_nil
    intro rest follows
    obtain ⟨offset, others, rfl, _⟩ := Parser.cons_of_lexemes follows
    rfl
  exact reads_bind_nil more (reads_bind_offset reads)

theorem reads_no_clause (start : Clauses) : Reads (clause start) [] none [] := by
  apply reads_nil
  intro rest follows
  obtain rfl : rest = [] := by simpa using follows
  rfl

theorem reads_group_clause {fields : List String} (filled : fields ≠ []) (start : Clauses)
    {next : List Lexeme} (noComma : next.head? ≠ some (.symbol ","))
    (noCall : next.head? ≠ some (.symbol "(")) :
    Reads (clause start) (.word "GROUP" :: .word "BY" :: joined [.symbol ","] columnLexemes fields)
      (some { start with groupBy := some fields }) next := by
  apply reads_clause
  intro offset
  apply reads_bind_cons (Parser.reads_take_keyword "GROUP" _)
  apply reads_bind_cons (Parser.reads_keyword "BY" _)
  exact reads_bind_last (reads_columns filled noComma noCall) (reads_pure _ _)

theorem reads_having_clause (aggregation : Aggregation) (start : Clauses) (next : List Lexeme) :
    Reads (clause start) (havingLexemes aggregation)
      (some { start with
        having := some (aggregation.counted, aggregation.comparison, aggregation.threshold) })
      next := by
  apply reads_clause
  intro offset
  apply reads_bind_nil (Parser.reads_no_keyword (by decide))
  apply reads_bind_cons (Parser.reads_take_keyword "HAVING" _)
  exact reads_bind_last (reads_having aggregation next) (reads_pure _ _)

theorem reads_last_clause {window : TimeWindow} (positive : window.seconds ≠ 0) (start : Clauses)
    (next : List Lexeme) :
    Reads (clause start) [.word "LAST", .word (toString window.amount.1),
        .word (unitText window.amount.2)]
      (some { start with window := some window }) next := by
  apply reads_clause
  intro offset
  apply reads_bind_nil (Parser.reads_no_keyword (by decide))
  apply reads_bind_nil (Parser.reads_no_keyword (by decide))
  apply reads_bind_nil (Parser.reads_no_keyword (by decide))
  apply reads_bind_nil (Parser.reads_no_keyword (by decide))
  apply reads_bind_cons (Parser.reads_take_keyword "LAST" _)
  exact reads_bind_last (reads_last positive next) (reads_pure _ _)

theorem reads_clauses {aggregation : Aggregation} (proper : aggregation.Proper) :
    Reads (Parser.iterate clause {}) (clauseLexemes aggregation) (clausesOf aggregation) [] := by
  obtain ⟨counted, groupBy, comparison, threshold, window⟩ := aggregation
  have last (start : Clauses) : Reads (Parser.iterate clause { start with window := none })
      (lastLexemes window) { start with window } [] := by
    cases window with
    | none => exact Parser.reads_iterate_stop (reads_no_clause _)
    | some window =>
        exact Parser.reads_iterate_last (by simp [lastLexemes])
          (reads_last_clause (proper.window window rfl) _ []) (reads_no_clause _)
  have having (groups : Option (List String)) := @Parser.reads_iterate_next _ clause
    { groupBy := groups } _ _ _ _ [] (by simp [havingLexemes])
    (reads_having_clause ⟨counted, groupBy, comparison, threshold, window⟩ _ _)
    (last { groupBy := groups, having := some (counted, comparison, threshold) })
  rw [clauseLexemes, List.append_assoc]
  cases groupBy with
  | nil => exact having none
  | cons first others =>
      exact Parser.reads_iterate_next (by simp [groupLexemes])
        (reads_group_clause (by simp) _ (by simp [havingLexemes]) (by simp [havingLexemes]))
        (having (some (first :: others)))

end DetectionRules.QRadar
