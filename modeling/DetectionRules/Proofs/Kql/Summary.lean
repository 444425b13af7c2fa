import DetectionRules.Proofs.Kql.Test

/-!
Counts in Kusto queries: what is counted, per which fields and time, and the
filter after it that compares the count under the name it was given.
-/

namespace DetectionRules.Kql

open DetectionRules.Parser (Reads reads_bind reads_bind_cons reads_bind_nil reads_bind_last
  reads_pure reads_cons reads_nil)
open Token (Spells joined)

/-- What a count is grouped by, in the order in which it is written. -/
def groups (aggregation : Aggregation) : List (TimeWindow ⊕ String) :=
  aggregation.groupBy.map .inr ++ aggregation.window.toList.map .inl

def binText (window : TimeWindow) : String := "bin(TimeGenerated, " ++ window.text ++ ")"

def groupText : TimeWindow ⊕ String → String := Sum.elim binText columnText

def groupLexemes : TimeWindow ⊕ String → List Lexeme
  | .inl window => [.word "bin", .symbol "(", .word "TimeGenerated", .symbol ",",
      .word window.text, .symbol ")"]
  | .inr field => columnLexemes field

def countLexemes : Counted → List Lexeme
  | .events => [.word "count", .symbol "(", .symbol ")"]
  | .distinct field => .word "dcount" :: .symbol "(" :: columnLexemes field ++ [.symbol ")"]

def byLexemes (aggregation : Aggregation) : List Lexeme :=
  match groups aggregation with
  | [] => []
  | items => .word "by" :: joined [.symbol ","] groupLexemes items

def summarizeLexemes (aggregation : Aggregation) : List Lexeme :=
  .word "summarize" :: .word countName :: .symbol "=" ::
    (countLexemes aggregation.counted ++ byLexemes aggregation)

def thresholdLexemes (aggregation : Aggregation) : List Lexeme :=
  [.word "where", .word countName, .symbol aggregation.comparison.sign,
    .word (toString aggregation.threshold)]

theorem spells_group (item : TimeWindow ⊕ String) :
    Spells quoting (groupText item) (groupLexemes item) := by
  cases item with
  | inr field =>
      exact spells_column field
  | inl window =>
      have field : Spells quoting "TimeGenerated" [.word "TimeGenerated"] :=
        Token.spells_plain (by simp) (by simp [Token.isPlain])
      have inner := Token.connects_comma field (Token.spells_window window)
      have isWord : Token.IsWord quoting "bin".toList :=
        Token.is_word_of_plain (by simp) (by simp [Token.isPlain])
      have whole := Token.spells_call isWord inner
      have split : "bin(TimeGenerated, " = "bin" ++ "(" ++ "TimeGenerated" ++ ", " := by simp
      unfold groupText groupLexemes
      rw [Sum.elim_inl]
      unfold binText
      rw [split]
      simpa only [String.append_assoc, List.cons_append, List.nil_append] using whole

def countText : Counted → String
  | .events => "count()"
  | .distinct field => "dcount(" ++ columnText field ++ ")"

theorem spells_count (counted : Counted) :
    Spells quoting (countText counted) (countLexemes counted) := by
  cases counted with
  | events =>
      have isWord : Token.IsWord quoting "count".toList :=
        Token.is_word_of_plain (by simp) (by simp [Token.isPlain])
      have whole := Token.spells_call isWord Token.spells_empty
      have split : "count()" = "count" ++ "(" ++ "" ++ ")" := by simp
      unfold countText countLexemes
      rw [split]
      exact whole
  | distinct field =>
      unfold countText countLexemes
      exact Token.spells_plain_call (by simp) (by simp) (by simp [Token.isPlain])
        (spells_column field)

def byText (aggregation : Aggregation) : String :=
  if (groups aggregation).isEmpty then ""
  else " by " ++ String.intercalate ", " ((groups aggregation).map groupText)

theorem spells_by {text : String} {lexemes : List Lexeme} (aggregation : Aggregation)
    (spells : Spells quoting text lexemes) :
    Spells quoting (text ++ byText aggregation) (lexemes ++ byLexemes aggregation) := by
  unfold byText byLexemes
  cases groups aggregation with
  | nil => simpa using spells
  | cons first others =>
      have list := Token.spells_intercalate_map Token.connects_comma
        (fun item _ => spells_group item) (List.cons_ne_nil first others)
      have whole := Token.connects_by spells list
      rw [if_neg (by simp), ← String.append_assoc]
      rwa [List.append_assoc, List.singleton_append] at whole

theorem spells_count_name : Spells quoting countName [.word countName] :=
  Token.spells_plain (by simp [countName]) (by simp [countName, Token.isPlain])

theorem spells_summarize (aggregation : Aggregation) :
    Spells quoting ("| summarize " ++ countName ++ " = " ++ countText aggregation.counted ++
      byText aggregation) (.symbol "|" :: summarizeLexemes aggregation) := by
  have keyword : Spells quoting "summarize" [.word "summarize"] :=
    Token.spells_plain (by simp) (by simp [Token.isPlain])
  have named := Token.connects_blank keyword spells_count_name
  have counted := Token.connects_equal named (spells_count aggregation.counted)
  have whole := Token.spells_pipe (spells_by aggregation counted)
  have split : "| summarize " = "| " ++ ("summarize" ++ " ") := by simp
  rw [split]
  simpa only [summarizeLexemes, String.append_assoc, List.append_assoc, List.cons_append,
    List.nil_append] using whole

theorem spells_where {text : String} {lexemes : List Lexeme} (spells : Spells quoting text lexemes) :
    Spells quoting ("| where " ++ text) (.symbol "|" :: .word "where" :: lexemes) := by
  have whole := Token.spells_pipe (@Token.spells_behind_word quoting "where" "where " _ _
    (by simp) (by simp) (by simp [Token.isPlain]) spells)
  have split : "| where " = "| " ++ "where " := by simp
  rw [split]
  simpa only [String.append_assoc] using whole

theorem spells_threshold (aggregation : Aggregation) :
    Spells quoting ("| where " ++ countName ++ " " ++ aggregation.comparison.sign ++ " " ++
      toString aggregation.threshold) (.symbol "|" :: thresholdLexemes aggregation) := by
  have compared := Token.connects_threshold aggregation.comparison spells_count_name
    (Token.spells_uint64 aggregation.threshold)
  have whole := spells_where compared
  simpa only [thresholdLexemes, String.append_assoc, List.append_assoc, List.cons_append,
    List.nil_append] using whole

theorem aggregation_lines (aggregation : Aggregation) :
    aggregationLines aggregation =
      ["| summarize " ++ countName ++ " = " ++ countText aggregation.counted ++ byText aggregation,
        "| where " ++ countName ++ " " ++ aggregation.comparison.sign ++ " " ++
          toString aggregation.threshold] := by
  obtain ⟨counted, groupBy, comparison, threshold, window⟩ := aggregation
  have fields : groupBy.map columnText = (groupBy.map Sum.inr).map groupText := by
    rw [List.map_map]
    rfl
  have bins (window : TimeWindow) :
      "bin(TimeGenerated, " ++ window.text ++ ")" = groupText (Sum.inl window) := by
    unfold groupText
    rw [Sum.elim_inl]
    unfold binText
    rfl
  have empty (items : List (TimeWindow ⊕ String)) :
      (items.map groupText).isEmpty = items.isEmpty := by
    cases items <;> rfl
  have filled {Item : Type} (items : List Item) (last : Item) :
      (items ++ [last]).isEmpty = false := by
    cases items <;> rfl
  unfold aggregationLines byText groups
  cases window with
  | none =>
      simp only [fields, List.append_nil, Option.toList_none, List.map_nil, empty]
      cases counted <;> rfl
  | some window =>
      simp only [fields, bins, Option.toList_some, List.map_cons, List.map_nil, List.map_append,
        filled]
      cases counted <;> rfl

theorem reads_bin {window : TimeWindow} (positive : window.seconds ≠ 0) (next : List Lexeme) :
    Reads groupItem (groupLexemes (.inl window)) (.inl window) next := by
  apply reads_cons
  intro call
  apply reads_cons
  intro opening
  apply reads_cons
  intro field
  apply reads_cons
  intro comma
  apply reads_cons
  intro span
  apply reads_cons
  intro closing
  apply reads_nil
  intro rest _
  have read := TimeWindow.of_text_text positive
  simp [groupItem, takeCall, nextIsCall, bin, column, Parser.takeSign, timeFields, read]

theorem reads_group {item : TimeWindow ⊕ String}
    (positive : ∀ window, item = .inl window → window.seconds ≠ 0) {next : List Lexeme}
    (noCall : next.head? ≠ some (.symbol "(")) :
    Reads groupItem (groupLexemes item) item next := by
  cases item with
  | inl window => exact reads_bin (positive window rfl) next
  | inr field =>
      apply reads_bind_nil
      · exact reads_no_call "bin" field noCall
      · rw [if_neg (by simp)]
        exact reads_bind_last (reads_column field next) (reads_pure _ _)

/-- The name that a count gets without an alias. -/
def resultName : Counted → String
  | .events => "count_"
  | .distinct field => "dcount_" ++ field

theorem reads_count (counted : Counted) (next : List Lexeme) :
    Reads countCall (countLexemes counted) (counted, resultName counted) next := by
  cases counted with
  | events =>
      apply reads_cons
      intro name
      apply reads_cons
      intro opening
      apply reads_cons
      intro closing
      apply reads_nil
      intro rest _
      simp [countCall, resultName]
  | distinct field =>
      apply reads_cons
      intro name
      apply reads_cons
      intro opening tokens rest same follows
      obtain ⟨inside, tail, rfl, insideSame, tailSame⟩ := List.map_eq_append_iff.mp same
      obtain ⟨closing, empty, rfl, emptySame⟩ := Parser.cons_of_lexemes tailSame
      obtain rfl : empty = [] := by simpa using emptySame
      have read := reads_column field (.symbol ")" :: next) inside (⟨.symbol ")", closing⟩ :: rest)
        insideSame (by simp [follows])
      simp [countCall, resultName, read]

def summaryOf (aggregation : Aggregation) : Summary where
  counted := aggregation.counted
  result := countName
  groupBy := aggregation.groupBy
  window := aggregation.window

theorem fold_groups (aggregation : Aggregation) :
    (groups aggregation).foldl Summary.add { counted := aggregation.counted, result := countName } =
      summaryOf aggregation := by
  have fields (groupBy : List String) (summary : Summary) :
      (groupBy.map Sum.inr).foldl Summary.add summary =
        { summary with groupBy := summary.groupBy ++ groupBy } := by
    induction groupBy generalizing summary with
    | nil => simp
    | cons field rest induction => simp [Summary.add, induction]
  obtain ⟨counted, groupBy, comparison, threshold, window⟩ := aggregation
  rw [groups, List.foldl_append, fields]
  cases window with
  | none => simp [summaryOf]
  | some window => simp [summaryOf, Summary.add]

/-- Lexemes that may follow a count. -/
structure EndsSummary (next : List Lexeme) : Prop where
  word : next.head? ≠ some (.word "by")
  call : next.head? ≠ some (.symbol "(")
  comma : next.head? ≠ some (.symbol ",")

theorem reads_group_list {aggregation : Aggregation} (proper : aggregation.Proper)
    {next : List Lexeme} (ends : EndsSummary next) (filled : groups aggregation ≠ []) :
    Reads (Parser.sepBy (Parser.takeSign ",") groupItem)
      (joined [.symbol ","] groupLexemes (groups aggregation)) (groups aggregation) next := by
  have positive : ∀ item ∈ groups aggregation, ∀ window, item = .inl window →
      window.seconds ≠ 0 := by
    rintro item member window rfl
    apply proper.window
    simpa [groups, eq_comm] using member
  have items := Parser.reads_commas (fun next => next.head? ≠ some (.symbol "(")) filled
    (fun item member _ noCall => reads_group (positive item member) noCall) (by simp) ends.call
    ends.comma
  rwa [List.map_id'] at items

theorem reads_groups {aggregation : Aggregation} (proper : aggregation.Proper)
    {next : List Lexeme} (ends : EndsSummary next)
    {continued : List (TimeWindow ⊕ String) → Parser Summary} {summary : Summary}
    (reads : Reads (continued (groups aggregation)) [] summary next) :
    Reads (do
        let items ← if ← Parser.takeIf (Parser.nextIsWord "by") then
            Parser.sepBy (Parser.takeSign ",") groupItem
          else pure []
        continued items)
      (byLexemes aggregation) summary next := by
  have list := reads_group_list proper ends
  unfold byLexemes
  generalize groups aggregation = items at list reads ⊢
  cases items with
  | nil =>
      apply reads_bind_nil
      · exact Parser.reads_no_word ends.word
      · exact reads_bind_nil (reads_pure _ _) reads
  | cons first others =>
      apply reads_bind_cons (Parser.reads_take_word "by" _)
      exact reads_bind_last (list (by simp)) reads

theorem reads_summarize {aggregation : Aggregation} (proper : aggregation.Proper)
    {next : List Lexeme} (ends : EndsSummary next) :
    Reads summarize (.word countName :: .symbol "=" ::
        (countLexemes aggregation.counted ++ byLexemes aggregation)) (summaryOf aggregation) next := by
  have counts : Reads (do
        let count ← countCall
        let items ← if ← Parser.takeIf (Parser.nextIsWord "by") then
            Parser.sepBy (Parser.takeSign ",") groupItem
          else pure []
        return items.foldl Summary.add
          { counted := count.1, result := (some countName).getD count.2 })
      (countLexemes aggregation.counted ++ byLexemes aggregation) (summaryOf aggregation) next := by
    apply reads_bind (reads_count aggregation.counted _)
    apply reads_groups proper ends
    rw [Option.getD_some, fold_groups]
    exact reads_pure _ _
  apply reads_cons
  intro name
  apply reads_cons
  intro equal tokens rest same follows
  have read := counts tokens rest same follows
  simp only [Parser.bind_apply] at read
  simp only [summarize, nextIsNamed, Parser.bind_apply, Parser.sees_apply,
    Parser.next_is_sign_symbol, beq_self_eq_true, if_true, Parser.word_apply, Parser.skip_apply,
    List.drop_succ_cons, List.drop_zero, Parser.pure_apply]
  exact read

theorem reads_threshold (aggregation : Aggregation) (next : List Lexeme) :
    Reads (thresholdOn countName) [.word countName, .symbol aggregation.comparison.sign,
        .word (toString aggregation.threshold)]
      (aggregation.comparison, aggregation.threshold) next := by
  have sign : Comparison.ofSign? aggregation.comparison.sign = some aggregation.comparison := by
    cases aggregation.comparison <;> rfl
  apply reads_cons
  intro name
  apply reads_cons
  intro signOffset
  apply reads_cons
  intro number
  apply reads_nil
  intro rest _
  simp [thresholdOn, Dialect.comparison, Dialect.comparisonOr, sign, Parser.number,
    Text.uint64_of_text]

end DetectionRules.Kql
