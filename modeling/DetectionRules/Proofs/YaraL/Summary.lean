import DetectionRules.Proofs.Named
import DetectionRules.Proofs.YaraL.Placeholder

/-!
Thresholds of YARA-L rules: the match section groups events by placeholders, the
outcome section counts different values, and the condition compares the count.
-/

namespace DetectionRules.YaraL

open Expression (Delimiters EndsDisjunction operand)
open DetectionRules.Parser (Reads reads_bind reads_bind_cons reads_bind_nil reads_bind_last
  reads_pure reads_cons reads_nil)
open Token (Spells SpellsLine joined)

def eventWord : String := "$" ++ eventVariable

def countWord : String := "#" ++ eventVariable

def outcomeWord : String := "$" ++ distinctOutcome

def matchLexemes (aggregation : Aggregation) (window : TimeWindow) : List Lexeme :=
  joined [.symbol ","] (fun binding => [.word ("$" ++ binding.1)]) (bound aggregation) ++
    [.word "over", .word window.text]

def outcomeLexemes : Counted → List Lexeme
  | .events => []
  | .distinct field => [.word "outcome:", .word outcomeWord, .symbol "=", .word "count_distinct",
      .symbol "(", .word (pathWord field), .symbol ")"]

def limitLexemes (aggregation : Aggregation) : List Lexeme :=
  [.symbol aggregation.comparison.singleSign, .word (toString aggregation.threshold)]

def conditionLexemes : Option Aggregation → List Lexeme
  | none => [.word eventWord]
  | some aggregation =>
      match aggregation.counted with
      | .events => .word countWord :: limitLexemes aggregation
      | .distinct _ => [.word eventWord, .word "and", .word outcomeWord] ++ limitLexemes aggregation

def matchText (aggregation : Aggregation) (window : TimeWindow) : String :=
  String.intercalate ", " ((placeholders [] aggregation.groupBy).map ("$" ++ ·)) ++ " over " ++
    window.text

def outcomeText (field : String) : String :=
  outcomeWord ++ " = count_distinct(" ++ pathWord field ++ ")"

def outcomeTexts : Counted → List String
  | .events => []
  | .distinct field => [outcomeText field]

def conditionText : Option Aggregation → String
  | none => eventWord
  | some aggregation =>
      let limit := aggregation.comparison.singleSign ++ " " ++ toString aggregation.threshold
      match aggregation.counted with
      | .events => countWord ++ " " ++ limit
      | .distinct _ => eventWord ++ " and " ++ outcomeWord ++ " " ++ limit

/-- Aggregations that can be written. -/
structure Summarizes (aggregation : Aggregation) (window : TimeWindow) : Prop where
  grouped : aggregation.groupBy ≠ []
  paths : ∀ field ∈ aggregation.fields, isFieldPath field = true
  window : aggregation.window = some window

theorem Summarizes.group_paths {aggregation : Aggregation} {window : TimeWindow}
    (summarizes : Summarizes aggregation window) :
    ∀ field ∈ aggregation.groupBy, isFieldPath field = true := by
  intro field member
  apply summarizes.paths field
  cases found : aggregation.counted with
  | events => simpa [Aggregation.fields, found] using member
  | distinct counted => simpa [Aggregation.fields, found] using .inl member

theorem aggregation_sections_ok {aggregation : Aggregation} {sections : Sections}
    (written : aggregationSections aggregation = .ok sections) :
    ∃ window, Summarizes aggregation window ∧ sections =
      { bindings := (bound aggregation).map bindingText
        matchLines := [matchText aggregation window]
        outcomeLines := outcomeTexts aggregation.counted
        condition := conditionText (some aggregation) } := by
  obtain ⟨counted, groupBy, comparison, threshold, window⟩ := aggregation
  cases window with
  | none =>
      cases groupBy <;> cases written
  | some window =>
      match groupBy with
      | [] => cases written
      | field :: rest =>
          rw [aggregationSections] at written
          simp only at written
          obtain ⟨⟨lines, names⟩, bindingsWritten, written⟩ := Success.of_bind written
          obtain ⟨paths, rfl, rfl⟩ := bindings_ok bindingsWritten
          cases counted with
          | events =>
              cases written
              refine ⟨window, ⟨by simp, by simpa [Aggregation.fields] using paths, rfl⟩, ?_⟩
              rfl
          | distinct counted =>
              obtain ⟨path, pathWritten, written⟩ := Success.of_bind written
              obtain ⟨known, rfl⟩ := path_text_ok pathWritten
              cases written
              refine ⟨window, ⟨by simp, ?_, rfl⟩, rfl⟩
              intro other member
              rcases List.mem_append.mp member with member | member
              · exact paths other member
              · obtain rfl := List.mem_singleton.mp member
                exact known

theorem spells_dollar {name : String} (parts : ∀ c ∈ name.toList, Named.isNamePart c = true) :
    Spells quoting ("$" ++ name) [.word ("$" ++ name)] := by
  apply Token.spells_plain (by simp)
  intro c member
  rw [String.toList_append] at member
  rcases List.mem_append.mp member with member | member
  · obtain rfl : c = '$' := by simpa using member
    decide
  · exact Named.plain_of_name_part (parts c member)

theorem spells_word_of {word : String} (filled : word.toList ≠ [])
    (plain : word.toList.all Token.isPlain = true) : Spells quoting word [.word word] :=
  Token.spells_plain filled (List.all_eq_true.mp plain)

theorem bound_ne_nil {aggregation : Aggregation} {window : TimeWindow}
    (summarizes : Summarizes aggregation window) : bound aggregation ≠ [] := by
  intro empty
  have fields := bound_fields aggregation
  rw [empty] at fields
  exact summarizes.grouped fields.symm

theorem parts_of_bound {aggregation : Aggregation} {binding : String × String}
    (member : binding ∈ bound aggregation) :
    ∀ c ∈ binding.1.toList, Named.isNamePart c = true := by
  have place := List.mem_map_of_mem (f := (·.1)) member
  rw [bound_placeholders] at place
  exact placeholders_parts binding.1 place

theorem spells_match {aggregation : Aggregation} {window : TimeWindow}
    (summarizes : Summarizes aggregation window) :
    Spells quoting (matchText aggregation window) (matchLexemes aggregation window) := by
  have list := Token.spells_intercalate_map Token.connects_comma
    (fun binding member => spells_dollar (parts_of_bound member)) (bound_ne_nil summarizes)
  have names : (bound aggregation).map (fun binding => "$" ++ binding.1) =
      (placeholders [] aggregation.groupBy).map ("$" ++ ·) := by
    rw [← bound_placeholders, List.map_map]
    rfl
  rw [names] at list
  have connects : Token.Connects quoting " over " [.word "over"] :=
    Token.connects_plain (by simp) (by simp) (by simp [Token.isPlain])
  have whole := connects list (Token.spells_window window)
  rwa [List.append_assoc] at whole

theorem spells_outcome {field : String} (known : isFieldPath field = true) :
    Spells quoting (outcomeText field) (outcomeLexemes (.distinct field)).tail := by
  have isWord : Token.IsWord quoting "count_distinct".toList :=
    Token.is_word_of_plain (by simp) (by simp [Token.isPlain])
  have name : Spells quoting outcomeWord [.word outcomeWord] :=
    spells_word_of (by decide) (by decide)
  have whole := Token.connects_equal name (Token.spells_call isWord (spells_path known))
  have split : " = count_distinct(" = " = " ++ ("count_distinct" ++ "(") := by simp
  unfold outcomeText
  rw [split]
  simpa only [outcomeLexemes, List.tail_cons, String.append_assoc, List.append_assoc,
    List.cons_append, List.nil_append] using whole

theorem spells_limit {text : String} {lexemes : List Lexeme} (aggregation : Aggregation)
    (spells : Spells quoting text lexemes) :
    Spells quoting (text ++ " " ++ (aggregation.comparison.singleSign ++ " " ++
      toString aggregation.threshold)) (lexemes ++ limitLexemes aggregation) := by
  have whole := Token.connects_single_threshold aggregation.comparison spells
    (Token.spells_uint64 aggregation.threshold)
  simpa only [limitLexemes, String.append_assoc, List.append_assoc, List.cons_append,
    List.nil_append] using whole

theorem spells_condition (aggregation : Option Aggregation) :
    Spells quoting (conditionText aggregation) (conditionLexemes aggregation) := by
  have event : Spells quoting eventWord [.word eventWord] :=
    spells_word_of (by decide) (by decide)
  have count : Spells quoting countWord [.word countWord] :=
    spells_word_of (by decide) (by decide)
  have outcome : Spells quoting outcomeWord [.word outcomeWord] :=
    spells_word_of (by decide) (by decide)
  cases aggregation with
  | none => exact event
  | some aggregation =>
      rw [conditionText, conditionLexemes]
      cases aggregation.counted with
      | events => exact spells_limit aggregation count
      | distinct field => exact spells_limit aggregation (Token.connects_and event outcome)

theorem reads_match_variable {known : List (String × String)} {placeholder field : String}
    (parts : ∀ c ∈ placeholder.toList, Named.isNamePart c = true)
    (found : known.lookup placeholder = some field) (next : List Lexeme) :
    Reads (matchVariable known) [.word ("$" ++ placeholder)] field next := by
  have undotted : ∀ c ∈ placeholder.toList, (c != '.') = true := by
    intro c member
    have part := parts c member
    rw [bne_iff_ne]
    rintro rfl
    revert part
    decide
  have after : after? '$' ("$" ++ placeholder) = some placeholder := by simp [after?]
  have noPath : path? ("$" ++ placeholder) = none := by
    have rest : placeholder.toList.dropWhile (· != '.') = [] := List.dropWhile_eq_nil_iff.mpr undotted
    simp [path?, after, rest]
  apply reads_cons
  intro offset
  apply reads_nil
  intro rest _
  simp [matchVariable, noPath, after, found]

theorem reads_match {aggregation : Aggregation} {window : TimeWindow}
    (summarizes : Summarizes aggregation window) (positive : window.seconds ≠ 0)
    (next : List Lexeme) :
    Reads (matchSection (bound aggregation)) (matchLexemes aggregation window)
      (aggregation.groupBy, window) next := by
  have fields : Reads (Parser.sepBy (Parser.takeSign ",") (matchVariable (bound aggregation)))
      (joined [.symbol ","] (fun binding => [.word ("$" ++ binding.1)]) (bound aggregation))
      ((bound aggregation).map (·.2)) (.word "over" :: .word window.text :: next) :=
    Parser.reads_commas (fun _ => True) (bound_ne_nil summarizes)
      (fun _ member following _ =>
        reads_match_variable (parts_of_bound member) (lookup_bound member) following)
      (fun _ => trivial) trivial (by simp)
  rw [bound_fields] at fields
  apply reads_bind fields
  apply reads_cons
  intro word
  apply reads_cons
  intro offset
  apply reads_nil
  intro rest _
  simp [TimeWindow.of_text_text positive]

theorem reads_outcome {field : String} (known : isFieldPath field = true) (next : List Lexeme) :
    Reads outcome (outcomeLexemes (.distinct field)).tail
      (some (distinctOutcome, some field)) next := by
  have name : (after? '$' outcomeWord).filter Named.isIdentifier = some distinctOutcome := by decide
  have other : atSectionOrEnd = fun tokens => tokens.isEmpty || atSection tokens := rfl
  apply reads_cons
  intro word
  apply reads_cons
  intro equal
  apply reads_cons
  intro call
  apply reads_cons
  intro opening
  apply reads_cons
  intro path
  apply reads_cons
  intro closing
  apply reads_nil
  intro rest _
  have goesOn (others : List Token) : atSection (⟨.word outcomeWord, word⟩ :: others) = false := by
    simp [atSection, outcomeWord, distinctOutcome]
  simp [outcome, other, goesOn, name, Parser.secondIsSign, YaraL.path, path_of_word known]

theorem reads_no_outcome (next : List Lexeme) :
    Reads outcome [] none (.word "condition:" :: next) := by
  apply reads_nil
  intro rest follows
  obtain ⟨offset, others, rfl, _⟩ := Parser.cons_of_lexemes follows
  simp [outcome, atSectionOrEnd, atSection]

def outcomesOf : Counted → Option (List (String × Option String))
  | .events => none
  | .distinct field => some [(distinctOutcome, some field)]

theorem reads_outcomes {counted : Counted}
    (paths : ∀ field, counted = .distinct field → isFieldPath field = true) (next : List Lexeme) :
    Reads (optionalSection "outcome:" (Parser.many outcome)) (outcomeLexemes counted)
      (outcomesOf counted) (.word "condition:" :: next) := by
  cases counted with
  | events => exact reads_bind_last (Parser.reads_no_word (by simp)) (reads_pure _ _)
  | distinct field =>
      have known := paths field rfl
      have many : Reads (Parser.many outcome) (outcomeLexemes (.distinct field)).tail
          [(distinctOutcome, some field)] (.word "condition:" :: next) := by
        have each := @Parser.reads_many _ _ [] (.word "condition:" :: next)
          (fun field => (outcomeLexemes (.distinct field)).tail) outcome
          (fun field => (distinctOutcome, some field)) [field] (by simp [outcomeLexemes])
          ⟨reads_outcome known _, trivial⟩ (reads_no_outcome next)
        simpa [Token.behind] using each
      apply reads_bind_cons (Parser.reads_take_word "outcome:" _)
      exact reads_bind_last many (reads_pure _ _)

def closes : List Token → Bool := Parser.nextIsSign "\x7d"

theorem condition_delimiters : Delimiters conditionConnectives closes [.word "or"] where
  filled := by simp
  disjoins := fun next => Expression.reads_disjunction_word fun offset rest => by
    simp [Expression.Connectives.nextIsDisjunction, Expression.Connectives.nextIs,
      conditionConnectives, eventConnectives]
  divides := fun next => Expression.ends_conjunction_of_word rfl rfl
    (by simp [conditionConnectives, eventConnectives])
  opening := fun offset rest => by
    simp [closes, Expression.Connectives.nextIsNegation, Expression.Connectives.nextIs,
      conditionConnectives, eventConnectives]
  closing := fun next => Expression.ends_disjunction_of_word rfl rfl (by simp) (by simp)

theorem ends_condition (next : List Lexeme) :
    EndsDisjunction conditionConnectives closes (.symbol "\x7d" :: next) :=
  Expression.ends_disjunction_of_word rfl rfl (by simp) (by simp)

theorem begins_requirement {word : String} (known : word ∈ [eventWord, countWord, outcomeWord]) :
    Expression.BeginsTerm conditionConnectives closes (.word word) := by
  refine ⟨by simp, fun offset rest => ⟨rfl, ?_⟩⟩
  have other : word ≠ "not" := by
    rintro rfl
    revert known
    decide
  simp [Expression.Connectives.nextIsNegation, Expression.Connectives.nextIs,
    conditionConnectives, eventConnectives, other]

def thresholdOf (aggregation : Aggregation) : Threshold :=
  ⟨aggregation.counted, aggregation.comparison, aggregation.threshold⟩

theorem reads_threshold {passed : List Token} (plain : passed.any isComparison = false)
    (offset : Option Nat) (aggregation : Aggregation) (next : List Lexeme) :
    Reads (threshold passed offset aggregation.counted) (limitLexemes aggregation)
      (thresholdOf aggregation) next := by
  have sign : Comparison.ofSign? aggregation.comparison.singleSign = some aggregation.comparison := by
    cases aggregation.comparison <;> rfl
  have number := Text.uint64_of_text aggregation.threshold
  apply reads_cons
  intro signOffset
  apply reads_cons
  intro numberOffset
  apply reads_nil
  intro rest _
  simp [threshold, plain, Dialect.comparisonOr, sign, Parser.number, number, thresholdOf]

theorem reads_occurs (outcomes : List (String × Option String)) (condition : List Token)
    (next : List Lexeme) :
    Reads (requirement [eventVariable] outcomes condition) [.word eventWord]
      (.term (.occurs eventVariable)) next := by
  have noCount : after? '#' eventWord = none := by decide
  have event : after? '$' eventWord = some eventVariable := by decide
  apply reads_cons
  intro offset
  apply reads_nil
  intro rest _
  simp [requirement, noCount, event]

/-- The tokens that a condition has passed when so many lexemes are left of it. -/
theorem passed_plain {condition tokens : List Token} {before after : List Lexeme}
    (whole : condition.map (·.lexeme) = before ++ after) (left : tokens.map (·.lexeme) = after)
    (plain : ∀ lexeme ∈ before, ∃ word, lexeme = .word word) :
    (condition.take (condition.length - tokens.length)).any isComparison = false := by
  have lengths := congrArg List.length whole
  have leftLength := congrArg List.length left
  simp only [List.length_map, List.length_append] at lengths leftLength
  have count : condition.length - tokens.length = before.length := by omega
  rw [count, List.any_eq_false]
  intro token member
  have place : token.lexeme ∈ before := by
    have taken := List.mem_map_of_mem (f := (·.lexeme)) member
    rwa [List.map_take, whole, List.take_left] at taken
  obtain ⟨word, same⟩ := plain token.lexeme place
  simp [isComparison, same]

theorem reads_counts {aggregation : Aggregation} {outcomes : List (String × Option String)}
    {condition : List Token} {next : List Lexeme} (counted : aggregation.counted = .events)
    (whole : condition.map (·.lexeme) = .word countWord :: limitLexemes aggregation ++ next) :
    Reads (requirement [eventVariable] outcomes condition)
      (.word countWord :: limitLexemes aggregation)
      (.term (.counts eventVariable (thresholdOf aggregation))) next := by
  have count : after? '#' countWord = some eventVariable := by decide
  intro tokens rest same follows
  have plain := @passed_plain condition (tokens ++ rest) [] _ whole
    (by rw [List.map_append, same, follows]; rfl) (by simp)
  obtain ⟨offset, others, rfl, otherSame⟩ := Parser.cons_of_lexemes same
  have read := reads_threshold plain (some offset) aggregation next others rest otherSame follows
  rw [counted] at read
  rw [List.cons_append] at read ⊢
  simp only [requirement, Parser.bind_apply, Parser.get_apply, Parser.word_at_apply, count,
    List.contains_cons, BEq.rfl, Bool.true_or, Bool.not_true, Bool.false_eq_true, if_false,
    Parser.pure_apply, read]

theorem reads_counts_values {aggregation : Aggregation} {condition : List Token} {field : String}
    {next : List Lexeme} (counted : aggregation.counted = .distinct field)
    (whole : condition.map (·.lexeme) = [.word eventWord, .word "and"] ++
      (.word outcomeWord :: limitLexemes aggregation ++ next)) :
    Reads (requirement [eventVariable] [(distinctOutcome, some field)] condition)
      (.word outcomeWord :: limitLexemes aggregation)
      (.term (.countsValues (thresholdOf aggregation))) next := by
  have noCount : after? '#' outcomeWord = none := by decide
  have name : after? '$' outcomeWord = some distinctOutcome := by decide
  have noEvent : [eventVariable].contains distinctOutcome = false := by decide
  intro tokens rest same follows
  have plain := @passed_plain condition (tokens ++ rest) _ _ whole
    (by rw [List.map_append, same, follows]) (by simp)
  obtain ⟨offset, others, rfl, otherSame⟩ := Parser.cons_of_lexemes same
  have read := reads_threshold plain (some offset) aggregation next others rest otherSame follows
  rw [counted] at read
  rw [List.cons_append] at read ⊢
  simp only [requirement, Parser.bind_apply, Parser.get_apply, Parser.word_at_apply, noCount, name,
    noEvent, Bool.false_eq_true, if_false, List.lookup_cons_self, read, Parser.pure_apply]

/-- What the condition asks for. -/
def requirementTree : Option Aggregation → Logic Requirement
  | none => .term (.occurs eventVariable)
  | some aggregation =>
      match aggregation.counted with
      | .events => .term (.counts eventVariable (thresholdOf aggregation))
      | .distinct _ => .all [.term (.occurs eventVariable),
          .term (.countsValues (thresholdOf aggregation))]

theorem reads_requirement {word : String} {tail next : List Lexeme} {result : Logic Requirement}
    {atom : Parser (Logic Requirement)} (known : word ∈ [eventWord, countWord, outcomeWord])
    (reads : Reads atom (.word word :: tail) result next) :
    Reads (operand conditionConnectives closes atom (Expression.maxDepth + 1)) (.word word :: tail)
      result next :=
  Expression.reads_term ⟨_, rfl, begins_requirement known⟩ reads

theorem reads_sole {atom : Parser (Logic Requirement)} {word : String} {tail next : List Lexeme}
    {requirement : Requirement} (known : word ∈ [eventWord, countWord, outcomeWord])
    (reads : Reads atom (.word word :: tail) (.term requirement) (.symbol "\x7d" :: next)) :
    Reads (Expression.parse conditionConnectives closes atom) (.word word :: tail)
      (.term requirement) (.symbol "\x7d" :: next) := by
  have ends := ends_condition next
  apply Expression.reads_disjunct condition_delimiters (.term _) _ ends
  have alone := @Expression.reads_conjunction _ _ closes _ [] _ (fun _ => .word word :: tail)
    (fun _ => .term requirement) _ () [] (by simp)
    (reads_requirement known reads) trivial ends.toEndsConjunction
  simpa [joined, Token.behind, Logic.conj_single (.term requirement)] using alone

theorem reads_condition {aggregation : Option Aggregation} {condition : List Token}
    {next : List Lexeme}
    (whole : condition.map (·.lexeme) =
      conditionLexemes aggregation ++ .symbol "\x7d" :: next) :
    Reads (Expression.parse conditionConnectives closes (requirement [eventVariable]
        ((aggregation.bind fun aggregation => outcomesOf aggregation.counted).getD []).reverse
        condition))
      (conditionLexemes aggregation) (requirementTree aggregation) (.symbol "\x7d" :: next) := by
  cases aggregation with
  | none => exact reads_sole (by simp) (reads_occurs _ _ _)
  | some aggregation =>
      rw [conditionLexemes] at whole ⊢
      rw [requirementTree, Option.bind_some]
      cases counted : aggregation.counted with
      | events =>
          rw [counted] at whole
          exact reads_sole (by simp) (reads_counts counted whole)
      | distinct field =>
          rw [counted] at whole
          have ends := ends_condition next
          have occurs := reads_occurs [(distinctOutcome, some field)] condition
            ([.word "and"] ++ (.word outcomeWord :: limitLexemes aggregation) ++
              .symbol "\x7d" :: next)
          have counts := reads_counts_values counted (by simpa using whole)
          have nextAnd (offset : Nat) (rest : List Token) :
              conditionConnectives.nextIsConjunction (⟨.word "and", offset⟩ :: rest) = true := by
            simp [Expression.Connectives.nextIsConjunction, Expression.Connectives.nextIs,
              conditionConnectives, eventConnectives]
          have both := @Expression.reads_conjunction _ conditionConnectives closes
            (List Lexeme × Logic Requirement) [.word "and"] (.symbol "\x7d" :: next) (·.1) (·.2) _
            ([.word eventWord], .term (.occurs eventVariable))
            [(.word outcomeWord :: limitLexemes aggregation,
              .term (.countsValues (thresholdOf aggregation)))]
            (by simp) (reads_requirement (by simp) occurs)
            ⟨Expression.reads_conjunct nextAnd (reads_requirement (by simp) counts), trivial⟩
            ends.toEndsConjunction
          apply Expression.reads_disjunct condition_delimiters _ _ ends
          · refine .all (by simp) ?_ ?_
            · intro item member
              simp only [List.mem_cons, List.not_mem_nil, or_false] at member
              rcases member with rfl | rfl
              · exact .term _
              · exact .term _
            · intro item member
              simp only [List.mem_cons, List.not_mem_nil, or_false] at member
              rcases member with rfl | rfl
              · rfl
              · rfl
          · exact both

end DetectionRules.YaraL
