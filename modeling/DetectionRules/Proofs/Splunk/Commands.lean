import DetectionRules.Proofs.Splunk.Filter

/-!
The commands behind a search. A conjunct that only asks for regular expressions
is a command of its own: `regex` for one pattern and its negation, `where` for
patterns of which one is to match.
-/

namespace DetectionRules.Splunk

open Expression (EndsDisjunction)
open DetectionRules.Parser (Reads reads_bind reads_bind_cons reads_bind_nil reads_bind_last
  reads_bind_offset reads_pure reads_cons reads_nil)
open Token (Spells joined)

structure Pattern where
  field : String
  body : String

namespace Pattern

def test (pattern : Pattern) : FieldTest := .single pattern.field .regex (.str pattern.body)

def callText (pattern : Pattern) : String :=
  "match(" ++ pattern.field ++ ", " ++ Text.doubleQuote pattern.body ++ ")"

def callLexemes (pattern : Pattern) : List Lexeme :=
  [.word "match", .symbol "(", .word pattern.field, .symbol ",", .quoted pattern.body, .symbol ")"]

/-- What reading a pattern back takes. -/
structure Readable (pattern : Pattern) : Prop where
  field : Token.IsWord quoting pattern.field.toList
  body : Regex.isValid pattern.body = true

end Pattern

def patterns (test : FieldTest) : List Pattern := test.values.map fun value => ⟨test.field, value.text⟩

/-- A filter that is written behind the search. -/
inductive Command where
  | one (negated : Bool) (pattern : Pattern)
  | either (patterns : List Pattern)

namespace Command

def patterns : Command → List Pattern
  | one _ pattern => [pattern]
  | either patterns => patterns

def text : Command → String
  | one negated pattern => "regex " ++ pattern.field ++ (if negated then "!=" else "=") ++
      Text.doubleQuote pattern.body
  | either patterns => whereAny (patterns.map Pattern.callText)

def lexemes : Command → List Lexeme
  | one negated pattern => [.word "regex", .word pattern.field,
      .symbol (if negated then "!=" else "="), .quoted pattern.body]
  | either patterns => .word "where" :: joined [.word "OR"] Pattern.callLexemes patterns

/-- What is read back for a command. -/
def tree : Command → Logic FieldTest
  | one false pattern => .term pattern.test
  | one true pattern => .not (.term pattern.test)
  | either patterns => Logic.disj (patterns.map fun pattern => .term pattern.test)

end Command

/-- The command that a conjunct is written as. -/
def commandOf? : Logic FieldTest → Option Command
  | .term test =>
      if test.op = .regex then
        match patterns test with
        | [pattern] => some (.one false pattern)
        | patterns => some (.either patterns)
      else none
  | .not (.term test) =>
      match test.op, patterns test with
      | .regex, [pattern] => some (.one true pattern)
      | _, _ => none
  | .any items => do
      let tests ← items.mapM Logic.term?
      if tests.all (·.op = .regex) then some (.either (tests.flatMap patterns)) else none
  | _ => none

theorem match_calls_eq (test : FieldTest) : matchCalls test = (patterns test).map Pattern.callText := by
  rw [matchCalls, patterns, List.map_map]
  rfl

theorem command_eq (item : Logic FieldTest) : command? item = (commandOf? item).map Command.text := by
  cases item with
  | term test =>
      obtain ⟨field, op, values⟩ := test
      rw [command?, commandOf?]
      split
      · rcases values with _ | ⟨first, _ | ⟨second, others⟩⟩
        · rfl
        · rfl
        · simp only [match_calls_eq]
          rfl
      · rfl
  | all items => rfl
  | any items =>
      rw [command?, commandOf?]
      cases found : items.mapM Logic.term? with
      | none => rfl
      | some tests =>
          have calls : tests.flatMap matchCalls = (tests.flatMap patterns).map Pattern.callText := by
            rw [List.map_flatMap]
            exact List.flatMap_congr fun test _ => match_calls_eq test
          simp only [Option.bind_eq_bind, Option.bind_some, calls]
          split <;> rfl
  | not item =>
      cases item with
      | term test =>
          obtain ⟨field, op, values⟩ := test
          cases op <;> rcases values with _ | ⟨first, _ | ⟨second, others⟩⟩ <;> rfl
      | all items => rfl
      | any items => rfl
      | not item => rfl

inductive IsCommand : Logic FieldTest → Command → Prop where
  | one {test : FieldTest} {pattern : Pattern} (regex : test.op = .regex)
      (single : patterns test = [pattern]) : IsCommand (.term test) (.one false pattern)
  | negated {test : FieldTest} {pattern : Pattern} (regex : test.op = .regex)
      (single : patterns test = [pattern]) : IsCommand (.not (.term test)) (.one true pattern)
  | several {test : FieldTest} (regex : test.op = .regex) :
      IsCommand (.term test) (.either (patterns test))
  | either {tests : List FieldTest} (regex : ∀ test ∈ tests, test.op = .regex) :
      IsCommand (.any (tests.map .term)) (.either (tests.flatMap patterns))

theorem is_command {item : Logic FieldTest} {command : Command}
    (found : commandOf? item = some command) : IsCommand item command := by
  cases item with
  | term test =>
      rw [commandOf?] at found
      split at found
      · rename_i regex
        split at found
        · rename_i pattern single
          cases found
          exact .one regex single
        · cases found
          exact .several regex
      · cases found
  | all items => cases found
  | any items =>
      rw [commandOf?] at found
      obtain ⟨tests, terms, found⟩ := Option.bind_eq_some_iff.mp found
      split at found
      · rename_i regex
        cases found
        rw [Expression.map_m_term terms]
        exact .either (by simpa using regex)
      · cases found
  | not item =>
      cases item with
      | term test =>
          rw [commandOf?] at found
          split at found
          · rename_i pattern regex single
            cases found
            exact .negated regex single
          · cases found
      | all items => cases found
      | any items => cases found
      | not item => cases found

theorem test_tree_patterns {test : FieldTest} (regex : test.op = .regex) :
    testTree test = Logic.disj ((patterns test).map fun pattern => .term pattern.test) := by
  rw [test_tree_alternatives (by rw [regex]; rfl), patterns, List.map_map, regex]
  rfl

theorem tree_of_command {item : Logic FieldTest} {command : Command}
    (isCommand : IsCommand item command) : item.bind testTree = command.tree := by
  cases isCommand with
  | one regex single =>
      rw [Logic.bind, test_tree_patterns regex, single]
      exact Logic.disj_single (.term _)
  | negated regex single =>
      rw [Logic.bind, Logic.bind, test_tree_patterns regex, single, List.map_singleton,
        Logic.disj_single (.term _)]
      rfl
  | several regex =>
      rw [Logic.bind]
      exact test_tree_patterns regex
  | @either tests regex =>
      have trees : ∀ test ∈ tests, (Logic.bind testTree ∘ Logic.term) test =
          Logic.disj ((patterns test).map fun pattern => .term pattern.test) :=
        fun test member => test_tree_patterns (regex test member)
      rw [Logic.bind, Logic.bind_all, List.map_map, List.map_congr_left trees, Command.tree,
        List.map_flatMap, Logic.disj_map_disj]
      intro test _ part member
      obtain ⟨pattern, _, rfl⟩ := List.mem_map.mp member
      exact .term _

theorem patterns_of_command {item : Logic FieldTest} {command : Command}
    (isCommand : IsCommand item command) :
    command.patterns = item.terms.flatMap patterns ∧ ∀ test ∈ item.terms, test.op = .regex := by
  cases isCommand with
  | one regex single => simp [Logic.terms, Command.patterns, regex, single]
  | negated regex single => simp [Logic.terms, Command.patterns, regex, single]
  | several regex => simp [Logic.terms, Command.patterns, regex]
  | @either tests regex =>
      have same : (Logic.any (tests.map Logic.term)).terms = tests := by
        rw [Logic.terms, Logic.terms_of_all, List.flatMap_map]
        simp [Logic.terms]
      rw [same]
      exact ⟨rfl, regex⟩

theorem spells_call {pattern : Pattern} (isWord : Token.IsWord quoting pattern.field.toList) :
    Spells quoting pattern.callText pattern.callLexemes := by
  have arguments := Token.connects_comma (Token.spells_word isWord)
    (Token.spells_double_quote pattern.body)
  have whole := @Token.spells_plain_call quoting "match" "match(" _ _ (by simp) (by simp)
    (by simp [Token.isPlain]) arguments
  rw [Pattern.callText]
  simpa only [Pattern.callLexemes, String.append_assoc, List.cons_append, List.nil_append] using whole

theorem spells_command {command : Command} (filled : command.patterns ≠ [])
    (readable : ∀ pattern ∈ command.patterns, pattern.Readable) :
    Spells quoting command.text command.lexemes := by
  cases command with
  | one negated pattern =>
      have isWord := (readable pattern (by simp [Command.patterns])).field
      have compared := @Token.spells_compared quoting pattern.field (if negated then "!=" else "=")
        _ _ isWord (by cases negated <;> simp) ⟨'"', by simp [Text.doubleQuote], by decide⟩
        (Token.spells_double_quote pattern.body)
      have whole := @Token.spells_behind_word quoting "regex" "regex " _ _ (by simp) (by simp)
        (by simp [Token.isPlain]) compared
      rw [Command.text]
      simpa only [Command.lexemes, String.append_assoc] using whole
  | either patterns =>
      have calls := Token.spells_intercalate_map connects_or
        (fun pattern member => spells_call (readable pattern member).field) filled
      rw [Command.text, whereAny]
      exact Token.spells_behind_word (by simp) (by simp) (by simp [Token.isPlain]) calls

theorem reads_regular_expression {body : String} (valid : Regex.isValid body = true)
    (next : List Lexeme) : Reads regularExpression [.quoted body] (.str body) next := by
  apply Parser.reads_bind_quoted
  intro offset
  apply reads_bind_nil (Dialect.reads_ensure_regex_or valid _ _ _)
  exact reads_pure _ _

theorem reads_pattern {pattern : Pattern} (valid : Regex.isValid pattern.body = true)
    (negated : Bool) (next : List Lexeme) :
    Reads regexCommand [.word pattern.field, .symbol (if negated then "!=" else "="),
      .quoted pattern.body] (Command.one negated pattern).tree next := by
  have body := reads_regular_expression valid next
  apply reads_cons
  intro fieldOffset
  apply reads_cons
  intro signOffset tokens rest same follows
  cases negated <;>
    simp [regexCommand, Parser.takeSign, body tokens rest same follows, Command.tree,
      Logic.negate, Pattern.test]

theorem reads_call {pattern : Pattern} (valid : Regex.isValid pattern.body = true)
    (next : List Lexeme) : Reads matchCall pattern.callLexemes (.term pattern.test) next := by
  apply reads_bind_cons (Parser.reads_keyword "match" _)
  apply reads_bind_cons (Parser.reads_sign "(" _)
  apply reads_bind_cons (Parser.reads_word "a field" _ _)
  apply reads_bind_cons (Parser.reads_sign "," _)
  apply reads_bind_cons (reads_regular_expression valid _)
  exact reads_bind_last (Parser.reads_sign ")" _) (reads_pure _ _)

theorem reads_calls {pattern : Pattern} {patterns : List Pattern}
    (valid : ∀ known ∈ pattern :: patterns, Regex.isValid known.body = true)
    {next : List Lexeme} (ends : EndsDisjunction connectives atPipe next) :
    Reads (Expression.parse connectives atPipe matchCall)
      (joined [.word "OR"] Pattern.callLexemes (pattern :: patterns))
      (Command.either (pattern :: patterns)).tree next := by
  refine Expression.reads_either delimiters (fun _ => .term _) ?_ ends
  apply Parser.along_of_forall
  intro known member following
  refine Expression.reads_term ⟨_, rfl, by simp, fun offset rest => ⟨rfl, ?_⟩⟩
    (reads_call (valid known member) following)
  simp [Expression.Connectives.nextIsNegation, Expression.Connectives.nextIs, connectives]

theorem reads_filter {command : Command} (filled : command.patterns ≠ [])
    (valid : ∀ pattern ∈ command.patterns, Regex.isValid pattern.body = true) (query : Search)
    {next : List Lexeme} (ends : EndsDisjunction connectives atPipe next) :
    Reads (Splunk.command query) command.lexemes (query.filter command.tree) next := by
  have regex : Text.lower "regex" = "regex" := by decide
  have whereWord : Text.lower "where" = "where" := by decide
  cases command with
  | one negated pattern =>
      apply Parser.reads_bind_word_at
      intro offset
      simp only [regex]
      exact reads_bind_last (reads_pattern (valid pattern (by simp [Command.patterns])) negated next)
        (reads_pure _ _)
  | either patterns =>
      obtain ⟨pattern, others, rfl⟩ := List.exists_cons_of_ne_nil filled
      have called : Reads (Parser.sees nextIsMatch) [] true
          (joined [.word "OR"] Pattern.callLexemes (pattern :: others) ++ next) := by
        apply Parser.reads_sees
        intro tokens same
        obtain ⟨offset, rest, rfl, afterName⟩ := Parser.cons_of_lexemes same
        obtain ⟨place, rest, rfl, _⟩ := Parser.cons_of_lexemes afterName
        simp [nextIsMatch]
      apply Parser.reads_bind_word_at
      intro offset
      simp only [whereWord]
      apply reads_bind_nil called
      exact reads_bind_last (reads_calls valid ends) (reads_pure _ _)

/-- Commands end before a pipe or at the end of the text. -/
abbrev EndsCommand (next : List Lexeme) : Prop := ∀ lexeme ∈ next.head?, lexeme = .symbol "|"

theorem at_pipe_or_end {next : List Lexeme} (ends : EndsCommand next) {tokens : List Token}
    (same : tokens.map (·.lexeme) = next) : atPipeOrEnd tokens = true := by
  rcases tokens with _ | ⟨⟨lexeme, offset⟩, rest⟩
  · rfl
  · obtain rfl := ends lexeme (by simp [← same])
    rfl

theorem ends_search {next : List Lexeme} (ends : EndsCommand next) :
    EndsDisjunction connectives atPipe next := by
  apply ends_disjunction
  · intro lexeme start
    rw [ends lexeme start]
    simp [IsBoundary]
  · intro start
    cases ends _ start

/-- The repeated step of a query. -/
def nextCommand? (query : Search) : Parser (Option Search) := do
  if ← Parser.takeSign "|" then return some (← Splunk.command query) else return none

theorem reads_next_command {query result : Search} {lexemes next : List Lexeme}
    (reads : Reads (Splunk.command query) lexemes result next) :
    Reads (nextCommand? query) (.symbol "|" :: lexemes) (some result) next := by
  apply reads_bind_cons (Parser.reads_take_sign "|" _)
  rw [if_pos rfl]
  exact reads_bind_last reads (reads_pure _ _)

theorem reads_no_command (query : Search) : Reads (nextCommand? query) [] none [] := by
  apply reads_nil
  intro rest follows
  obtain rfl : rest = [] := by simpa using follows
  rfl

def filterLexemes (commands : List Command) : List Lexeme :=
  commands.flatMap fun command => .symbol "|" :: command.lexemes

theorem spells_filters {commands : List Command} {text : String} {lexemes : List Lexeme}
    (filled : ∀ command ∈ commands, command.patterns ≠ [])
    (readable : ∀ command ∈ commands, ∀ pattern ∈ command.patterns, pattern.Readable)
    (spells : Spells quoting text lexemes) :
    Spells quoting (text ++ String.join (commands.map (" | " ++ ·.text)))
      (lexemes ++ filterLexemes commands) := by
  induction commands generalizing text lexemes with
  | nil => simpa [filterLexemes, String.join] using spells
  | cons command rest induction =>
      have first := Token.connects_pipe spells
        (spells_command (filled command (by simp)) (readable command (by simp)))
      have whole := induction (fun other member => filled other (by simp [member]))
        (fun other member => readable other (by simp [member])) first
      rw [List.map_cons, String.join_cons, filterLexemes, List.flatMap_cons]
      simpa only [filterLexemes, String.append_assoc, List.append_assoc, List.cons_append,
        List.nil_append] using whole

theorem ends_filters {commands : List Command} {lexemes : List Lexeme}
    (ends : EndsCommand lexemes) : EndsCommand (filterLexemes commands ++ lexemes) := by
  cases commands with
  | nil => exact ends
  | cons command rest =>
      rintro lexeme ⟨⟩
      rfl

theorem reads_filters {commands : List Command} {query final : Search} {lexemes : List Lexeme}
    (filled : ∀ command ∈ commands, command.patterns ≠ [])
    (readable : ∀ command ∈ commands, ∀ pattern ∈ command.patterns, pattern.Readable)
    (ends : EndsCommand lexemes)
    (rest : Reads (Parser.iterate nextCommand?
      { query with conjuncts := query.conjuncts ++ commands.map Command.tree }) lexemes final []) :
    Reads (Parser.iterate nextCommand? query) (filterLexemes commands ++ lexemes) final [] := by
  induction commands generalizing query with
  | nil => simpa [filterLexemes] using rest
  | cons command others induction =>
      have following : EndsCommand (filterLexemes others ++ lexemes ++ []) := by
        rw [List.append_nil]
        exact ends_filters ends
      have first := reads_next_command (reads_filter (filled command (by simp))
        (fun pattern member => (readable command (by simp) pattern member).body) query
        (ends_search following))
      have later := @induction (query.filter command.tree)
        (fun other member => filled other (by simp [member]))
        (fun other member => readable other (by simp [member]))
        (by simpa [Search.filter] using rest)
      rw [filterLexemes, List.flatMap_cons, List.append_assoc]
      exact Parser.reads_iterate_next (by simp) first later

end DetectionRules.Splunk
