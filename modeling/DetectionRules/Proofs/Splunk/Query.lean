import DetectionRules.Proofs.Lead
import DetectionRules.Proofs.Splunk.Summary

/-!
Splunk queries mean what the rules they are written for mean. Tests of where
events come from lead the search, the conjuncts that only ask for regular
expressions follow it as commands, and all of them are conjoined again when the
query is read.
-/

namespace DetectionRules.Splunk

open Expression (EndsDisjunction encloseIf led wordingIn)
open DetectionRules.Parser (Reads reads_bind reads_bind_cons reads_bind_nil reads_bind_last
  reads_pure reads_cons reads_nil)
open Token (Spells joined)

def sourceFields : List String := ["index", "source", "sourcetype", "earliest", "latest"]

/-- The tests that stand for a source, given how their values are read. -/
def sourceTests (value : String → Value) (source : LogSource) : List FieldTest :=
  [("index", source.category), ("source", source.product), ("sourcetype", source.service)].filterMap
    fun (field, part) => part.map fun part => .single field .equals (value part)

def sourceText (test : FieldTest) : String :=
  test.field ++ "=" ++ quote (test.values.head?.elim "" (·.text))

def sourceParts (source : LogSource) : List String :=
  [source.category, source.product, source.service].filterMap id

theorem of_mem_source_tests {value : String → Value} {source : LogSource} {test : FieldTest}
    (member : test ∈ sourceTests value source) :
    ∃ field ∈ ["index", "source", "sourcetype"], ∃ part ∈ sourceParts source,
      test = .single field .equals (value part) := by
  obtain ⟨⟨field, slot⟩, inside, found⟩ := List.mem_filterMap.mp member
  obtain ⟨part, rfl, rfl⟩ := Option.map_eq_some_iff.mp found
  simp only [List.mem_cons, List.not_mem_nil, or_false, Prod.mk.injEq] at inside
  refine ⟨field, ?_, part, ?_, rfl⟩
  · rcases inside with ⟨rfl, _⟩ | ⟨rfl, _⟩ | ⟨rfl, _⟩ <;> simp
  · rcases inside with ⟨_, same⟩ | ⟨_, same⟩ | ⟨_, same⟩ <;> simp [sourceParts, ← same]

theorem source_terms_eq (source : LogSource) :
    sourceTerms source = (sourceTests .str source).map sourceText := by
  obtain ⟨product, category, service⟩ := source
  cases product <;> cases category <;> cases service <;> rfl

theorem fold_source_tests {value : String → Value} {source : LogSource}
    (same : ∀ part ∈ sourceParts source, (value part).text = part) :
    (sourceTests value source).foldl addSource {} = source := by
  obtain ⟨product, category, service⟩ := source
  cases product <;> cases category <;> cases service <;>
    simp_all [sourceTests, sourceParts, addSource, FieldTest.single]

/-- Sources without an asterisk. -/
def IsPlainSource (source : LogSource) : Prop := ∀ part ∈ sourceParts source, '*' ∉ part.toList

theorem render_source_test {source : LogSource} (plain : IsPlainSource source) {test : FieldTest}
    (member : test ∈ sourceTests .str source) : renderTest test = .ok (sourceText test) := by
  obtain ⟨field, _, part, inside, rfl⟩ := of_mem_source_tests member
  have noStar : Text.containsChar part '*' = false := by
    simpa [Text.containsChar] using plain part inside
  simp only [renderTest, FieldTest.single, List.mapM_cons, List.mapM_nil, quoteValue, noStar]
  rfl

theorem is_field_source {field : String} (known : field ∈ ["index", "source", "sourcetype"]) :
    field ≠ "" ∧ IsField field := by
  simp only [List.mem_cons, List.not_mem_nil, or_false] at known
  rcases known with rfl | rfl | rfl
  all_goals
    exact ⟨by decide, Token.is_word_of_plain (by simp) (by simp [Token.isPlain]), by decide⟩

theorem writable_source_test {source : LogSource} (plain : IsPlainSource source)
    {test : FieldTest} (member : test ∈ sourceTests .str source) : Writable test := by
  have written := render_source_test plain member
  obtain ⟨field, known, part, _, rfl⟩ := of_mem_source_tests member
  obtain ⟨named, isField⟩ := is_field_source known
  exact ⟨⟨named, by simp [FieldTest.single], nofun⟩, isField, ⟨_, written⟩, nofun⟩

theorem tree_of_source_tests (source : LogSource) :
    ((sourceTests .str source).map Logic.term).map (Logic.bind testTree) =
      (sourceTests Value.ofLiteral source).map .term := by
  obtain ⟨product, category, service⟩ := source
  cases product <;> cases category <;> cases service <;> rfl

/-- The conjuncts that stay in the search. -/
def kept (rule : Rule) : List (Logic FieldTest) :=
  rule.expression.conjuncts.filter fun item => (commandOf? item).isNone

/-- The conjuncts that are written as commands. -/
def moved (rule : Rule) : List (Logic FieldTest) :=
  rule.expression.conjuncts.filter fun item => (commandOf? item).isSome

def commands (rule : Rule) : List Command := rule.expression.conjuncts.filterMap commandOf?

def searchItems (rule : Rule) : List (Logic FieldTest) :=
  (sourceTests .str rule.logSource).map .term ++ kept rule

/-- The search that is written for a rule. -/
def searchOf? (rule : Rule) : Option (Logic FieldTest) := Logic.group? Logic.conj (searchItems rule)

def searchLexemes (rule : Rule) : List Lexeme :=
  (searchOf? rule).elim [.word "*"] (wordingIn wording .none)

def endLexemes (rule : Rule) : List Lexeme :=
  filterLexemes (commands rule) ++ rule.aggregation.elim [] aggregationLexemes

def queryLexemes (rule : Rule) : List Lexeme :=
  searchLexemes rule ++ endLexemes rule

theorem mem_kept {rule : Rule} {item : Logic FieldTest} (member : item ∈ kept rule) :
    item ∈ rule.expression.conjuncts ∧ commandOf? item = none := by
  simpa [kept] using member

theorem trees_of_commands (rule : Rule) :
    (commands rule).map Command.tree = (moved rule).map (Logic.bind testTree) := by
  have all (items : List (Logic FieldTest)) : (items.filterMap commandOf?).map Command.tree =
      (items.filter fun item => (commandOf? item).isSome).map (Logic.bind testTree) := by
    induction items with
    | nil => rfl
    | cons item rest induction =>
        cases found : commandOf? item with
        | none => simp [found, induction]
        | some command => simp [found, induction, tree_of_command (is_command found)]
  exact all rule.expression.conjuncts

structure Writes (rule : Rule) : Prop where
  proper : rule.Proper
  shallow : rule.condition.depth ≤ 31
  fields : ∀ test ∈ rule.expression.terms, IsField test.field ∧ test.field ∉ sourceFields ∧
    test.field ≠ "*" ∧ Text.sameLetters test.field "search" = false
  parts : ∀ test ∈ rule.expression.terms, test.op.isPart = true → ∀ value ∈ test.values,
    value.text ≠ ""
  regexes : ∀ test ∈ rule.expression.terms, test.op = .regex → ∀ value ∈ test.values,
    Regex.isValid value.text = true
  exact : ∀ test ∈ rule.expression.terms, ∀ value ∈ test.values, value.text ≠ "-0"
  source : IsPlainSource rule.logSource
  exactSource : ∀ part ∈ sourceParts rule.logSource, part ≠ "-0"
  counts : ∀ aggregation ∈ rule.aggregation, HasWords aggregation ∧ "_time" ∉ aggregation.groupBy

/-- Tests whose text is what is written for the search of a rule. -/
def searchTests (rule : Rule) : List FieldTest :=
  sourceTests .str rule.logSource ++ (kept rule).flatMap Logic.terms

theorem normal_search_item {rule : Rule} (proper : rule.Proper) {item : Logic FieldTest}
    (member : item ∈ searchItems rule) : item.Normal ∧ item.isConjunction = false := by
  rcases List.mem_append.mp member with source | condition
  · obtain ⟨test, _, rfl⟩ := List.mem_map.mp source
    exact ⟨.term test, rfl⟩
  · exact (Rule.normal_expression proper).conjunct (mem_kept condition).1

theorem terms_search_items (rule : Rule) :
    (searchItems rule).flatMap Logic.terms = searchTests rule := by
  rw [searchItems, searchTests, List.flatMap_append, List.flatMap_map]
  simp [Logic.terms]

theorem terms_search {rule : Rule} {search : Logic FieldTest} (found : searchOf? rule = some search) :
    search.terms = searchTests rule := by
  rw [searchOf?, Logic.group?] at found
  split at found
  · cases found
  · cases found
    rw [Logic.terms_conj, terms_search_items]

theorem mem_terms_kept {rule : Rule} {test : FieldTest}
    (member : test ∈ (kept rule).flatMap Logic.terms) : test ∈ rule.expression.terms := by
  obtain ⟨item, inside, place⟩ := List.mem_flatMap.mp member
  rw [← Logic.terms_conjuncts]
  exact List.mem_flatMap.mpr ⟨item, (mem_kept inside).1, place⟩

theorem search_terms_ok {rule : Rule} {terms : List String} (proper : rule.Proper)
    (plain : IsPlainSource rule.logSource)
    (written : searchTerms (sourceTerms rule.logSource) (kept rule) = .ok terms) :
    (searchOf? rule = none ∧ terms = []) ∨
      ∃ search, searchOf? rule = some search ∧ terms ≠ [] ∧
        Expression.render spelling search = .ok (String.intercalate " " terms) := by
  have known : ∀ test ∈ sourceTests .str rule.logSource,
      spelling.term test = .ok (sourceText test) := fun _ => render_source_test plain
  have normal : ∀ item ∈ kept rule, item.Normal := fun item member =>
    ((Rule.normal_expression proper).conjunct (mem_kept member).1).1
  have conjunction : spelling.conjunction = " " := rfl
  rw [searchOf?, searchItems]
  rw [source_terms_eq] at written
  generalize sourceTests .str rule.logSource = sources at known written
  generalize kept rule = items at normal written
  match items with
  | [] =>
      cases written
      rcases List.eq_nil_or_concat sources with rfl | ⟨front, last, rfl⟩
      · exact .inl ⟨rfl, rfl⟩
      · have rendered := @Expression.render_led _ spelling sourceText front (.term last) _
          (fun test member => known test (by simp [member])) (.term last) (known last (by simp))
        rw [conjunction] at rendered
        refine .inr ⟨led front (.term last), ?_, by simp, ?_⟩
        · simp [Logic.group?, led]
        · simpa [encloseIf, Logic.isDisjunction] using rendered
  | item :: rest =>
      have filter := Logic.Normal.conj (List.cons_ne_nil item rest) normal
      have group : Logic.group? Logic.conj (item :: rest) = some (Logic.conj (item :: rest)) := rfl
      rw [searchTerms, group] at written
      simp only at written
      split at written
      · cases written
      · obtain ⟨text, part, written⟩ := Success.of_bind written
        cases written
        have rendered := Expression.render_led known filter part
        rw [conjunction] at rendered
        refine .inr ⟨led sources (Logic.conj (item :: rest)), ?_, by simp, ?_⟩
        · rw [led, Logic.conj_append_conj normal]
          simp [Logic.group?]
        · rw [List.isEmpty_map]
          exact rendered

theorem spells_not {text : String} {lexemes : List Lexeme} (spells : Spells quoting text lexemes) :
    Spells quoting ("NOT " ++ text) (.word "NOT" :: lexemes) :=
  Token.spells_behind_word (by simp) (by simp) (by simp [Token.isPlain]) spells

theorem of_write {rule : Rule} {text : String} (written : write rule = .ok text) :
    rule.Proper ∧ ∃ terms, searchTerms (sourceTerms rule.logSource) (kept rule) = .ok terms ∧
      text = (if terms.isEmpty then "*" else String.intercalate " " terms) ++
        String.join ((commands rule).map (" | " ++ ·.text)) ++
        rule.aggregation.elim "" aggregationText := by
  rw [write] at written
  obtain ⟨_, ready, written⟩ := Success.of_bind written
  have proper := (Rule.well_formed_iff rule).mp (Dialect.well_formed_of_writable ready)
  obtain ⟨expression, found, written⟩ := Success.of_bind written
  obtain rfl : rule.expression = expression := by
    rw [Dialect.expression_eq .splunk proper] at found
    exact Except.ok.inj found
  obtain ⟨terms, rendered, written⟩ := Success.of_bind written
  have stay : rule.expression.conjuncts.filter (fun item => (command? item).isNone) = kept rule := by
    simp only [kept, command_eq, Option.isNone_map]
  have follow : rule.expression.conjuncts.filterMap command? = (commands rule).map Command.text := by
    rw [commands, List.map_filterMap]
    exact List.filterMap_congr fun item _ => command_eq item
  rw [stay] at rendered
  cases written
  refine ⟨proper, terms, rendered, ?_⟩
  rw [String.join_cons, follow, List.map_map]
  rfl

theorem is_readable {rule : Rule} (writes : Writes rule) {command : Command}
    (member : command ∈ commands rule) :
    command.patterns ≠ [] ∧ ∀ pattern ∈ command.patterns, pattern.Readable := by
  obtain ⟨item, inside, found⟩ := List.mem_filterMap.mp member
  obtain ⟨same, regex⟩ := patterns_of_command (is_command found)
  have known : ∀ test ∈ item.terms, test ∈ rule.expression.terms := by
    intro test place
    rw [← Logic.terms_conjuncts]
    exact List.mem_flatMap.mpr ⟨item, inside, place⟩
  rw [same]
  constructor
  · have some := ((Rule.normal_expression writes.proper).conjunct inside).1.terms_ne_nil
    obtain ⟨test, others, terms⟩ := List.exists_cons_of_ne_nil some
    have filled := (Rule.proper_of_mem_expression writes.proper (known test (by simp [terms]))).filled
    simp [terms, patterns, filled]
  · intro pattern place
    obtain ⟨test, test_known, place⟩ := List.mem_flatMap.mp place
    obtain ⟨value, valued, rfl⟩ := List.mem_map.mp place
    have member := known test test_known
    exact ⟨(writes.fields test member).1.word,
      writes.regexes test member (regex test test_known) value valued⟩

theorem writable_search_test {rule : Rule} {search : Logic FieldTest} {text : String}
    (writes : Writes rule) (found : searchOf? rule = some search)
    (rendered : Expression.render spelling search = .ok text) :
    ∀ test ∈ search.terms, Writable test := by
  intro test member
  have written := Expression.render_terms rendered test member
  rw [terms_search found] at member
  rcases List.mem_append.mp member with source | condition
  · exact writable_source_test writes.source source
  · have known := mem_terms_kept condition
    exact ⟨Rule.proper_of_mem_expression writes.proper known, (writes.fields test known).1, written,
      writes.parts test known⟩

theorem normal_search {rule : Rule} {search : Logic FieldTest} (proper : rule.Proper)
    (found : searchOf? rule = some search) : search.Normal := by
  rw [searchOf?, Logic.group?] at found
  split at found
  · cases found
  · rename_i some
    cases found
    exact .conj (by simpa using some) fun item member => (normal_search_item proper member).1

theorem spells_search {rule : Rule} {terms : List String} (writes : Writes rule)
    (written : searchTerms (sourceTerms rule.logSource) (kept rule) = .ok terms) :
    Spells quoting (if terms.isEmpty then "*" else String.intercalate " " terms)
      (searchLexemes rule) := by
  rw [searchLexemes]
  rcases search_terms_ok writes.proper writes.source written with
    ⟨none, rfl⟩ | ⟨search, found, filled, rendered⟩
  · rw [none]
    exact Token.spells_plain (by simp) (by simp [Token.isPlain])
  · have tests : ∀ test ∈ search.terms, ∀ text, spelling.term test = .ok text →
        Spells quoting text (wording.term test) := fun test member _ =>
      spells_test (writable_search_test writes found rendered test member)
    rw [found, if_neg (by simpa using filled)]
    exact Expression.spells_render (normal_search writes.proper found).filled tests Token.connects_blank
      connects_or (fun _ _ => spells_not) rfl rendered

theorem write_spells {rule : Rule} {text : String} (writes : Writes rule)
    (written : write rule = .ok text) : Spells quoting text (queryLexemes rule) := by
  obtain ⟨_, terms, found, rfl⟩ := of_write written
  have filters := spells_filters (fun command member => (is_readable writes member).1)
    (fun command member => (is_readable writes member).2) (spells_search writes found)
  rw [queryLexemes, endLexemes, ← List.append_assoc]
  cases counted : rule.aggregation with
  | none => simpa using filters
  | some aggregation => exact spells_aggregation (writes.counts aggregation counted).1 filters

/-- What the search of a query says. -/
def searched (rule : Rule) : Search where
  conjuncts := (searchOf? rule).toList.map (Logic.bind testTree)

/-- What a query says before it counts. -/
def filtered (rule : Rule) : Search where
  conjuncts := (searched rule).conjuncts ++ (commands rule).map Command.tree

def readBack (rule : Rule) : Rule :=
  (rule.aggregation.elim (filtered rule) (filtered rule).counting).toRule

def BeginsSearch (head : Lexeme) : Prop :=
  ∀ offset rest, Parser.nextIsKeyword "search" (⟨head, offset⟩ :: rest) = false ∧
    Parser.nextIsWord "*" (⟨head, offset⟩ :: rest) = false ∧
    atPipeOrEnd (⟨head, offset⟩ :: rest) = false

theorem begins_search {rule : Rule} {search : Logic FieldTest} (writes : Writes rule)
    (found : searchOf? rule = some search) :
    ∃ head ∈ (wordingIn wording .none search).head?, BeginsSearch head := by
  have words : Text.sameLetters "NOT" "search" = false := by decide
  have fields : ∀ test ∈ search.terms, test.field ≠ "*" ∧
      Text.sameLetters test.field "search" = false := by
    intro test member
    rw [terms_search found] at member
    rcases List.mem_append.mp member with source | condition
    · have others : ∀ field ∈ ["index", "source", "sourcetype"], field ≠ "*" ∧
          Text.sameLetters field "search" = false := by
        decide
      obtain ⟨field, known, part, _, rfl⟩ := of_mem_source_tests source
      exact others field known
    · exact (writes.fields test (mem_terms_kept condition)).2.2
  apply Expression.wording_head
  · exact fun offset rest => ⟨rfl, rfl, rfl⟩
  · exact fun lexemes => ⟨_, rfl, fun offset rest => ⟨words, rfl, rfl⟩⟩
  · intro test member
    obtain ⟨head, tail, same, front⟩ := front_of_test test
    refine ⟨head, List.head?_eq_some_iff.mpr ⟨tail, same⟩, ?_⟩
    obtain ⟨noStar, other⟩ := fields test member
    rcases front with rfl | ⟨text, rfl⟩ | rfl
    · exact fun offset rest => ⟨other, by simpa using noStar, rfl⟩
    · exact fun offset rest => ⟨rfl, rfl, rfl⟩
    · exact fun offset rest => ⟨rfl, rfl, rfl⟩
  · exact (normal_search writes.proper found).filled

theorem ends_before_counts (aggregation : Option Aggregation) :
    EndsCommand (aggregation.elim [] aggregationLexemes) := by
  cases aggregation with
  | none => exact nofun
  | some aggregation =>
      intro lexeme start
      rw [Option.elim_some, aggregationLexemes] at start
      cases window : aggregation.window <;> simp_all

def queryEnd (start : Search) : Parser Rule := do
  let query ← Parser.iterate nextCommand? start
  if !(← Parser.atEnd) then Parser.expected "'|' or end of search"
  return query.toRule

/-- The parser of a query up to its first pipe. -/
def queryStart : Parser Search := do
  let _ ← Parser.takeKeyword "search"
  let _ ← Parser.takeIf (Parser.nextIsWord "*")
  if ← Parser.sees atPipeOrEnd then pure {} else do pure (Search.filter {} (← search))

theorem query_eq : query = queryStart >>= queryEnd := by
  simp only [query, queryStart, bind_assoc]
  refine bind_congr fun _ => bind_congr fun _ => bind_congr fun stops => ?_
  cases stops
  · simp only [Bool.false_eq_true, if_false, bind_assoc, pure_bind]
    rfl
  · simp only [if_true, pure_bind]
    rfl

theorem ends_before_commands (rule : Rule) : EndsCommand (endLexemes rule) :=
  ends_filters (ends_before_counts rule.aggregation)

theorem reads_query_end {rule : Rule} (writes : Writes rule) :
    Reads (queryEnd (searched rule)) (endLexemes rule) (readBack rule) [] := by
  have counts : Reads (Parser.iterate nextCommand? (filtered rule))
      (rule.aggregation.elim [] aggregationLexemes)
      (rule.aggregation.elim (filtered rule) (filtered rule).counting) [] := by
    cases counted : rule.aggregation with
    | none => exact Parser.reads_iterate_stop (reads_no_command _)
    | some aggregation =>
        exact reads_aggregation (writes.proper.aggregation aggregation counted)
          (writes.counts aggregation counted).2 rfl
  have all := @reads_filters (commands rule) (searched rule) _ _
    (fun command member => (is_readable writes member).1)
    (fun command member => (is_readable writes member).2) (ends_before_counts _) counts
  have atEnd : Reads Parser.atEnd [] true [] := by
    apply reads_nil
    intro rest follows
    obtain rfl : rest = [] := by simpa using follows
    rfl
  apply reads_bind_last all
  exact reads_bind_nil atEnd (reads_pure _ _)

theorem shallow_search {rule : Rule} {search : Logic FieldTest} (writes : Writes rule)
    (found : searchOf? rule = some search) : search.depth ≤ Expression.maxDepth := by
  have whole := (Rule.depth_expression_le rule).trans (Nat.succ_le_succ writes.shallow)
  rw [searchOf?, Logic.group?] at found
  split at found
  · cases found
  · cases found
    have bound : (Logic.conj (searchItems rule)).depth ≤ 32 + 1 := by
      apply Logic.depth_conj_le
      intro item member
      rcases List.mem_append.mp member with source | condition
      · obtain ⟨test, _, rfl⟩ := List.mem_map.mp source
        simp [Logic.depth]
      · exact (Logic.depth_of_conjunct (mem_kept condition).1).trans whole
    exact bound.trans (by decide)

theorem reads_query {rule : Rule} (writes : Writes rule)
    (tests : ∀ test ∈ searchTests rule, Writable test ∧ ¬ LosesTilde test) :
    Reads query (queryLexemes rule) (readBack rule) [] := by
  have ending := reads_query_end writes
  have ends := ends_before_commands rule
  rw [queryLexemes, searchLexemes]
  cases found : searchOf? rule with
  | none =>
      rw [searched, found] at ending
      have word : Text.sameLetters "*" "search" = false := by decide
      apply reads_bind_nil
      · exact Parser.reads_no_keyword word
      · apply reads_bind_cons (Parser.reads_take_word "*" _)
        apply reads_bind_nil
        · exact Parser.reads_sees fun _ => at_pipe_or_end (by rw [List.append_nil]; exact ends)
        · exact ending
  | some search =>
      rw [searched, found] at ending
      have normal := normal_search writes.proper found
      obtain ⟨head, start, begins⟩ := begins_search writes found
      obtain ⟨tail, same⟩ := List.head?_eq_some_iff.mp start
      have searches : Reads Splunk.search (wordingIn wording .none search)
          (search.bind testTree) (endLexemes rule ++ []) := by
        rw [List.append_nil]
        exact reads_search normal (shallow_search writes found) (by rwa [terms_search found])
          (ends_search ends)
      have first : head ∈ (wordingIn wording .none search ++ endLexemes rule ++ []).head? := by
        simp [same]
      apply reads_bind_nil
      · exact Parser.reads_no_take first fun offset rest => (begins offset rest).1
      · apply reads_bind_nil
        · exact Parser.reads_no_take first fun offset rest => (begins offset rest).2.1
        · apply reads_bind_nil
          · exact Parser.reads_sees_head first fun offset rest => (begins offset rest).2.2
          · exact reads_bind searches ending

end DetectionRules.Splunk
