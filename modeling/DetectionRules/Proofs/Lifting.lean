import DetectionRules.Proofs.Accepted
import DetectionRules.Proofs.QRadar.Query
import DetectionRules.Proofs.Splunk.Query
import DetectionRules.Rule.Basic

/-!
Where events come from is lifted out of the outermost conjunction of a query.
Each part of the source has room for one text, so of several equalities on one
key the last one decides, and one with another text is lost.
-/

namespace DetectionRules

namespace LogSourcePart

def set (text : String) (source : LogSource) : LogSourcePart → LogSource
  | product => { source with product := some text }
  | category => { source with category := some text }
  | service => { source with service := some text }

theorem get_set (text : String) (source : LogSource) (part other : LogSourcePart) :
    other.get (part.set text source) = if part = other then some text else other.get source := by
  cases part <;> cases other <;> rfl

end LogSourcePart

namespace Expression

/-- The tests that are members of the outermost conjunction. -/
def outermostTests (expression : Logic FieldTest) : List FieldTest :=
  expression.conjuncts.filterMap Logic.term?

theorem lifted_tests (picks : FieldTest → Bool) (expression : Logic FieldTest) :
    (liftTests picks expression).1 = (outermostTests expression).filter picks := by
  rw [lift_tests_eq, picked, outermostTests, List.filter_filterMap]

example : (liftTests (·.field == "index") (.all [.term (.single "index" .equals (.str "a")),
    .not (.term (.single "index" .equals (.str "b")))])).1 = [.single "index" .equals (.str "a")] := by
  decide +kernel

/-- The part of the source that each key names. -/
abbrev Slots := String → Option LogSourcePart

/-- The text that a test for one value asks for. -/
def soleText (test : FieldTest) : String := test.values.head?.elim "" (·.text)

/-- Single equalities on a key of the source. -/
def IsSourceEquality (slots : Slots) (test : FieldTest) : Prop :=
  test.op = .equals ∧ test.values.length = 1 ∧ (slots test.field).isSome

/-- Whether the part of the source that a test names has the text that it asks for. -/
def Keeps (slots : Slots) (source : LogSource) (test : FieldTest) : Prop :=
  ∃ part ∈ slots test.field, part.get source = some (soleText test)

def place (slots : Slots) (source : LogSource) (test : FieldTest) : LogSource :=
  (slots test.field).elim source (·.set (soleText test) source)

/-- After tests were written one after the other, a part that one of them names keeps the last of
the texts that were written into it. -/
theorem keeps_last (slots : Slots) {tests : List FieldTest} {test : FieldTest}
    {part : LogSourcePart} (member : test ∈ tests) (named : slots test.field = some part)
    (source : LogSource) :
    ∃ last ∈ tests, slots last.field = some part ∧
      part.get (tests.foldl (place slots) source) = some (soleText last) := by
  induction tests using List.reverseRecOn with
  | nil => cases member
  | append_singleton front last induction =>
      rw [List.foldl_append, List.foldl_cons, List.foldl_nil]
      by_cases same : slots last.field = some part
      · refine ⟨last, by simp, same, ?_⟩
        rw [place, same, Option.elim_some, LogSourcePart.get_set, if_pos rfl]
      · have inside : test ∈ front := by
          rcases List.mem_append.mp member with inside | alone
          · exact inside
          · rw [List.mem_singleton] at alone
            exact absurd (alone ▸ named) same
        obtain ⟨other, known, own, got⟩ := induction inside
        refine ⟨other, List.mem_append_left _ known, own, ?_⟩
        rw [place]
        cases slot : slots last.field with
        | none => exact got
        | some written =>
            have different : written ≠ part := fun equal => same (equal ▸ slot)
            rw [Option.elim_some, LogSourcePart.get_set, if_neg different, got]

/-- Every equality on a key of the source is kept, or its part has the text of another equality on
the same key. -/
def AccountsFor (slots : Slots) (tests : List FieldTest) (source : LogSource) : Prop :=
  ∀ test ∈ tests, IsSourceEquality slots test → Keeps slots source test ∨
    ∃ other ∈ tests, IsSourceEquality slots other ∧ other.field = test.field ∧
      soleText other ≠ soleText test ∧ Keeps slots source other

/-- Which tests are lifted out of a query, and how they are written into the source. -/
structure Fills (slots : Slots) (picks : FieldTest → Bool)
    (write : LogSource → FieldTest → LogSource) : Prop where
  picked : ∀ test, IsSourceEquality slots test → picks test = true
  single : ∀ test, picks test = true → test.op = .equals ∧ test.values.length = 1
  apart : ∀ first second part, slots first = some part → slots second = some part → first = second
  written : ∀ test, picks test = true → ∀ source, write source test = place slots source test

theorem Fills.accounts_for {slots : Slots} {picks : FieldTest → Bool}
    {write : LogSource → FieldTest → LogSource} (fills : Fills slots picks write)
    (expression : Logic FieldTest) :
    AccountsFor slots (outermostTests expression)
      ((liftTests picks expression).1.foldl write {}) := by
  have placed : (liftTests picks expression).1.foldl write {} =
      (liftTests picks expression).1.foldl (place slots) {} := by
    apply List.foldl_ext
    intro source test member
    rw [lifted_tests] at member
    exact fills.written test (List.mem_filter.mp member).2 source
  rw [placed]
  rintro test member equality
  obtain ⟨part, named⟩ := Option.isSome_iff_exists.mp equality.2.2
  have lifted : test ∈ (liftTests picks expression).1 := by
    rw [lifted_tests]
    exact List.mem_filter.mpr ⟨member, fills.picked test equality⟩
  obtain ⟨last, known, own, got⟩ := keeps_last slots lifted named {}
  have field := fills.apart last.field test.field part own named
  by_cases same : soleText last = soleText test
  · exact .inl ⟨part, named, same ▸ got⟩
  · rw [lifted_tests] at known
    obtain ⟨inside, chosen⟩ := List.mem_filter.mp known
    obtain ⟨equals, alone⟩ := fills.single last chosen
    exact .inr ⟨last, inside, ⟨equals, alone, by simp [own]⟩, field, same, part, own, got⟩

end Expression

namespace Splunk

/-- What a query says, before a rule is made of it. -/
def wholeSearch : Parser Search := do
  let start ← queryStart
  let search ← Parser.iterate nextCommand? start
  if !(← Parser.atEnd) then Parser.expected "'|' or end of search"
  return search

theorem query_eq_map : query = Search.toRule <$> wholeSearch := by
  rw [query_eq, wholeSearch, map_bind]
  refine bind_congr fun start => ?_
  rw [queryEnd, map_bind]
  refine bind_congr fun search => ?_
  rw [map_bind]
  refine bind_congr fun ends => ?_
  cases ends <;> rfl

def slots : Expression.Slots
  | "index" => some .category
  | "source" => some .product
  | "sourcetype" => some .service
  | _ => none

theorem add_source_eq {test : FieldTest} (known : isSourceTest test = true) (source : LogSource) :
    addSource source test = Expression.place slots source test := by
  obtain ⟨field, op, values⟩ := test
  simp only [isSourceTest, Bool.and_eq_true, decide_eq_true_eq, List.contains_iff_mem, List.mem_cons,
    List.not_mem_nil, or_false] at known
  obtain ⟨⟨_, single⟩, field⟩ := known
  obtain ⟨value, rfl⟩ := List.length_eq_one_iff.mp single
  rcases field with rfl | rfl | rfl | rfl | rfl <;> rfl

theorem logic_eq (search : Search) :
    search.logic = if search.conjuncts.isEmpty then ([], none)
      else Expression.liftTests isSourceTest (Logic.conj search.conjuncts) := by
  rw [Search.logic, Logic.group?]
  cases search.conjuncts.isEmpty <;> rfl

theorem slots_cases {field : String} {part : LogSourcePart} (named : slots field = some part) :
    field = "index" ∧ part = .category ∨ field = "source" ∧ part = .product ∨
      field = "sourcetype" ∧ part = .service := by
  unfold slots at named
  split at named <;> simp_all

theorem fills : Expression.Fills slots isSourceTest addSource where
  picked := by
    rintro test ⟨equals, single, named⟩
    obtain ⟨part, named⟩ := Option.isSome_iff_exists.mp named
    rcases slots_cases named with ⟨field, _⟩ | ⟨field, _⟩ | ⟨field, _⟩ <;>
      simp [isSourceTest, equals, single, field]
  single := by
    intro test known
    simp only [isSourceTest, Bool.and_eq_true, decide_eq_true_eq] at known
    exact known.1
  apart := by
    intro first second part firstNamed secondNamed
    rcases slots_cases firstNamed with ⟨rfl, rfl⟩ | ⟨rfl, rfl⟩ | ⟨rfl, rfl⟩ <;>
      rcases slots_cases secondNamed with ⟨rfl, other⟩ | ⟨rfl, other⟩ | ⟨rfl, other⟩ <;>
      first | rfl | cases other
  written := fun _ => add_source_eq

theorem accounts_for_search (search : Search) :
    Expression.AccountsFor slots (Expression.outermostTests (Logic.conj search.conjuncts))
      search.toRule.logSource := by
  by_cases empty : search.conjuncts = []
  · rw [empty]
    rintro test ⟨⟩
  · have accounted := fills.accounts_for (Logic.conj search.conjuncts)
    have same : search.toRule.logSource = search.logic.1.foldl addSource {} := rfl
    rwa [same, logic_eq, if_neg (by simpa using empty)]

theorem search_of_read {text : String} {rule : Rule} (accepted : read text = .ok rule) :
    ∃ tokens rest search, Token.list quoting text = .ok tokens ∧
      wholeSearch tokens = .ok (search, rest) ∧ rule = search.toRule := by
  obtain ⟨_, tokens, rest, listed, parsed⟩ := Dialect.of_located_tokens accepted
  rw [query_eq_map] at parsed
  obtain ⟨search, found, same⟩ := Parser.of_map parsed
  exact ⟨tokens, rest, search, listed, found, same⟩

end Splunk

namespace QRadar

/-- The filter and the clauses of a query, before a rule is made of them. -/
def queryParts : Parser (Option (Logic FieldTest) × Clauses) := do
  Parser.keyword "SELECT"
  Parser.skipUntil (Parser.nextIsKeyword "FROM")
  Parser.keyword "FROM"
  let (table, offset) ← Parser.wordAt "'events' or 'flows'"
  unless ["events", "flows"].any (Text.sameLetters table) do
    Parser.failAt offset ("unknown table '" ++ table ++ "'")
  let filter ← if ← Parser.takeKeyword "WHERE" then do
      pure (some (← Expression.parse connectives atClause term))
    else pure none
  let clauses ← Parser.iterate clause {}
  return (filter, clauses)

theorem query_eq_map : query = (fun parts => toRule parts.1 parts.2) <$> queryParts := by
  rw [query, queryParts, map_bind]
  refine bind_congr fun _ => ?_
  rw [map_bind]
  refine bind_congr fun _ => ?_
  rw [map_bind]
  refine bind_congr fun _ => ?_
  rw [map_bind]
  refine bind_congr fun table => ?_
  simp only [pure_bind]
  split
  · rw [map_bind]
    refine bind_congr fun filtered => ?_
    cases filtered <;> simp [map_bind]
  · rfl

def slots (field : String) : Option LogSourcePart :=
  if field = typeCall then some .product
  else if field = categoryCall then some .category
  else if field = sourceCall then some .service
  else none

theorem slots_cases {field : String} {part : LogSourcePart} (named : slots field = some part) :
    field = typeCall ∧ part = .product ∨ field = categoryCall ∧ part = .category ∨
      field = sourceCall ∧ part = .service := by
  unfold slots at named
  split at named
  · simp_all
  · split at named
    · simp_all
    · split at named <;> simp_all

theorem add_source_eq {test : FieldTest} (known : isSourceTest test = true) (source : LogSource) :
    addSource source test = Expression.place slots source test := by
  obtain ⟨field, op, values⟩ := test
  simp only [isSourceTest, sourceCalls, Bool.and_eq_true, decide_eq_true_eq, List.contains_iff_mem,
    List.mem_cons, List.not_mem_nil, or_false] at known
  obtain ⟨⟨_, single⟩, field⟩ := known
  obtain ⟨value, rfl⟩ := List.length_eq_one_iff.mp single
  rcases field with rfl | rfl | rfl <;> rfl

theorem fills : Expression.Fills slots isSourceTest addSource where
  picked := by
    rintro test ⟨equals, single, named⟩
    obtain ⟨part, named⟩ := Option.isSome_iff_exists.mp named
    rcases slots_cases named with ⟨field, _⟩ | ⟨field, _⟩ | ⟨field, _⟩ <;>
      simp [isSourceTest, equals, single, field, sourceCalls]
  single := by
    intro test known
    simp only [isSourceTest, Bool.and_eq_true, decide_eq_true_eq] at known
    exact known.1
  apart := by
    intro first second part firstNamed secondNamed
    rcases slots_cases firstNamed with ⟨rfl, rfl⟩ | ⟨rfl, rfl⟩ | ⟨rfl, rfl⟩ <;>
      rcases slots_cases secondNamed with ⟨rfl, other⟩ | ⟨rfl, other⟩ | ⟨rfl, other⟩ <;>
      first | rfl | cases other
  written := fun _ => add_source_eq

theorem accounts_for_filter (filter : Option (Logic FieldTest)) (clauses : Clauses) :
    Expression.AccountsFor slots (filter.toList.flatMap Expression.outermostTests)
      (toRule filter clauses).logSource := by
  cases filter with
  | none => rintro test ⟨⟩
  | some expression =>
      rw [Option.toList_some, List.flatMap_singleton]
      exact fills.accounts_for expression

theorem parts_of_read {text : String} {rule : Rule} (accepted : read text = .ok rule) :
    ∃ tokens rest filter clauses, Token.list quoting text = .ok tokens ∧
      queryParts tokens = .ok ((filter, clauses), rest) ∧ rule = toRule filter clauses := by
  obtain ⟨_, tokens, rest, listed, parsed⟩ := Dialect.of_located_tokens accepted
  rw [query_eq_map] at parsed
  obtain ⟨⟨filter, clauses⟩, found, same⟩ := Parser.of_map parsed
  exact ⟨tokens, rest, filter, clauses, listed, found, same⟩

end QRadar

namespace Expression

/-- Every equality for one value on a key of the source that stands in the outermost conjunction of
a query is kept as a part of the source, unless the part has the text of another equality on the
same key. -/
theorem source_equalities_accounted (text : String) (rule : Rule) :
    (Splunk.read text = .ok rule → ∃ tokens rest search,
      Token.list Splunk.quoting text = .ok tokens ∧
      Splunk.wholeSearch tokens = .ok (search, rest) ∧
      AccountsFor Splunk.slots (outermostTests (Logic.conj search.conjuncts)) rule.logSource) ∧
    (QRadar.read text = .ok rule → ∃ tokens rest filter clauses,
      Token.list QRadar.quoting text = .ok tokens ∧
      QRadar.queryParts tokens = .ok ((filter, clauses), rest) ∧
      AccountsFor QRadar.slots (filter.toList.flatMap outermostTests) rule.logSource) := by
  constructor
  · intro accepted
    obtain ⟨tokens, rest, search, listed, parsed, rfl⟩ := Splunk.search_of_read accepted
    exact ⟨tokens, rest, search, listed, parsed, Splunk.accounts_for_search search⟩
  · intro accepted
    obtain ⟨tokens, rest, filter, clauses, listed, parsed, rfl⟩ := QRadar.parts_of_read accepted
    exact ⟨tokens, rest, filter, clauses, listed, parsed, QRadar.accounts_for_filter filter clauses⟩

def failedLoginSearch : String := "index=security EventCode=4625 | search source=windows | stats count"

def failedLoginQuery : String :=
  "SELECT * FROM events WHERE CATEGORYNAME(category) = 'Logins' AND username = 'root' LAST 5 MINUTES"

theorem failed_logins_accounted :
    (∃ rule tokens rest search, Splunk.read failedLoginSearch = .ok rule ∧
      Token.list Splunk.quoting failedLoginSearch = .ok tokens ∧
      Splunk.wholeSearch tokens = .ok (search, rest) ∧
      AccountsFor Splunk.slots (outermostTests (Logic.conj search.conjuncts)) rule.logSource) ∧
    ∃ rule tokens rest filter clauses, QRadar.read failedLoginQuery = .ok rule ∧
      Token.list QRadar.quoting failedLoginQuery = .ok tokens ∧
      QRadar.queryParts tokens = .ok ((filter, clauses), rest) ∧
      AccountsFor QRadar.slots (filter.toList.flatMap outermostTests) rule.logSource := by
  have search : ((Splunk.read failedLoginSearch).map fun _ => true) = .ok true := by decide +kernel
  have query : ((QRadar.read failedLoginQuery).map fun _ => true) = .ok true := by decide +kernel
  obtain ⟨searchRule, searched, _⟩ := Success.of_map search
  obtain ⟨queryRule, queried, _⟩ := Success.of_map query
  obtain ⟨tokens, rest, parts, accounted⟩ := (source_equalities_accounted _ _).1 searched
  exact ⟨⟨searchRule, tokens, rest, parts, searched, accounted⟩,
    queryRule, by
      obtain ⟨tokens, rest, filter, clauses, accounted⟩ := (source_equalities_accounted _ _).2 queried
      exact ⟨tokens, rest, filter, clauses, queried, accounted⟩⟩

def twoIndexes : String := "index=a x=1 | search index=b"

/-- The later index takes the place of the earlier one, which is lost. -/
theorem earlier_index_lost : ∃ tokens rest search rule test,
    Token.list Splunk.quoting twoIndexes = .ok tokens ∧
    Splunk.wholeSearch tokens = .ok (search, rest) ∧ Splunk.read twoIndexes = .ok rule ∧
    test ∈ outermostTests (Logic.conj search.conjuncts) ∧ IsSourceEquality Splunk.slots test ∧
    ¬ Keeps Splunk.slots rule.logSource test ∧ ∀ other ∈ rule.tests, other.field ≠ test.field := by
  have read : ((Splunk.read twoIndexes).map fun rule => decide (rule.logSource = { category := some "b" } ∧
      ∀ other ∈ rule.tests, other.field ≠ "index")) = .ok true := by
    decide +kernel
  obtain ⟨rule, accepted, known⟩ := Success.of_map read
  obtain ⟨source, others⟩ := of_decide_eq_true known
  obtain ⟨tokens, rest, search, listed, parsed, _⟩ := Splunk.search_of_read accepted
  have searched : (((Token.list Splunk.quoting twoIndexes).bind Splunk.wholeSearch).map fun pair =>
      decide (.single "index" .equals (.str "a") ∈ outermostTests (Logic.conj pair.1.conjuncts))) =
        .ok true := by
    decide +kernel
  rw [listed, Except.bind, parsed] at searched
  have member := of_decide_eq_true (Except.ok.inj searched)
  refine ⟨tokens, rest, search, rule, _, listed, parsed, accepted, member, ⟨rfl, rfl, rfl⟩, ?_, others⟩
  rintro ⟨part, named, got⟩
  cases named
  rw [source] at got
  exact absurd got (by decide)

end Expression

end DetectionRules
