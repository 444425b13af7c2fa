import DetectionRules.Proofs.Access.Rules
import DetectionRules.Proofs.Lifting
import DetectionRules.Proofs.Accepted
import DetectionRules.Proofs.Access.Text

/-!
Access in the readers of the dialects.
-/

namespace DetectionRules

open Text (from? placeOf? byteCount)

namespace PaloAlto

/-- The place of the opening brace, after the word `rule` and the name. -/
def headerInRange? (text : List Char) : Option (Except Fault Nat) := do
  let fault (place : Nat) (reason : String) : Except Fault Nat :=
    .error (.malformed (some place) reason)
  let start := byteCount text - byteCount (Text.dropBlanks text)
  match ← from? start text with
  | 'r' :: 'u' :: 'l' :: 'e' :: rest =>
      if !rest.head?.any Text.isBlank then
        return fault (start + 4) "expected a rule name after 'rule'"
      else
        let nameStart := byteCount text - byteCount (Text.dropBlanks rest)
        let named ← from? nameStart text
        let nameLength := (placeOf? (!isNamePart ·) named).getD (byteCount text - nameStart)
        if nameLength = 0 then return fault nameStart "expected a rule name"
        else
          let afterName ← from? (nameStart + nameLength) text
          let brace := byteCount text - byteCount (Text.dropBlanks afterName)
          let object ← from? brace text
          if object.head? == some '\x7b' then return .ok brace
          else return fault brace "expected '\x7b'"
  | _ => return fault start "expected 'rule'"

def bodyInRange? (text : List Char) : Option (Except Fault (List Char)) := do
  match ← headerInRange? text with
  | .error fault => return .error fault
  | .ok brace => return .ok (← from? brace text)

theorem name_length_eq {text named : List Char} (ending : named <:+ text) :
    (placeOf? (!isNamePart ·) named).getD (byteCount text - (byteCount text - byteCount named)) =
      byteCount (named.takeWhile isNamePart) := by
  obtain ⟨front, rfl⟩ := ending
  have length := Text.place_of_or_end (!isNamePart ·) named
  simp only [Bool.not_not] at length
  rw [Text.byte_count_append, Nat.add_sub_cancel, Nat.add_sub_cancel_left, length]

theorem name_length_eq_zero (named : List Char) :
    byteCount (named.takeWhile isNamePart) = 0 ↔ named.head?.any isNamePart = false := by
  rw [Text.byte_count_eq_zero]
  cases named with
  | nil => simp
  | cons c rest => simp [List.takeWhile_cons]

theorem body_of_other {text : List Char}
    (other : ∀ rest, Text.dropBlanks text = 'r' :: 'u' :: 'l' :: 'e' :: rest → False) :
    body text = .error (.malformed (some (byteCount text - byteCount (Text.dropBlanks text)))
      "expected 'rule'") := by
  rw [body]
  split
  · rename_i rest begins
    exact (other rest begins).elim
  · rfl

theorem body_in_range (text : List Char) : bodyInRange? text = some (body text) := by
  have inside : Text.dropBlanks text <:+ text := List.dropWhile_suffix _
  have start := Text.from_of_suffix inside
  simp only [bodyInRange?, headerInRange?, start, Option.bind_eq_bind, Option.bind_some]
  split
  · rename_i rest begins
    rw [begins] at inside start
    have within : rest <:+ text := List.IsSuffix.trans ⟨['r', 'u', 'l', 'e'], rfl⟩ inside
    by_cases blank : rest.head?.any Text.isBlank
    · have nameEnds : Text.dropBlanks rest <:+ text := (List.dropWhile_suffix _).trans within
      have named := Text.from_of_suffix nameEnds
      have afterName : from? (byteCount text - byteCount (Text.dropBlanks rest) +
          byteCount ((Text.dropBlanks rest).takeWhile isNamePart)) text =
          some ((Text.dropBlanks rest).dropWhile isNamePart) := by
        apply Text.from_add
        rw [List.takeWhile_append_dropWhile, named]
      have object : from? (byteCount text - byteCount
          (Text.dropBlanks ((Text.dropBlanks rest).dropWhile isNamePart))) text =
          some (Text.dropBlanks ((Text.dropBlanks rest).dropWhile isNamePart)) :=
        Text.from_of_suffix
          (((List.dropWhile_suffix _).trans (List.dropWhile_suffix _)).trans nameEnds)
      simp only [body, blank, named, name_length_eq nameEnds, name_length_eq_zero, afterName,
        object, Option.bind_some, begins]
      by_cases part : (Text.dropBlanks rest).head?.any isNamePart
      · by_cases opens : (Text.dropBlanks
          ((Text.dropBlanks rest).dropWhile isNamePart)).head? == some '\x7b'
        · simp [part, opens, object]
        · simp [part, opens]
      · simp [part]
    · have after : byteCount text - byteCount ('r' :: 'u' :: 'l' :: 'e' :: rest) + 4 =
          byteCount text - byteCount rest := by
        obtain ⟨front, rfl⟩ := inside
        have letters : byteCount ('r' :: 'u' :: 'l' :: 'e' :: rest) = 4 + byteCount rest := by
          simp only [byteCount, ← Nat.add_assoc]
          rfl
        rw [Text.byte_count_append, letters]
        omega
      simp [body, blank, begins, after]
  · rename_i other
    rw [body_of_other other]
    rfl

/-- The test of a leaf, whose value is only looked at if it is the only one. -/
def leafTestInRange? (field : String) (relation : Relation) (value : Json) :
    Ranged String FieldTest := do
  if field.isEmpty then throw "condition with an empty field"
  let values ← Ranged.of (values field relation value)
  if values.isEmpty then throw ("'" ++ field ++ "' has no values")
  let op := relation.op
  if ← misfitsInRange? op values then
    throw ("comparison on '" ++ field ++ "' needs one integer")
  if op = .regex && !values.all (fun value => Regex.isValid value.text) then
    throw ("invalid regex on '" ++ field ++ "': <regex error>")
  return ⟨field, op, values⟩

theorem leaf_test_in_range (field : String) (relation : Relation) (value : Json) :
    leafTestInRange? field relation value = Ranged.of (leafTest field relation value) := by
  simp only [leafTestInRange?, leafTest, misfits_in_range, Ranged.lift_some, pure_bind,
    Ranged.of_bind, Ranged.of_ite, Ranged.of_throw, Ranged.of_pure]

end PaloAlto

namespace Sigma

def fieldTestInRange? (field : String) (op : Option Operator) (values : List Value) :
    Ranged RuleError FieldTest :=
  match op with
  | none => return merge field (values.map equalityAlternative)
  | some op => do
      if op.isComparison then
        if ← oneIntegerInRange? values then return ⟨field, op, values⟩
        else Ranged.of (fault ("'" ++ field ++ "|" ++ op.name ++ "' needs one integer"))
      else if op = .regex && !values.all (fun value => Regex.isValid value.text) then
        Ranged.of (fault ("invalid regular expression on '" ++ field ++ "': <regex error>"))
      else return ⟨field, op, values.map asText⟩

theorem field_test_in_range (field : String) (op : Option Operator) (values : List Value) :
    fieldTestInRange? field op values = Ranged.of (fieldTest field op values) := by
  cases op with
  | none => rfl
  | some op =>
      simp only [fieldTestInRange?, fieldTest, one_integer_in_range, Ranged.lift_some, pure_bind,
        Ranged.of_ite]
      rfl

def selectionsInRange? (name : String) (value : Yaml) : Ranged RuleError Named :=
  match value with
  | .sequence items => do
      if items.all (fun item => item.entries?.isSome) && items.length = 1 then
        Ranged.of (selections name (← (items[0]? : Option Yaml)))
      else Ranged.of (selections name (.sequence items))
  | value => Ranged.of (selections name value)

theorem selections_in_range (name : String) (value : Yaml) :
    selectionsInRange? name value = Ranged.of (selections name value) := by
  unfold selectionsInRange?
  split
  · rename_i items
    split
    · rename_i single
      simp only [Bool.and_eq_true, decide_eq_true_eq] at single
      obtain ⟨item, rfl⟩ := List.length_eq_one_iff.mp single.2
      cases item with
      | mapping entries => rfl
      | tagged tag value =>
          -- A tag leaves the mapping a keyword, in the list as on its own.
          obtain ⟨entries, found⟩ := Option.isSome_iff_exists.mp
            (List.all_eq_true.mp single.1 (.tagged tag value) (by simp))
          have keyword : selections name (.sequence [.tagged tag value]) =
              keywords name [.tagged tag value] := by
            simp [selections, found]
          rw [keyword]
          rfl
      | scalar value => cases single.1
      | sequence items => cases single.1
    · rfl
  · rfl

end Sigma

theorem fold_in_range {add : LogSource → FieldTest → LogSource}
    {addInRange? : LogSource → FieldTest → Option LogSource} {tests : List FieldTest}
    (each : ∀ source, ∀ test ∈ tests, addInRange? source test = some (add source test))
    (source : LogSource) : tests.foldlM addInRange? source = some (tests.foldl add source) := by
  induction tests generalizing source with
  | nil => rfl
  | cons test rest induction =>
      rw [List.foldlM_cons, each source test (by simp), Option.bind_eq_bind, Option.bind_some,
        induction fun source other member => each source other (List.mem_cons_of_mem test member)]
      rfl

namespace Splunk

def addSourceInRange? (source : LogSource) (test : FieldTest) : Option LogSource := do
  let value ← test.values[0]?
  return match test.field with
    | "index" => { source with category := some value.text }
    | "source" => { source with product := some value.text }
    | "sourcetype" => { source with service := some value.text }
    | _ => source

theorem add_source_in_range {test : FieldTest} (known : isSourceTest test = true)
    (source : LogSource) : addSourceInRange? source test = some (addSource source test) := by
  obtain ⟨field, op, values⟩ := test
  simp only [isSourceTest, Bool.and_eq_true, decide_eq_true_eq] at known
  obtain ⟨value, rfl⟩ := List.length_eq_one_iff.mp known.1.2
  rfl

def toRuleInRange? (search : Search) : Option Rule := do
  let logSource ← search.logic.1.foldlM addSourceInRange? {}
  return { search.toRule with logSource }

theorem to_rule_in_range (search : Search) : toRuleInRange? search = some search.toRule := by
  have each (source : LogSource) (test : FieldTest) (member : test ∈ search.logic.1) :
      addSourceInRange? source test = some (addSource source test) := by
    apply add_source_in_range
    rw [logic_eq] at member
    split at member
    · cases member
    · rw [Expression.lifted_tests] at member
      exact (List.mem_filter.mp member).2
  rw [toRuleInRange?, fold_in_range each]
  rfl

end Splunk

namespace QRadar

def addSourceInRange? (source : LogSource) (test : FieldTest) : Option LogSource := do
  let value ← test.values[0]?
  return if test.field = typeCall then { source with product := some value.text }
    else if test.field = categoryCall then { source with category := some value.text }
    else { source with service := some value.text }

theorem add_source_in_range {test : FieldTest} (known : isSourceTest test = true)
    (source : LogSource) : addSourceInRange? source test = some (addSource source test) := by
  obtain ⟨field, op, values⟩ := test
  simp only [isSourceTest, Bool.and_eq_true, decide_eq_true_eq] at known
  obtain ⟨value, rfl⟩ := List.length_eq_one_iff.mp known.1.2
  rfl

def toRuleInRange? (filter : Option (Logic FieldTest)) (clauses : Clauses) : Option Rule := do
  let sources := filter.elim [] fun expression => (Expression.liftTests isSourceTest expression).1
  let logSource ← sources.foldlM addSourceInRange? {}
  return { toRule filter clauses with logSource }

theorem to_rule_in_range (filter : Option (Logic FieldTest)) (clauses : Clauses) :
    toRuleInRange? filter clauses = some (toRule filter clauses) := by
  cases filter with
  | none => rfl
  | some expression =>
      have each (source : LogSource) (test : FieldTest)
          (member : test ∈ (Expression.liftTests isSourceTest expression).1) :
          addSourceInRange? source test = some (addSource source test) := by
        rw [Expression.lifted_tests] at member
        exact add_source_in_range (List.mem_filter.mp member).2 source
      rw [toRuleInRange?, Option.elim_some, fold_in_range each]
      rfl

end QRadar

namespace CrowdStrike

def sourceOfValue? (field : String) (value : Value) : Option LogSource :=
  if field = eventField then
    (categoryOf? value.text).map fun category => { category := some category }
  else if field = platformField then
    (productOf? value.text).map fun product => { product := some product }
  else none

def sourceOfInRange? (test : FieldTest) : Option (Option LogSource) :=
  if test.op = .equals ∧ test.values.length = 1 then do
    return sourceOfValue? test.field (← test.values[0]?)
  else some none

theorem source_of_in_range (test : FieldTest) : sourceOfInRange? test = some (sourceOf? test) := by
  obtain ⟨field, op, values⟩ := test
  match op, values with
  | .equals, [value] => rfl
  | .equals, [] => rfl
  | .equals, _ :: _ :: _ => simp [sourceOfInRange?, sourceOf?]
  | .contains, _ => rfl
  | .startsWith, _ => rfl
  | .endsWith, _ => rfl
  | .regex, _ => rfl
  | .gt, _ => rfl
  | .gte, _ => rfl
  | .lt, _ => rfl
  | .lte, _ => rfl

def liftSourcesInRange? (known : LogSource) : List FieldTest → Option (LogSource × List FieldTest)
  | [] => some (known, [])
  | test :: rest => do
      let value ← test.values[0]?
      match (sourceOfValue? test.field value).bind (addSource? known) with
      | some source => liftSourcesInRange? source rest
      | none =>
          let (source, others) ← liftSourcesInRange? known rest
          return (source, test :: others)

theorem value_of_source {test : FieldTest} (fixed : (sourceOf? test).isSome = true) :
    ∃ value, test.values = [value] ∧ sourceOf? test = sourceOfValue? test.field value := by
  have found := source_of_in_range test
  rw [sourceOfInRange?] at found
  split at found
  · rename_i single
    obtain ⟨value, values⟩ := List.length_eq_one_iff.mp single.2
    rw [values] at found
    exact ⟨value, values, (Option.some.inj found).symm⟩
  · rw [← Option.some.inj found] at fixed
    cases fixed

theorem lift_sources_in_range {tests : List FieldTest}
    (fixed : ∀ test ∈ tests, (sourceOf? test).isSome = true) (known : LogSource) :
    liftSourcesInRange? known tests = some (liftSources known tests) := by
  induction tests generalizing known with
  | nil => rfl
  | cons test rest induction =>
      obtain ⟨value, values, source⟩ := value_of_source (fixed test (by simp))
      have others := induction fun other member => fixed other (List.mem_cons_of_mem test member)
      rw [liftSourcesInRange?, liftSources, values, source]
      simp only [List.getElem?_cons_zero, Option.bind_eq_bind, Option.bind_some, others]
      cases (sourceOfValue? test.field value).bind (addSource? known) <;> rfl

def liftSourceInRange? (expression : Logic FieldTest) : Option (LogSource × Logic FieldTest) :=
  match Expression.liftTests (fun test => (sourceOf? test).isSome) expression with
  | (_, none) => some ({}, expression)
  | (tests, some rest) => do
      let (source, others) ← liftSourcesInRange? {} tests
      return (source, Logic.conj (others.map .term ++ [rest]))

theorem lift_source_in_range (expression : Logic FieldTest) :
    liftSourceInRange? expression = some (liftSource expression) := by
  have fixed : ∀ test ∈ (Expression.liftTests (fun test => (sourceOf? test).isSome) expression).1,
      (sourceOf? test).isSome = true := by
    intro test member
    rw [Expression.lifted_tests] at member
    exact (List.mem_filter.mp member).2
  rw [liftSourceInRange?, liftSource]
  generalize Expression.liftTests (fun test => (sourceOf? test).isSome) expression = parts at fixed
  obtain ⟨tests, rest⟩ := parts
  cases rest with
  | none => rfl
  | some rest =>
      simp only [lift_sources_in_range fixed, Option.bind_eq_bind, Option.bind_some]
      rfl

end CrowdStrike

open DetectionRules.Parser (ranged Ensures ensures_pure ensures_bind ensures_last ensures_ite ensures_check
  ensures_expected ensures_unsupported ensures_fail_at)

namespace CrowdStrike

def countArgumentInRange? (field : Option String) (distinct : Bool) :
    RangedParser (Option String × Bool) := do
  let offset ← ranged Parser.offset
  match ← ranged parameter? with
  | some "field" | none =>
      let fields ← ranged fieldList
      return (some (← (fields[0]? : Option String)), distinct)
  | some "distinct" =>
      return (field, Text.sameLetters (← ranged (Parser.word "true or false")) "true")
  | some name =>
      ranged (Parser.failAt offset ("unsupported count() parameter '" ++ name ++ "'"))

theorem ensures_field_list : Ensures fieldList (· ≠ []) := by
  refine ensures_last fun listed => ensures_ite ?_ ?_
  · have members : Ensures (Parser.sepBy comma fieldName) (· ≠ []) :=
      ensures_last fun first => ensures_last fun others => ensures_pure nofun
    exact ensures_bind members fun fields found => ensures_last fun _ => ensures_pure found
  · exact ensures_last fun name => ensures_pure nofun

theorem count_argument_in_range (field : Option String) (distinct : Bool) :
    countArgumentInRange? field distinct = ranged (countArgument field distinct) := by
  have first : (do
      let fields ← ranged fieldList
      return (some (← (fields[0]? : Option String)), distinct)) =
      ranged (do return ((← fieldList).head?, distinct)) := by
    apply Parser.bind_ranged ensures_field_list
    rintro fields found
    obtain ⟨name, others, rfl⟩ := List.exists_cons_of_ne_nil found
    rfl
  rw [countArgumentInRange?, countArgument, Parser.ranged_bind]
  refine bind_congr fun offset => ?_
  rw [Parser.ranged_bind]
  refine bind_congr fun name => ?_
  split
  · exact first
  · exact first
  · exact (Parser.ranged_bind _ _).symm
  · simp only

end CrowdStrike

namespace Yara

def ignoringCaseInRange? (test : FieldTest) : Option FieldTest := do
  let text := (← test.values[0]?).text
  let pattern :=
    if test.op = .regex then
      if Text.startsWith text "(?" then text else "(?i)" ++ text
    else "(?i)" ++ Regex.escape text
  return .single contentField .regex (.str pattern)

theorem ignoring_case_in_range {test : FieldTest} (valued : test.values ≠ []) :
    ignoringCaseInRange? test = some (ignoringCase test) := by
  obtain ⟨value, others, values⟩ := List.exists_cons_of_ne_nil valued
  rw [ignoringCaseInRange?, ignoringCase, values]
  rfl

def modifierInRange? (test : FieldTest) : RangedParser (Option FieldTest) := do
  match ← get with
  | ⟨.word word, offset⟩ :: rest =>
      if (afterDollar? word).isSome || word == "condition:" then return none
      else if word == "nocase" && test.field == contentField then
        set rest
        return some (← ignoringCaseInRange? test)
      else if isNeutralModifier word then
        set rest
        return some test
      else if isUnsupportedModifier word then
        ranged (Parser.unsupported ("the '" ++ word ++ "' string modifier"))
      else ranged (Parser.failAt (some offset) ("unknown string modifier '" ++ word ++ "'"))
  | _ => return none

theorem modifier_in_range {test : FieldTest} (valued : test.values ≠ []) :
    modifierInRange? test = ranged (modifier test) := by
  rw [modifierInRange?, modifier, Parser.ranged_bind, Parser.ranged_get]
  refine bind_congr fun tokens => ?_
  match tokens with
  | ⟨.word word, offset⟩ :: rest =>
      simp only [ignoring_case_in_range valued, Parser.lift_some, pure_bind, Parser.ranged_ite,
        Parser.ranged_bind, Parser.ranged_set, Parser.ranged_pure]
  | [] | ⟨.quoted _, _⟩ :: _ | ⟨.pattern _ _, _⟩ :: _ | ⟨.symbol _, _⟩ :: _ => rfl

def stringDefinitionInRange? : RangedParser Selection := do
  let (word, offset) ← ranged (Parser.wordAt "a string identifier")
  match (afterDollar? word).filter Named.isIdentifier with
  | none =>
      ranged (Parser.failAt offset
        ("expected a string identifier like $a, found '" ++ word ++ "'"))
  | some name =>
      ranged (Parser.sign "=")
      let test ← Parser.iterateInRange? modifierInRange? (← ranged stringTest)
      return ⟨name, [test]⟩

theorem ensures_valued_test : Ensures stringTest (·.values ≠ []) := by
  refine ensures_last fun tokens => ?_
  split
  · exact ensures_last fun _ => ensures_pure (List.cons_ne_nil _ _)
  · refine ensures_last fun _ => ensures_check fun _ => ensures_last fun _ => ?_
    exact ensures_pure (List.cons_ne_nil _ _)
  · exact ensures_last fun _ => ensures_last fun bytes => ensures_pure (List.cons_ne_nil _ _)
  · exact ensures_expected _

theorem ensures_valued_modifier {test : FieldTest} (valued : test.values ≠ []) :
    Ensures (modifier test) fun next => ∀ found ∈ next, found.values ≠ [] := by
  refine ensures_last fun tokens => ?_
  split
  · refine ensures_ite (ensures_pure nofun) (ensures_ite ?_ (ensures_ite ?_ ?_))
    · refine ensures_last fun _ => ensures_pure ?_
      rintro _ ⟨⟩
      exact List.cons_ne_nil _ _
    · refine ensures_last fun _ => ensures_pure ?_
      rintro _ ⟨⟩
      exact valued
    · exact ensures_ite (ensures_unsupported _) (ensures_fail_at _ _)
  · exact ensures_pure nofun

theorem string_definition_in_range : stringDefinitionInRange? = ranged stringDefinition := by
  rw [stringDefinitionInRange?, stringDefinition, Parser.ranged_bind]
  refine bind_congr fun (word, offset) => ?_
  simp only
  cases (afterDollar? word).filter Named.isIdentifier with
  | none => rfl
  | some name =>
      have modified : (do
          let test ← Parser.iterateInRange? modifierInRange? (← ranged stringTest)
          return ⟨name, [test]⟩ : RangedParser Selection) =
          ranged (do return ⟨name, [← Parser.iterate modifier (← stringTest)]⟩) := by
        refine Parser.bind_ranged ensures_valued_test fun start valued => ?_
        have iterated : Parser.iterateInRange? modifierInRange? start =
            ranged (Parser.iterate modifier start) :=
          Parser.iterate_in_range (fun _ => modifier_in_range) (fun _ => ensures_valued_modifier)
            valued
        rw [iterated]
        exact (Parser.ranged_bind _ _).symm
      simp only [modified, Parser.ranged_bind]

end Yara

namespace YaraL

def placeholderInRange? (word : String) : Option (Option String) :=
  if word.toList.head? == some '$' && !Text.containsChar word '.' then
    (from? 1 word.toList).map fun name => some (String.ofList name)
  else some none

theorem placeholder_in_range (word : String) :
    placeholderInRange? word = some (placeholder? word) := by
  rw [placeholderInRange?, placeholder?, after?]
  by_cases path : Text.containsChar word '.'
  · simp [path]
  · cases letters : word.toList with
    | nil => simp [path]
    | cons c rest =>
        by_cases dollar : c = '$'
        · subst dollar
          have cut : from? 1 ('$' :: rest) = some rest :=
            Text.from_eq_some_iff.mpr ⟨['$'], rfl, rfl⟩
          simp [path, cut]
        · simp [path, dollar]

/-- Adds a conjunct to the group of its variable, which is only looked up if it is the only one. -/
def groupInRange? (groups : List EventGroup) (conjunct : Logic (String × FieldTest)) :
    RangedParser (List EventGroup) := do
  let events := (conjunct.terms.map (·.1)).eraseDups
  if events.length = 1 then
    return addPredicate (← (events[0]? : Option String)) (conjunct.map (·.2)) groups
  else ranged (Parser.unsupported "predicates spanning several event variables")

theorem group_in_range (groups : List EventGroup) (conjunct : Logic (String × FieldTest)) :
    groupInRange? groups conjunct = ranged (group groups conjunct) := by
  rw [groupInRange?, group]
  generalize (conjunct.terms.map (·.1)).eraseDups = events
  match events with
  | [] => rfl
  | [event] => rfl
  | _ :: _ :: _ => rw [if_neg (by simp)]

end YaraL

end DetectionRules
