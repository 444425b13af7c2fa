import DetectionRules.Dialect.Sigma
import DetectionRules.Proofs.Named
import DetectionRules.Proofs.Sigma.Document

/-!
What is read back of a rule that looks for keywords. Its selections are entries
of the detection section, beside the keys of the section itself, and the
condition mentions them as bare words. The names that both leave free come back
as they were. Two keys of the section and the word of a negation are not free.
-/

namespace DetectionRules

namespace Yaml.Document

mutual

/-- What is read where the document is written. -/
def value : Document → Yaml
  | .null => .scalar .null
  | .bool value => .scalar (.bool value)
  | .int value => .scalar (.int value)
  | .float value => .scalar (.float (Scalar.floatText value))
  | .text content => .scalar (.str content)
  | .list items => .sequence (values items)
  | .record fields => .mapping (entries fields)

def values : List Document → List Yaml
  | [] => []
  | item :: rest => value item :: values rest

def entries : List (String × Document) → List (Yaml × Yaml)
  | [] => []
  | (key, field) :: rest => (.scalar (.str key), value field) :: entries rest

end

theorem values_eq (items : List Document) : values items = items.map value := by
  induction items with
  | nil => rfl
  | cons item rest induction => rw [values, induction, List.map_cons]

theorem entries_eq (fields : List (String × Document)) :
    entries fields = fields.map fun field => (.scalar (.str field.1), value field.2) := by
  induction fields with
  | nil => rfl
  | cons field rest induction => rw [entries, induction, List.map_cons]

end Yaml.Document

namespace Yaml

mutual

def decideEq : (left right : Yaml) → Decidable (left = right)
  | .scalar left, .scalar right => decidable_of_iff (left = right) (by simp)
  | .sequence left, .sequence right =>
      have := decideItemsEq left right
      decidable_of_iff (left = right) (by simp)
  | .mapping left, .mapping right =>
      have := decideEntriesEq left right
      decidable_of_iff (left = right) (by simp)
  | .tagged leftTag left, .tagged rightTag right =>
      have := decideEq left right
      decidable_of_iff (leftTag = rightTag ∧ left = right) (by simp)
  | .scalar _, .sequence _ | .scalar _, .mapping _ | .scalar _, .tagged _ _ => isFalse nofun
  | .sequence _, .scalar _ | .sequence _, .mapping _ | .sequence _, .tagged _ _ => isFalse nofun
  | .mapping _, .scalar _ | .mapping _, .sequence _ | .mapping _, .tagged _ _ => isFalse nofun
  | .tagged _ _, .scalar _ | .tagged _ _, .sequence _ | .tagged _ _, .mapping _ => isFalse nofun

def decideItemsEq : (left right : List Yaml) → Decidable (left = right)
  | [], [] => isTrue rfl
  | [], _ :: _ | _ :: _, [] => isFalse nofun
  | left :: lefts, right :: rights =>
      have := decideEq left right
      have := decideItemsEq lefts rights
      decidable_of_iff (left = right ∧ lefts = rights) (by simp)

def decideEntriesEq : (left right : List (Yaml × Yaml)) → Decidable (left = right)
  | [], [] => isTrue rfl
  | [], _ :: _ | _ :: _, [] => isFalse nofun
  | (leftKey, left) :: lefts, (rightKey, right) :: rights =>
      have := decideEq leftKey rightKey
      have := decideEq left right
      have := decideEntriesEq lefts rights
      decidable_of_iff ((leftKey = rightKey ∧ left = right) ∧ lefts = rights) (by simp)

end

instance : DecidableEq Yaml := decideEq

end Yaml

namespace Sigma

open Expression (Delimiters Operands EndsConjunction EndsDisjunction FitsIn Wording operand wordingIn)
open Token (Spells)

/-- Names that stand for the selections they name. -/
def bare (names : List String) : List (String × Logic String) :=
  names.map fun name => (name, .term name)

theorem lookup_bare {names : List String} {name : String} (known : name ∈ names) :
    (bare names).lookup name = some (.term name) := by
  induction names with
  | nil => cases known
  | cons first rest induction =>
      rw [bare, List.map_cons, List.lookup_cons]
      by_cases same : name = first
      · simp [same]
      · rw [beq_false_of_ne same]
        exact induction (List.mem_of_ne_of_mem same known)

def wording : Wording String where
  term := fun name => [.word name]
  conjunction := [.word "and"]
  disjunction := [.word "or"]
  negation := fun inner => .word "not" :: inner

theorem spells_condition {condition : Logic String} {text : String}
    (filled : condition.hasEmptyGroup = false)
    (known : ∀ name ∈ condition.terms, Named.isIdentifier name = true)
    (rendered : Expression.render spelling condition = .ok text) :
    Spells {} text (wordingIn wording .none condition) := by
  have names : ∀ name ∈ condition.terms, ∀ text, spelling.term name = .ok text →
      Spells {} text (wording.term name) := by
    rintro name member _ ⟨⟩
    obtain ⟨some, plain⟩ := Named.plain_of_identifier (known name member)
    exact Token.spells_plain some plain
  exact Expression.spells_render filled names Token.connects_and Token.connects_or
    (fun _ _ => Token.spells_not) rfl rendered

abbrev stop : List Token → Bool := Parser.nextIsSign "|"

theorem next_is_keyword_false {word : String} {next : List Lexeme} {tokens : List Token}
    (other : ∀ lexeme ∈ next.head?, ¬IsWord word lexeme) (same : tokens.map (·.lexeme) = next) :
    Parser.nextIsKeyword word tokens = false := by
  cases tokens with
  | nil => rfl
  | cons token rest =>
      rw [Bool.eq_false_iff]
      intro isNext
      exact other token.lexeme (by simp [← same]) (is_word_of_keyword isNext)

theorem is_word_self (word : String) : IsWord word (.word word) := Parser.same_letters_self word

theorem reads_reference {names : List String} {name : String} (known : name ∈ names)
    {next : List Lexeme} (ends : Level.operand.Ends next) :
    Parser.Reads (reference (bare names)) [.word name] (.term name) next := by
  apply Parser.reads_cons
  intro offset
  apply Parser.reads_nil
  intro rest same
  have noJoin := next_is_keyword_false (ends "of" (by decide)) same
  have noQuantifier : Parser.takeIf (fun tokens => ["1", "any", "all"].contains (Text.lower name) &&
      Parser.nextIsKeyword "of" tokens) rest = .ok (false, rest) :=
    Parser.take_if_false (by rw [noJoin, Bool.and_false])
  simp only [reference, Parser.bind_apply, Parser.word_at_apply, noQuantifier, lookup_bare known]
  rfl

theorem ends_conjunction {next : List Lexeme} (ends : Level.conjunction.Ends next) :
    EndsConjunction connectives stop next where
  conjunction := fun _ same => next_is_keyword_false (ends "and" (by decide)) same
  adjacent := fun _ _ => rfl

theorem ends_disjunction {next : List Lexeme} (ends : Level.disjunction.Ends next) :
    EndsDisjunction connectives stop next where
  toEndsConjunction := ends_conjunction (ends.mono (by decide))
  disjunction := fun _ same => next_is_keyword_false (ends "or" (by decide)) same

theorem delimiters : Delimiters connectives stop [.word "or"] where
  filled := by simp
  disjoins := fun next => Expression.reads_disjunction_word fun _ _ => rfl
  divides := fun next => ends_conjunction
    (Level.ends_word (is_word_self "or") (by decide))
  opening := fun offset rest => ⟨by simp, rfl⟩
  closing := fun next => ends_disjunction (Level.ends_symbol _ _ _)

theorem begins_reference {name : String} (free : Text.sameLetters name "not" = false) :
    Expression.BeginsTerm connectives stop (.word name) := by
  refine ⟨by simp, fun offset rest => ⟨by simp, ?_⟩⟩
  simp [Expression.Connectives.nextIsNegation, Expression.Connectives.nextIs, connectives, free]

def Parses (names : List String) (levels : Nat) (parser : Parser (Logic String)) : Prop :=
  ∃ more, levels ≤ more ∧ parser = operand connectives stop (reference (bare names)) more

def fits (names : List String) (_ : Bool) (name : String) (next : List Lexeme) : Prop :=
  (name ∈ names ∧ Text.sameLetters name "not" = false) ∧ Level.operand.Ends next

theorem operands (names : List String) :
    Operands connectives stop wording (fits names) Logic.term (Parses names) :=
  Operands.of_operand 0 "not" delimiters (fun _ => .term _)
    (fun ⟨⟨known, free⟩, ends⟩ =>
      Expression.reads_term ⟨_, rfl, begins_reference free⟩ (reads_reference known ends))
    ⟨rfl, fun _ => rfl⟩ (fun _ _ => ⟨rfl, rfl⟩)
    (fun _ _ reads => Expression.reads_conjunct (fun _ _ => rfl) reads) (by simp [wording])

/-- A condition is read in normal form. -/
theorem reads_condition {names : List String} {condition : Logic String}
    (filled : condition.hasEmptyGroup = false)
    (shallow : condition.depth ≤ Expression.maxDepth + 1)
    (known : ∀ name ∈ condition.terms, name ∈ names ∧ Text.sameLetters name "not" = false) :
    Parser.Reads (Expression.parse connectives stop (reference (bare names)))
      (wordingIn wording .none condition) (condition.spread.bind .term) [] := by
  have fit : FitsIn wording (fits names) .none false condition.spread [] := by
    refine @Expression.fits_of_follows _ _ _ Level.operand.Ends _ _ _ _ ?_ ?_ ?_ ?_ ?_
    · exact fun next => Level.ends_symbol _ _ _
    · exact fun next => Level.ends_word (is_word_self "and") (by decide)
    · exact fun next => Level.ends_word (is_word_self "or") (by decide)
    · exact fun name member _ _ ends => ⟨known name (Logic.terms_spread condition ▸ member), ends⟩
    · exact fun _ _ => nofun
  have whole := (operands names).reads_expression ⟨_, Nat.le_refl _, rfl⟩
    (Logic.flat_spread filled) ((Logic.depth_spread_le condition).trans shallow) fit
    (ends_disjunction fun _ _ => nofun)
  rwa [Expression.wording_spread wording filled] at whole

theorem read_condition {detection : Detection} {names : List String} {condition : Logic String}
    {text : String} (named : detection.names = bare names)
    (identifiers : ∀ name ∈ names, Named.isIdentifier name = true)
    (filled : condition.hasEmptyGroup = false)
    (shallow : condition.depth ≤ Expression.maxDepth + 1)
    (known : ∀ name ∈ condition.terms, name ∈ names ∧ Text.sameLetters name "not" = false)
    (rendered : Expression.render spelling condition = .ok text) :
    readCondition detection text = .ok (condition.spread.bind .term, none) := by
  obtain ⟨tokens, listed, same⟩ := Token.list_of_spells
    (spells_condition filled (fun name member => identifiers name (known name member).1) rendered)
  have parsed := reads_condition filled shallow known tokens [] same rfl
  rw [List.append_nil] at parsed
  have read : conditionParser detection tokens =
      .ok ((condition.spread.bind .term, none), []) := by
    rw [conditionParser, named, Parser.bind_apply, parsed]
    rfl
  rw [readCondition, listed]
  change (conditionParser detection tokens >>= fun result => pure result.1) = _
  rw [read]
  rfl

/-- A test for keywords, none of which is a glob. -/
def IsKeywords (test : FieldTest) : Prop :=
  test.field = keywordField ∧ test.op = .contains ∧
    ∀ value ∈ test.values, '*' ∉ value.text.toList

instance (test : FieldTest) : Decidable (IsKeywords test) := inferInstanceAs (Decidable (_ ∧ _ ∧ _))

/-- The test with each of its values once, as a text. -/
def settled (test : FieldTest) : FieldTest :=
  ⟨test.field, test.op, (test.values.map asText).foldl Expression.addValue []⟩

theorem scalar_of_value (value : Value) :
    scalarText? (valueDocument value).value = some value.text := by
  cases value <;> rfl

theorem value_of_value (field : String) (value : Value) :
    valueOf field (valueDocument value).value = .ok value := by
  cases value with
  | int number =>
      change Except.ok ((Text.int64? number.toInt).elim _ Value.int) = _
      rw [Text.int64_of_to_int]
      rfl
  | str text => rfl

theorem keyword_of_value (name : String) {value : Value} (plain : '*' ∉ value.text.toList) :
    keyword name (valueDocument value).value = .ok (.contains, asText value) := by
  have noStar : Text.containsChar value.text '*' = false := by
    simpa [Text.containsChar] using plain
  rw [keyword, scalar_of_value]
  change (if Text.containsChar value.text '*' then _ else _) = _
  rw [noStar]
  rfl

theorem selections_of_scalars (name : String) {items : List Yaml} (filled : items ≠ [])
    (scalars : ∀ item ∈ items, item.entries? = none) :
    selections name (.sequence items) = keywords name items := by
  obtain ⟨first, rest, rfl⟩ := List.exists_cons_of_ne_nil filled
  have scalar := scalars first (by simp)
  have none : (first :: rest).mapM Yaml.entries? = none := by
    rw [List.mapM_cons, scalar]
    rfl
  rw [selections.eq_def]
  split
  · rename_i same
    cases same
  · rename_i same
    cases same
    cases scalar
  · rename_i same
    cases same
    rw [none]
  · rename_i noSequence
    exact absurd rfl (noSequence _)

theorem merge_contains (field : String) {values : List Value} (filled : values ≠ []) :
    merge field (values.map fun value => (.contains, asText value)) =
      ⟨field, .contains, (values.map asText).foldl Expression.addValue []⟩ := by
  obtain ⟨first, rest, rfl⟩ := List.exists_cons_of_ne_nil filled
  have same : ((first :: rest).map fun value => (Operator.contains, asText value)).all
      (·.1 = .contains) = true := by
    simp
  have texts : ((first :: rest).map fun value => (Operator.contains, asText value)).map (·.2) =
      (first :: rest).map asText := by
    rw [List.map_map]
    rfl
  rw [merge, texts]
  exact if_pos same

theorem selections_of_list (name : String) {test : FieldTest} (sought : IsKeywords test)
    (filled : test.values ≠ []) :
    selections name (Yaml.Document.list (test.values.map valueDocument)).value =
      .ok (single name [settled test]) := by
  obtain ⟨field, op, plain⟩ := sought
  have each : test.values.mapM (keyword name ∘ Yaml.Document.value ∘ valueDocument) =
      .ok (test.values.map fun value => (.contains, asText value)) :=
    Success.map_m fun value member => keyword_of_value name (plain value member)
  rw [Yaml.Document.value, Yaml.Document.values_eq, List.map_map,
    selections_of_scalars name (by simpa using filled)]
  · rw [keywords, List.mapM_map, each]
    change (if _ then _ else _) = _
    rw [if_neg (by simpa using filled), merge_contains _ filled, settled, field, op]
    rfl
  · intro item member
    obtain ⟨value, _, rfl⟩ := List.mem_map.mp member
    exact entries_of_scalar (scalar_of_value value)

theorem group_tests {tests : List FieldTest} (filled : tests ≠ [])
    (sought : ∀ test ∈ tests, IsKeywords test) :
    groupTests tests = .ok [("keywords|contains", tests)] := by
  have key : ∀ test ∈ tests, fieldKey test = .ok "keywords|contains" := by
    intro test member
    obtain ⟨field, op, _⟩ := sought test member
    rw [fieldKey, op, field]
    rfl
  have others : ∀ front rest : List FieldTest, (∀ test ∈ rest, fieldKey test = .ok "keywords|contains") →
      rest.foldlM (fun groups test => do return addTest groups (← fieldKey test) test)
        [("keywords|contains", front)] = (.ok [("keywords|contains", front ++ rest)] : Reading _) := by
    intro front rest keys
    induction rest generalizing front with
    | nil => rw [List.append_nil]; rfl
    | cons test rest induction =>
        rw [List.foldlM_cons, keys test (by simp)]
        change List.foldlM _ (addTest _ _ _) _ = _
        rw [addTest, if_pos rfl, induction _ fun other member => keys other (by simp [member]),
          List.append_assoc, List.singleton_append]
  obtain ⟨first, rest, rfl⟩ := List.exists_cons_of_ne_nil filled
  rw [groupTests, List.foldlM_cons, key first (by simp)]
  exact others [first] rest fun test member => key test (by simp [member])

theorem field_tests_of_all {values : List Value} (filled : values ≠ []) :
    fieldTests "keywords|contains|all" (Yaml.Document.list (values.map valueDocument)).value =
      .ok (values.map fun value => ⟨keywordField, .contains, [asText value]⟩) := by
  have parts : (Text.splitWhen (· == '|') "keywords|contains|all".toList).map String.ofList =
      ["keywords", "contains", "all"] := by
    decide
  have each : values.mapM (valueOf "keywords" ∘ Yaml.Document.value ∘ valueDocument) =
      .ok (values.map id) :=
    Success.map_m fun value _ => value_of_value "keywords" value
  have listed : valuesOf "keywords" (Yaml.Document.list (values.map valueDocument)).value =
      .ok values := by
    rw [Yaml.Document.value, Yaml.Document.values_eq, List.map_map, valuesOf.eq_def]
    dsimp only
    rw [List.mapM_map, each, List.map_id]
    change (if _ then _ else _) = _
    rw [if_neg (by simpa using filled)]
    rfl
  have modified : ["contains", "all"].foldlM (addModifier "keywords") {} =
      .ok ⟨some .contains, true⟩ := rfl
  have tests : values.mapM (fun value => fieldTest "keywords" (some .contains) [value]) =
      .ok (values.map fun value => ⟨keywordField, .contains, [asText value]⟩) :=
    Success.map_m fun _ _ => rfl
  rw [fieldTests, parts]
  dsimp only
  rw [if_neg (by decide), modified, listed]
  exact tests

theorem settled_single {test : FieldTest} (sought : IsKeywords test) {value : Value}
    (single : test.values = [value]) : settled test = ⟨keywordField, .contains, [asText value]⟩ := by
  obtain ⟨field, op, _⟩ := sought
  rw [settled, field, op, single]
  rfl

theorem mapping_tests_of_field {name key : String} {value : Yaml} {tests : List FieldTest}
    (filled : tests ≠ []) (read : fieldTests key value = .ok tests) :
    mappingTests name [(.scalar (.str key), value)] = .ok tests := by
  rw [mappingTests, List.mapM_cons]
  change ((fieldTests key value >>= _) >>= _) = _
  have whole : [tests].flatten = tests := by simp
  rw [read]
  change (if [tests].flatten.isEmpty then _ else pure [tests].flatten) = _
  rw [whole, if_neg (by simpa using filled)]
  rfl

/-- Tests with a keyword each are one field whose values all must match. -/
theorem selections_of_record (name : String) {tests : List FieldTest} (filled : tests ≠ [])
    (sought : ∀ test ∈ tests, IsKeywords test)
    (short : ∀ test ∈ tests, ∃ value, test.values = [value]) :
    selections name (Yaml.Document.record [("keywords|contains|all",
      .list (tests.flatMap fun test => test.values.map valueDocument))]).value =
        .ok (single name (tests.map settled)) := by
  have some : tests.flatMap (·.values) ≠ [] := by
    obtain ⟨first, rest, rfl⟩ := List.exists_cons_of_ne_nil filled
    obtain ⟨value, same⟩ := short first (by simp)
    simp [same]
  have texts : (tests.flatMap (·.values)).map (fun value =>
      (⟨keywordField, .contains, [asText value]⟩ : FieldTest)) = tests.map settled := by
    rw [List.map_flatMap, List.map_eq_flatMap]
    refine List.flatMap_congr fun test member => ?_
    obtain ⟨value, same⟩ := short test member
    rw [settled_single (sought test member) same, same]
    rfl
  have read := field_tests_of_all some
  rw [texts] at read
  rw [← List.map_flatMap, Yaml.Document.value, Yaml.Document.entries_eq, List.map_singleton,
    selections, mapping_tests_of_field (by simpa using filled) read]
  rfl

/-- A selection that looks for keywords is read as it is written. -/
theorem selections_of_selection {selection : Selection} (proper : selection.Proper)
    (sought : ∀ test ∈ selection.tests, IsKeywords test) {document : Yaml.Document}
    (written : selectionDocument selection = .ok document) :
    selections selection.name document.value =
      .ok (single selection.name (selection.tests.map settled)) := by
  obtain ⟨name, tests⟩ := selection
  rw [selectionDocument] at written
  dsimp only at written sought ⊢
  match tests, proper.filled with
  | [test], _ =>
      obtain ⟨field, op, plain⟩ := sought test (by simp)
      dsimp only at written
      rw [if_pos ⟨field, op⟩] at written
      cases written
      exact selections_of_list name (sought test (by simp)) (proper.tests test (by simp)).filled
  | first :: second :: others, several =>
      dsimp only at written
      rw [selectionDocument.recordOf, group_tests several sought] at written
      obtain ⟨_, ⟨⟩, written⟩ := Success.of_bind written
      obtain ⟨fields, found, written⟩ := Success.of_bind written
      cases written
      rw [List.mapM_cons] at found
      obtain ⟨field, made, found⟩ := Success.of_bind found
      cases found
      rw [fieldDocument] at made
      split at made
      · rename_i short
        cases made
        refine selections_of_record name several sought fun test member => ?_
        exact List.length_eq_one_iff.mp (beq_iff_eq.mp (List.all_eq_true.mp short test member))
      · cases made
      · simp

theorem set_field_fresh {fields : List (String × Yaml.Document)} {field : String × Yaml.Document}
    (fresh : field.1 ∉ fields.map (·.1)) : setField fields field = fields ++ [field] := by
  induction fields with
  | nil => rfl
  | cons other rest induction =>
      rw [List.map_cons, List.mem_cons, not_or] at fresh
      rw [setField, if_neg (Ne.symm fresh.1), induction fresh.2, List.cons_append]

theorem fold_set_field {fields : List (String × Yaml.Document)}
    (distinct : (fields.map (·.1)).Nodup) : fields.foldl setField [] = fields := by
  have behind : ∀ front rest : List (String × Yaml.Document), ((front ++ rest).map (·.1)).Nodup →
      rest.foldl setField front = front ++ rest := by
    intro front rest distinct
    induction rest generalizing front with
    | nil => rw [List.foldl_nil, List.append_nil]
    | cons field rest induction =>
        have fresh : field.1 ∉ front.map (·.1) := by
          rw [List.map_append] at distinct
          exact fun member => (List.nodup_append.mp distinct).2.2 _ member _ (by simp) rfl
        rw [List.append_cons] at distinct ⊢
        rw [List.foldl_cons, set_field_fresh fresh, induction _ distinct]
  exact behind [] fields distinct

/-- A rule that looks for keywords, with names that the detection section leaves free. -/
structure Survives (rule : Rule) : Prop where
  proper : rule.Proper
  uncounted : rule.aggregation = none
  sought : ∀ selection ∈ rule.selections, ∀ test ∈ selection.tests, IsKeywords test
  identifiers : ∀ selection ∈ rule.selections, Named.isIdentifier selection.name = true
  keys : ∀ selection ∈ rule.selections, selection.name ∉ ["condition", "timeframe"]
  words : ∀ name ∈ rule.condition.terms, Text.sameLetters name "not" = false
  shallow : rule.condition.depth ≤ Expression.maxDepth + 1

def settledSelection (selection : Selection) : Selection :=
  ⟨selection.name, selection.tests.map settled⟩

/-- The field is the entry of the selection. -/
structure Enters (field : String × Yaml.Document) (selection : Selection) : Prop where
  named : field.1 = selection.name
  read : selections selection.name field.2.value =
    .ok ([settledSelection selection], .term selection.name)

theorem add_entry_free {detection : Detection} {name : String} {value : Yaml} {named : Named}
    (free : name ∉ ["condition", "timeframe"]) (read : selections name value = .ok named) :
    addEntry detection (.scalar (.str name), value) = .ok { detection with
      selections := detection.selections ++ named.1
      names := detection.names ++ [(name, named.2)] } := by
  simp only [List.mem_cons, List.not_mem_nil, or_false, not_or] at free
  have key : orFault "detection keys must be strings" (Yaml.scalar (.str name)).str? = .ok name := rfl
  simp only [addEntry, key, bind, Except.bind]
  split
  · exact absurd rfl free.1
  · exact absurd rfl free.2
  · rw [read]
    rfl

theorem add_selections {fields : List (String × Yaml.Document)} {added : List Selection}
    (entered : List.Forall₂ Enters fields added)
    (free : ∀ selection ∈ added, selection.name ∉ ["condition", "timeframe"]) (detection : Detection) :
    (Yaml.Document.entries fields).foldlM addEntry detection = .ok { detection with
      selections := detection.selections ++ added.map settledSelection
      names := detection.names ++ bare (added.map (·.name)) } := by
  induction entered generalizing detection with
  | nil =>
      rw [Yaml.Document.entries, List.foldlM_nil]
      simp [bare]
      rfl
  | @cons field selection fields added own others induction =>
      obtain ⟨key, value⟩ := field
      obtain ⟨rfl, read⟩ := own
      rw [Yaml.Document.entries, List.foldlM_cons, add_entry_free (free selection (by simp)) read]
      change List.foldlM _ _ _ = _
      rw [induction fun other member => free other (by simp [member])]
      simp [bare]

theorem detection_of_document {rule : Rule} (survives : Survives rule) {document : Yaml.Document}
    (written : detectionDocument rule = .ok document) :
    ∃ entries detection condition, document.value.entries? = some entries ∧
      entries.foldlM addEntry {} = .ok detection ∧
      detection.selections = rule.selections.map settledSelection ∧
      detection.names = bare (rule.selections.map (·.name)) ∧
      detection.condition = some condition ∧
      Expression.render spelling rule.condition = .ok condition := by
  obtain ⟨fields, listed, written⟩ := Success.of_bind written
  obtain ⟨condition, rendered, written⟩ := Success.of_bind written
  have entered : List.Forall₂ Enters fields rule.selections := by
    refine Success.of_map_m (fun selection member field made => ?_) listed
    obtain ⟨document, found, made⟩ := Success.of_bind made
    cases made
    exact ⟨rfl, selections_of_selection (survives.proper.selections selection member)
      (survives.sought selection member) found⟩
  have names : fields.map (·.1) = rule.selections.map (·.name) := by
    have each : List.Forall₂ (· = ·) (fields.map (·.1)) (rule.selections.map (·.name)) := by
      rw [List.forall₂_map_left_iff, List.forall₂_map_right_iff]
      exact entered.imp fun _ _ own => own.named
    rwa [List.forall₂_eq_eq_eq] at each
  have distinct : ((fields ++ [("condition", Yaml.Document.text condition)]).map (·.1)).Nodup := by
    rw [List.map_append, names]
    refine List.nodup_append.mpr ⟨survives.proper.distinct, by simp, ?_⟩
    rintro name member _ key rfl
    obtain rfl := List.mem_singleton.mp key
    obtain ⟨selection, inside, same⟩ := List.mem_map.mp member
    exact survives.keys selection inside (by simp [same])
  rw [survives.uncounted] at written
  have written : Except.ok (Yaml.Document.record ((fields ++ [] ++
      [("condition", Yaml.Document.text (condition ++ ""))]).foldl setField [])) =
        (.ok document : Reading Yaml.Document) := written
  rw [List.append_nil, String.append_empty, fold_set_field distinct] at written
  cases written
  have added := add_selections entered survives.keys {}
  refine ⟨_, ⟨rule.selections.map settledSelection, bare (rule.selections.map (·.name)),
    some condition, none⟩, condition, rfl, ?_, rfl, rfl, rfl, rendered⟩
  rw [Yaml.Document.entries_eq, List.map_append, ← Yaml.Document.entries_eq, List.foldlM_append,
    added]
  rfl

/-- The rule that is read where a rule is written. -/
def reread (rule : Rule) : Rule where
  dialect := .sigma
  title := some (rule.title.getD defaultTitle)
  description := rule.description
  logSource := rule.logSource
  selections := rule.selections.map settledSelection
  condition := rule.condition.spread.bind .term
  aggregation := none

def documentFields (title : String) (description : Option String) (source : LogSource)
    (detection : Yaml.Document) : List (String × Yaml.Document) :=
  [("title", .text title)] ++ (description.map fun text => ("description", .text text)).toList ++
    [("logsource", sourceDocument source), ("detection", detection)]

theorem read_fields (title : String) (description : Option String) (source : LogSource)
    (detection : Yaml.Document) : ∃ root,
      (Yaml.Document.record (documentFields title description source detection)).value.entries? =
        some root ∧
      requiredText root "title" = .ok title ∧ optionalText root "description" = .ok description ∧
      logSource root = .ok source ∧ Yaml.lookup? "detection" root = some detection.value := by
  refine ⟨_, rfl, ?_, ?_, ?_, ?_⟩
  · rfl
  · cases description <;> rfl
  · obtain ⟨product, category, service⟩ := source
    cases description <;> cases product <;> cases category <;> cases service <;> rfl
  · cases description <;> rfl

theorem to_rule_of_document {rule : Rule} (survives : Survives rule) {detection : Yaml.Document}
    (written : detectionDocument rule = .ok detection) :
    toRule (Yaml.Document.record (documentFields (rule.title.getD defaultTitle) rule.description
      rule.logSource detection)).value = .ok (reread rule) := by
  obtain ⟨entries, found, condition, areEntries, added, selected, named, isCondition, rendered⟩ :=
    detection_of_document survives written
  have read : readCondition found condition = .ok (rule.condition.spread.bind .term, none) := by
    refine read_condition named ?_ survives.proper.condition survives.shallow ?_ rendered
    · intro name member
      obtain ⟨selection, inside, rfl⟩ := List.mem_map.mp member
      exact survives.identifiers selection inside
    · intro name member
      obtain ⟨selection, known⟩ := Option.isSome_iff_exists.mp (survives.proper.known name member)
      obtain ⟨inside, same⟩ := Rule.selection_mem known
      exact ⟨same ▸ List.mem_map_of_mem inside, survives.words name member⟩
  obtain ⟨root, isRoot, title, description, source, section_⟩ :=
    read_fields (rule.title.getD defaultTitle) rule.description rule.logSource detection
  rw [toRule, isRoot]
  simp only [orFault, bind, Except.bind, title, description, source, section_, areEntries, added,
    isCondition, read, Except.mapError]
  rw [reread, ← selected]
  rfl

theorem proper_settled {test : FieldTest} (sought : IsKeywords test) (proper : test.Proper) :
    (settled test).Proper where
  named := proper.named
  filled := by
    obtain ⟨value, member⟩ := List.exists_mem_of_ne_nil _ proper.filled
    exact List.ne_nil_of_mem
      (Expression.mem_fold_add_value.mpr (.inr (List.mem_map_of_mem member)))
  compared comparison := by
    rw [settled, sought.2.1] at comparison
    cases comparison

theorem proper_reread {rule : Rule} (survives : Survives rule) : (reread rule).Proper where
  filled := by simpa [reread] using survives.proper.filled
  named := by simpa [reread, settledSelection] using survives.proper.named
  selections := by
    intro settledOne member
    obtain ⟨selection, inside, rfl⟩ := List.mem_map.mp member
    have proper := survives.proper.selections selection inside
    refine ⟨by simpa [settledSelection] using proper.filled, fun settledTest member => ?_⟩
    obtain ⟨test, place, rfl⟩ := List.mem_map.mp member
    exact proper_settled (survives.sought selection inside test place) (proper.tests test place)
  distinct := by simpa [reread, settledSelection, Function.comp_def] using survives.proper.distinct
  known := by
    intro name member
    rw [reread, Logic.terms_bind, Logic.terms_spread] at member
    have known := survives.proper.known name (by simpa [Logic.terms] using member)
    simpa [reread, Rule.selection?, settledSelection] using known
  condition := (Logic.Normal.bind (Logic.flat_spread survives.proper.condition).filled
    fun name _ => .term name).filled
  aggregation := nofun

theorem eval_reread (rule : Rule) (holds : String → Bool) :
    (reread rule).condition.eval holds = rule.condition.eval holds := by
  rw [reread, Logic.eval_bind, ← Logic.eval_spread holds rule.condition]
  rfl

theorem settled_of_texts {test : FieldTest} (distinct : test.values.Nodup)
    (texts : ∀ value ∈ test.values, value.int? = none) : settled test = test := by
  have own : ∀ value ∈ test.values, asText value = value := by
    intro value member
    cases value with
    | int => cases texts _ member
    | str => rfl
  have same : test.values.map asText = test.values := by
    rw [List.map_congr_left own, List.map_id']
  rw [settled, same, Expression.fold_add_value_of_nodup distinct]

theorem ensure_content_write (value : Yaml.Document) (fields : List (String × Yaml.Document)) :
    Dialect.ensureContent (Yaml.write (("title", value) :: fields)) = .ok () := by
  have simple : Yaml.isSimpleKey "title" = true := by decide +kernel
  have key : Yaml.scalarText 2 "title" true = "title" := by decide +kernel
  have ink : Text.isAllBlank (Yaml.write (("title", value) :: fields)) = false := by
    rw [Yaml.write, if_neg (by simp), Yaml.fieldTexts, simple, if_pos rfl, key, String.join_cons]
    simp [Text.isAllBlank, Text.isBlank]
  rw [Dialect.ensureContent, ink]
  rfl

/-- The document that is written for a rule. -/
def document (rule : Rule) : Reading (List (String × Yaml.Document)) := do
  Dialect.ensureWritable .sigma rule
  let detection ← detectionDocument rule
  return documentFields (rule.title.getD defaultTitle) rule.description rule.logSource detection

theorem write_eq (rule : Rule) : write rule = (document rule).map Yaml.write := by
  rw [write, document]
  cases Dialect.ensureWritable .sigma rule with
  | error => rfl
  | ok => cases detectionDocument rule <;> rfl

theorem read_of_document {rule : Rule} {text : String} {document : Yaml}
    (content : Dialect.ensureContent text = .ok ()) (found : Yaml.read? text = some document)
    (built : toRule document = .ok rule) (sound : rule.WellFormed) : read text = .ok rule := by
  have checked : Dialect.checked rule = .ok rule := by
    rw [Dialect.checked, sound]
  rw [read, content, found]
  change (toRule document >>= fun rule => Dialect.located .sigma text (Dialect.checked rule)) = _
  rw [built]
  change Dialect.located .sigma text (Dialect.checked rule) = _
  rw [checked]
  rfl

/-- Selections for keywords come back from the document that is written for them, each value once
and as a text, and with a condition that means the same, if no selection bears the name of another
key and the condition does not mention a name that reads as a negation. -/
theorem keywords_reread {rule : Rule} {text : String} (sound : rule.WellFormed)
    (uncounted : rule.aggregation = none)
    (named : ∀ selection ∈ rule.selections, Named.isIdentifier selection.name = true)
    (sought : ∀ selection ∈ rule.selections, ∀ test ∈ selection.tests, IsKeywords test)
    (shallow : rule.condition.depth ≤ Expression.maxDepth + 1)
    (keys : ∀ selection ∈ rule.selections, selection.name ∉ ["condition", "timeframe"])
    (words : ∀ name ∈ rule.condition.terms, Text.sameLetters name "not" = false)
    (written : write rule = .ok text) :
    ∃ fields again, document rule = .ok fields ∧ text = Yaml.write fields ∧
      toRule (Yaml.Document.record fields).value = .ok again ∧
      (Yaml.read? text = some (Yaml.Document.record fields).value → read text = .ok again) ∧
      again.selections = rule.selections.map settledSelection ∧
      ((∀ test ∈ rule.tests, test.values.Nodup ∧ ∀ value ∈ test.values, value.int? = none) →
        again.selections = rule.selections) ∧
      ∀ holds, again.condition.eval holds = rule.condition.eval holds := by
  have survives : Survives rule :=
    ⟨rule.well_formed_iff.mp sound, uncounted, sought, named, keys, words, shallow⟩
  rw [write_eq] at written
  obtain ⟨fields, made, rfl⟩ := Success.of_map written
  obtain ⟨_, _, parts⟩ := Success.of_bind made
  obtain ⟨detection, entered, same⟩ := Success.of_bind parts
  cases same
  have built := to_rule_of_document survives entered
  refine ⟨_, reread rule, made, rfl, built, fun found => ?_, rfl, fun texts => ?_, eval_reread rule⟩
  · exact read_of_document (ensure_content_write _ _) found built
      ((reread rule).well_formed_iff.mpr (proper_reread survives))
  · refine (List.map_congr_left fun selection member => ?_).trans (List.map_id _)
    have same : selection.tests.map settled = selection.tests := by
      refine (List.map_congr_left fun test place => ?_).trans (List.map_id _)
      obtain ⟨distinct, texts⟩ := texts test (List.mem_flatMap.mpr ⟨selection, member, place⟩)
      exact settled_of_texts distinct texts
    rw [settledSelection, same]
    rfl

/-- A selection that is not mentioned may have the name of a negation. -/
def toolsOrScript : Rule where
  dialect := .yara
  title := some "Tools"
  description := none
  logSource := {}
  selections := [⟨"and", [⟨keywordField, .contains, [.str "mimikatz", .str "rubeus"]⟩]⟩,
    ⟨"them", [⟨keywordField, .contains, [.str "invoke"]⟩, ⟨keywordField, .contains, [.str "enc"]⟩]⟩,
    ⟨"Not", [⟨keywordField, .contains, [.str "test"]⟩]⟩]
  condition := .any [.not (.all [.term "and", .all [.term "them"]]), .any [.term "them"]]
  aggregation := none

theorem tools_or_script_reread : ∃ text again, write toolsOrScript = .ok text ∧
    read text = .ok again ∧ again.selections = toolsOrScript.selections ∧
    ∀ holds, again.condition.eval holds = toolsOrScript.condition.eval holds := by
  have known : ((document toolsOrScript).map fun fields => decide (Yaml.read? (Yaml.write fields) =
      some (Yaml.Document.record fields).value)) = .ok true := by
    decide +kernel
  obtain ⟨fields, made, known⟩ := Success.of_map known
  have faithful := of_decide_eq_true known
  have written : write toolsOrScript = .ok (Yaml.write fields) := by
    rw [write_eq, made]
    rfl
  obtain ⟨_, again, also, _, _, reads, _, texts, means⟩ := keywords_reread (by decide) rfl
    (by decide) (by decide) (by decide) (by decide) (by decide) written
  cases made.symm.trans also
  exact ⟨_, again, written, reads faithful, texts (by decide), means⟩

def mimikatz : Rule where
  dialect := .yara
  title := none
  description := none
  logSource := {}
  selections := [⟨"not", [⟨keywordField, .contains, [.str "mimikatz"]⟩]⟩]
  condition := .term "not"
  aggregation := none

/-- The condition is written as a negation of nothing. -/
theorem mimikatz_lost : mimikatz.WellFormed ∧ mimikatz.aggregation = none ∧
    (∀ selection ∈ mimikatz.selections, Named.isIdentifier selection.name = true) ∧
    (∀ selection ∈ mimikatz.selections, ∀ test ∈ selection.tests, IsKeywords test) ∧
    mimikatz.condition.depth = 1 ∧
    ∃ text, write mimikatz = .ok text ∧ ∀ again, read text ≠ .ok again := by
  have lost : ((write mimikatz).map fun text => (read text).isOk) = .ok false := by
    decide +kernel
  obtain ⟨text, written, refused⟩ := Success.of_map lost
  refine ⟨by decide, rfl, by decide, by decide, rfl, text, written, fun again accepted => ?_⟩
  rw [accepted] at refused
  cases refused

end Sigma

end DetectionRules
