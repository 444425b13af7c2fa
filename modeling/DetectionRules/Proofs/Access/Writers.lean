import DetectionRules.Proofs.Access.Rendering
import DetectionRules.Proofs.Dialect
import DetectionRules.Proofs.Access.Text
import DetectionRules.Proofs.Yara.Strings

/-!
Access in the writers that put the condition of a rule into an expression over
its tests. The tests have values because the rule was checked before.

Access in the writers of Sigma and YARA, which write the selections of a rule
one by one and only look at what they have counted or tested themselves.
-/

namespace DetectionRules

open Expression (encloseIf renderInRange? render_in_range)

/-- What a writer does with the expression of a rule, whose tests have values. -/
theorem Dialect.written_in_range {format : Format} {rule : Rule}
    {next : Logic FieldTest → Except RuleError String}
    {rangedNext : Logic FieldTest → Ranged RuleError String}
    (each : ∀ expression, (∀ test ∈ expression.terms, test.values ≠ []) →
      rangedNext expression = .of (next expression)) :
    (do
      Ranged.of (ensureWritable format rule)
      let expression ← Ranged.of (Dialect.expression format rule)
      rangedNext expression) =
    Ranged.of (do
      ensureWritable format rule
      let expression ← Dialect.expression format rule
      next expression) := by
  refine Ranged.bind_of fun _ ready => Ranged.bind_of fun expression found => ?_
  have proper := rule.well_formed_iff.mp (Dialect.well_formed_of_writable ready)
  rw [Dialect.expression_eq format proper] at found
  cases found
  exact each _ fun test member => (Rule.proper_of_mem_expression proper member).filled

namespace Kql

def writeInRange? (rule : Rule) : Ranged RuleError String := do
  Ranged.of (Dialect.ensureWritable .kql rule)
  let expression ← Ranged.of (Dialect.expression .kql rule)
  let filter ← renderInRange? spelling renderTestInRange? expression
  return String.intercalate "\n"
    ([(tableOfSource? rule.logSource).getD "union *", "| where " ++ filter] ++
      rule.aggregation.elim [] aggregationLines)

theorem write_in_range (rule : Rule) : writeInRange? rule = .of (write rule) := by
  refine Dialect.written_in_range fun expression valued => ?_
  rw [render_in_range fun test member => render_test_in_range (valued test member), Ranged.of_bind]
  rfl

end Kql

namespace QRadar

def writeInRange? (rule : Rule) : Ranged RuleError String := do
  Ranged.of (Dialect.ensureWritable .qradar rule)
  let expression ← Ranged.of (Dialect.expression .qradar rule)
  let sources := sourceTests rule.logSource
  let text ← renderInRange? spelling renderTestInRange? expression
  let filter := sources ++ [encloseIf (expression.isDisjunction && !sources.isEmpty) text]
  return "SELECT " ++ columnsText rule.aggregation ++ " FROM events WHERE " ++
    String.intercalate " AND " filter ++ rule.aggregation.elim "" aggregationText

theorem write_in_range (rule : Rule) : writeInRange? rule = .of (write rule) := by
  refine Dialect.written_in_range fun expression valued => ?_
  rw [render_in_range fun test member => render_test_in_range (valued test member), Ranged.of_bind]
  rfl

end QRadar

namespace CrowdStrike

def writeInRange? (rule : Rule) : Ranged RuleError String := do
  Ranged.of (Dialect.ensureWritable .crowdstrike rule)
  let expression ← Ranged.of (Dialect.expression .crowdstrike rule)
  let sources := sourceTerms rule.logSource
  let filter ← renderInRange? spelling renderTestInRange? expression
  let enclosed := encloseIf (expression.isDisjunction && !sources.isEmpty) filter
  let stats ← match rule.aggregation with
    | some aggregation => Ranged.of (aggregationText aggregation)
    | none => pure ""
  return String.intercalate " " (sources ++ [enclosed]) ++ stats

theorem write_in_range (rule : Rule) : writeInRange? rule = .of (write rule) := by
  refine Dialect.written_in_range fun expression valued => ?_
  rw [render_in_range fun test member => render_test_in_range (valued test member), Ranged.of_bind]
  refine bind_congr fun filter => ?_
  cases rule.aggregation with
  | none => rfl
  | some aggregation => exact (Ranged.of_bind _ _).symm

end CrowdStrike

namespace Splunk

def searchTermsInRange? (sources : List String) (conjuncts : List (Logic FieldTest)) :
    Ranged RuleError (List String) :=
  match Logic.group? Logic.conj conjuncts with
  | none => return sources
  | some expression =>
      if expression.terms.any (·.op = .regex) then
        throw (.unsupported .splunk "regular expressions nested inside boolean groups")
      else do
        let text ← renderInRange? spelling renderTestInRange? expression
        return sources ++ [encloseIf (expression.isDisjunction && !sources.isEmpty) text]

theorem search_terms_in_range (sources : List String) {conjuncts : List (Logic FieldTest)}
    (valued : ∀ conjunct ∈ conjuncts, ∀ test ∈ conjunct.terms, test.values ≠ []) :
    searchTermsInRange? sources conjuncts = .of (searchTerms sources conjuncts) := by
  rw [searchTermsInRange?, searchTerms, Logic.group?]
  cases conjuncts.isEmpty with
  | true => rfl
  | false =>
      have rendered : renderInRange? spelling renderTestInRange? (Logic.conj conjuncts) =
          .of (Expression.render spelling (Logic.conj conjuncts)) := by
        refine render_in_range fun test member => ?_
        rw [Logic.terms_conj] at member
        obtain ⟨conjunct, inside, place⟩ := List.mem_flatMap.mp member
        exact render_test_in_range (valued conjunct inside test place)
      simp only [Bool.false_eq_true, if_false, Ranged.of_ite, rendered, Ranged.of_bind]
      rfl

def writeInRange? (rule : Rule) : Ranged RuleError String := do
  Ranged.of (Dialect.ensureWritable .splunk rule)
  let expression ← Ranged.of (Dialect.expression .splunk rule)
  let commanded ← expression.conjuncts.mapM fun conjunct => do
    return (conjunct, ← commandInRange? conjunct)
  let terms ← searchTermsInRange? (sourceTerms rule.logSource)
    ((commanded.filter (·.2.isNone)).map (·.1))
  let search := if terms.isEmpty then "*" else String.intercalate " " terms
  let commands := commanded.filterMap (·.2)
  return String.join (search :: commands.map (" | " ++ ·)) ++
    (rule.aggregation.elim "" aggregationText)

theorem write_in_range (rule : Rule) : writeInRange? rule = .of (write rule) := by
  refine Dialect.written_in_range fun expression valued => ?_
  have commanded : (expression.conjuncts.mapM fun conjunct => do
      return (conjunct, ← commandInRange? conjunct) : Ranged RuleError _) =
      pure (expression.conjuncts.map fun conjunct => (conjunct, command? conjunct)) := by
    simp only [command_in_range, Ranged.lift_some, pure_bind, List.mapM_pure]
  have stay : ((expression.conjuncts.map fun conjunct => (conjunct, command? conjunct)).filter
      (·.2.isNone)).map (·.1) = expression.conjuncts.filter fun item => (command? item).isNone := by
    rw [List.filter_map, List.map_map]
    exact List.map_id _
  rw [commanded, pure_bind, stay, search_terms_in_range, Ranged.of_bind, List.filterMap_map]
  · rfl
  · intro conjunct member test inside
    apply valued
    rw [← Logic.terms_conjuncts]
    exact List.mem_flatMap.mpr ⟨conjunct, (List.mem_filter.mp member).1, inside⟩

end Splunk

namespace YaraL

def conjunctLineInRange? (conjunct : Logic FieldTest) : Ranged RuleError String := do
  return encloseIf conjunct.isDisjunction (← renderInRange? spelling renderTestInRange? conjunct)

def writeInRange? (rule : Rule) : Ranged RuleError String := do
  Ranged.of (Dialect.ensureWritable .yaral rule)
  let expression ← Ranged.of (Dialect.expression .yaral rule)
  let conjuncts ← expression.conjuncts.mapM conjunctLineInRange?
  let sections ← match rule.aggregation with
    | some aggregation => Ranged.of (aggregationSections aggregation)
    | none => pure { condition := "$" ++ eventVariable }
  let name := Named.toIdentifier (rule.title.getD Named.defaultTitle)
  let metadata := Named.Metadata.ofRule rule name
  return "rule " ++ name ++ " \x7b\n"
    ++ optionalSectionText "meta" (metadata.map Named.Metadata.line)
    ++ sectionText "events" (conjuncts ++ sections.bindings)
    ++ optionalSectionText "match" sections.matchLines
    ++ optionalSectionText "outcome" sections.outcomeLines
    ++ sectionText "condition" [sections.condition] ++ "\x7d\n"

theorem write_in_range (rule : Rule) : writeInRange? rule = .of (write rule) := by
  refine Dialect.written_in_range fun expression valued => ?_
  rw [Ranged.of_bind, Ranged.map_m_in_range]
  · refine bind_congr fun conjuncts => ?_
    cases rule.aggregation with
    | none => rfl
    | some aggregation => exact (Ranged.of_bind _ _).symm
  · intro conjunct member
    rw [conjunctLineInRange?, conjunctLine, Ranged.of_bind, render_in_range]
    · rfl
    · intro test inside
      apply render_test_in_range
      apply valued
      rw [← Logic.terms_conjuncts]
      exact List.mem_flatMap.mpr ⟨conjunct, member, inside⟩

end YaraL

namespace PaloAlto

def writeInRange? (rule : Rule) : Ranged RuleError String := do
  Ranged.of (Dialect.ensureWritable .paloalto rule)
  let expression ← Ranged.of (Dialect.expression .paloalto rule)
  let title := rule.title.getD Named.defaultTitle
  let condition ← ofLogicInRange? expression
  let json := Json.ofMembers
    [some ("name", .str title), rule.description.map fun text => ("description", .str text),
      some ("severity", .str "medium"),
      if rule.logSource.isEmpty then none else some ("logsource", rule.logSource.toJson),
      some ("conditions", (grouped condition).toJson),
      some ("actions", Json.ofStrings ["alert"])]
  return "rule " ++ nameText title ++ " " ++ json.pretty ++ "\n"

theorem write_in_range (rule : Rule) : writeInRange? rule = .of (write rule) := by
  refine Dialect.written_in_range fun expression valued => ?_
  rw [of_logic_in_range expression valued]
  rfl

end PaloAlto

open Text (from? upTo? between? placeOf? byteCount)

namespace Sigma

open Yaml (Document)

def valuesDocumentInRange? (values : List Value) : Option Document :=
  if values.length = 1 then values[0]?.map valueDocument
  else some (.list (values.map valueDocument))

theorem values_document_in_range (values : List Value) :
    valuesDocumentInRange? values = some (valuesDocument values) := by
  match values with
  | [] => rfl
  | [value] => rfl
  | _ :: _ :: _ => rfl

def keyValuesInRange? (key : String) (tests : List FieldTest) :
    Ranged RuleError (String × Document) := do
  if tests.all (·.values.length == 1) then
    let values ← (tests.mapM FieldTest.firstInRange? : Option (List Value))
    return (key ++ "|all", .list (values.map valueDocument))
  else
    let construct := "repeated multi-value matches on '" ++ key ++ "' in one selection"
    Ranged.of (unsupported construct)

def fieldDocumentInRange? (group : String × List FieldTest) :
    Ranged RuleError (String × Document) :=
  match group with
  | (key, [test]) => do return (key, ← valuesDocumentInRange? test.values)
  | (key, tests) => keyValuesInRange? key tests

theorem firsts_in_range {tests : List FieldTest}
    (single : ∀ test ∈ tests, test.values.length = 1) :
    tests.mapM FieldTest.firstInRange? = some (tests.flatMap (·.values)) := by
  induction tests with
  | nil => rfl
  | cons test rest induction =>
      obtain ⟨value, values⟩ := List.length_eq_one_iff.mp (single test (by simp))
      have others := induction fun other member => single other (List.mem_cons_of_mem test member)
      rw [List.mapM_cons, others, FieldTest.firstInRange?, List.flatMap_cons, values]
      rfl

theorem field_document_in_range (group : String × List FieldTest) :
    fieldDocumentInRange? group = .of (fieldDocument group) := by
  obtain ⟨key, tests⟩ := group
  have several : keyValuesInRange? key tests = .of (if tests.all (·.values.length == 1) then
      .ok (key ++ "|all", .list (tests.flatMap fun test => test.values.map valueDocument))
      else unsupported ("repeated multi-value matches on '" ++ key ++ "' in one selection")) := by
    rw [keyValuesInRange?, Ranged.of_ite]
    split
    · rename_i single
      rw [firsts_in_range (by simpa using single)]
      simp only [Ranged.lift_some, pure_bind, List.map_flatMap]
      rfl
    · rfl
  match tests with
  | [] => exact several
  | [test] =>
      rw [fieldDocumentInRange?, values_document_in_range]
      rfl
  | first :: second :: others => exact several

def recordOfInRange? (tests : List FieldTest) : Ranged RuleError Document := do
  let fields ← (← Ranged.of (groupTests tests)).mapM fieldDocumentInRange?
  return .record (fields.foldl setField [])

theorem record_of_in_range (tests : List FieldTest) :
    recordOfInRange? tests = .of (selectionDocument.recordOf tests) := by
  rw [recordOfInRange?, selectionDocument.recordOf, Ranged.of_bind]
  refine bind_congr fun groups => ?_
  rw [Ranged.map_m_in_range fun group _ => field_document_in_range group, Ranged.of_bind]
  rfl

def selectionDocumentInRange? (selection : Selection) : Ranged RuleError Document :=
  match selection.tests with
  | [test] =>
      if test.field = keywordField ∧ test.op = .contains then
        return .list (test.values.map valueDocument)
      else recordOfInRange? selection.tests
  | tests => recordOfInRange? tests

theorem selection_document_in_range (selection : Selection) :
    selectionDocumentInRange? selection = .of (selectionDocument selection) := by
  obtain ⟨name, tests⟩ := selection
  match tests with
  | [] => exact record_of_in_range []
  | [test] =>
      rw [selectionDocumentInRange?, record_of_in_range, selectionDocument]
      exact (Ranged.of_ite _ _ _).symm
  | first :: second :: others => exact record_of_in_range (first :: second :: others)

def detectionDocumentInRange? (rule : Rule) : Ranged RuleError Document := do
  let selections ← rule.selections.mapM fun selection => do
    return (selection.name, ← selectionDocumentInRange? selection)
  let window := (rule.aggregation.bind (·.window)).map fun window =>
    ("timeframe", Document.text window.text)
  let condition ← Ranged.of (Expression.render spelling rule.condition)
  let entry := ("condition", Document.text (condition ++ rule.aggregation.elim "" aggregationText))
  return .record ((selections ++ window.toList ++ [entry]).foldl setField [])

def writeInRange? (rule : Rule) : Ranged RuleError String := do
  Ranged.of (Dialect.ensureWritable .sigma rule)
  let detection ← detectionDocumentInRange? rule
  let description := rule.description.map fun text => ("description", Document.text text)
  return Yaml.write ([("title", Document.text (rule.title.getD defaultTitle))] ++ description.toList
    ++ [("logsource", sourceDocument rule.logSource), ("detection", detection)])

theorem detection_document_in_range (rule : Rule) :
    detectionDocumentInRange? rule = .of (detectionDocument rule) := by
  rw [detectionDocumentInRange?, detectionDocument, Ranged.of_bind]
  have selections : (rule.selections.mapM fun selection => do
      return (selection.name, ← selectionDocumentInRange? selection)) =
      Ranged.of (rule.selections.mapM fun selection => do
        return (selection.name, ← selectionDocument selection)) := by
    apply Ranged.map_m_in_range
    intro selection _
    rw [selection_document_in_range, Ranged.of_bind]
    rfl
  rw [selections]
  simp only [Ranged.of_bind]
  rfl

theorem write_in_range (rule : Rule) : writeInRange? rule = .of (write rule) := by
  rw [writeInRange?, write, Ranged.of_bind]
  refine bind_congr fun _ => ?_
  rw [detection_document_in_range, Ranged.of_bind]
  rfl

end Sigma

namespace Yara

open Content (patternParts digits byteText)

/-- The body and the flags of an expression, cut at the parenthesis that closes the flags. -/
def patternPartsInRange? (pattern : String) : Option (List Char × List Char) :=
  match pattern.toList with
  | '(' :: '?' :: rest =>
      match placeOf? (· == ')') rest with
      | none => some ('(' :: '?' :: rest, [])
      | some close => do
          let flags ← upTo? close rest
          if !flags.isEmpty && isFlags (String.ofList flags) then
            return (← from? (close + 1) rest, flags)
          else return ('(' :: '?' :: rest, [])
  | body => some (body, [])

theorem pattern_parts_in_range (pattern : String) :
    patternPartsInRange? pattern = some (patternParts pattern) := by
  rw [patternPartsInRange?]
  split
  · rename_i rest opens
    rw [patternParts, opens]
    cases found : placeOf? (· == ')') rest with
    | none =>
        have whole := Text.of_place_of_none found
        simp only [bne, whole, Nat.lt_irrefl]
        simp
    | some close =>
        obtain ⟨flags, c, body, rfl, rfl, closes, before⟩ := Text.of_place_of found
        obtain rfl : c = ')' := by simpa using closes
        have cut : from? (byteCount flags + 1) (flags ++ ')' :: body) = some body :=
          Text.from_eq_some_iff.mpr ⟨flags ++ [')'], by simp, by simp [byteCount]; rfl⟩
        have behind : (flags ++ ')' :: body).drop (flags.length + 1) = body := by
          rw [← List.drop_drop, List.drop_left, List.drop_one, List.tail_cons]
        simp only [Text.up_to_byte_count, bne, before, cut, behind, Option.bind_eq_bind,
          Option.bind_some]
        have shorter : flags.length < (flags ++ ')' :: body).length := by simp
        simp only [shorter, decide_true, Bool.and_true]
        split <;> rfl
  · rename_i plain
    rw [Content.pattern_parts_plain plain]

def slashedInRange? (pattern : String) : Option String := do
  let (body, flags) ← patternPartsInRange? pattern
  return "/" ++ String.ofList (Text.replaceChar '/' ['\\', '/'] body) ++ "/" ++ String.ofList flags

theorem slashed_in_range (pattern : String) : slashedInRange? pattern = some (slashed pattern) := by
  rw [slashedInRange?, pattern_parts_in_range, Content.slashed_eq]
  rfl

def pairsInRange? (compact : List Char) : Option (List String) :=
  (List.range ((byteCount compact + 1) / 2)).mapM fun index =>
    (between? (2 * index) (2 * index + 2) compact).map String.ofList

theorem from_behind_pair {first second : Char} (narrowFirst : first.utf8Size = 1)
    (narrowSecond : second.utf8Size = 1) (place : Nat) (rest : List Char) :
    from? (place + 2) (first :: second :: rest) = from? place rest := by
  rw [from?, if_pos (by omega), narrowFirst, Nat.add_sub_cancel, from?, if_pos (by omega),
    narrowSecond, Nat.add_sub_cancel]

theorem pairs_in_range {pairs : List (Char × Char)}
    (narrow : ∀ c ∈ digits pairs, c.utf8Size = 1) :
    pairsInRange? (digits pairs) = some (pairs.map byteText) := by
  rw [pairsInRange?]
  induction pairs with
  | nil => rfl
  | cons pair pairs induction =>
      have unfolded : digits (pair :: pairs) = pair.1 :: pair.2 :: digits pairs := rfl
      rw [unfolded] at narrow ⊢
      simp only [List.mem_cons, forall_eq_or_imp] at narrow
      obtain ⟨first, second, narrow⟩ := narrow
      have count : (byteCount (pair.1 :: pair.2 :: digits pairs) + 1) / 2 =
          (byteCount (digits pairs) + 1) / 2 + 1 := by
        rw [byteCount, byteCount]
        omega
      have here : between? (2 * 0) (2 * 0 + 2) (pair.1 :: pair.2 :: digits pairs) =
          some [pair.1, pair.2] := by
        have bytes : byteCount [pair.1, pair.2] = 2 := by simp [byteCount, first, second]
        have start : from? 0 (pair.1 :: pair.2 :: digits pairs) =
          some ([pair.1, pair.2] ++ digits pairs) := rfl
        rw [← bytes]
        exact Text.between_of_from start
      have later (index : Nat) : between? (2 * (index + 1)) (2 * (index + 1) + 2)
          (pair.1 :: pair.2 :: digits pairs) =
          between? (2 * index) (2 * index + 2) (digits pairs) := by
        simp only [between?, Nat.mul_add, from_behind_pair first second]
        simp
      rw [count, List.range_succ_eq_map, List.mapM_cons, List.mapM_map, here]
      simp only [Function.comp_def, Nat.succ_eq_add_one, later, induction narrow]
      rfl

def hexTextInRange? (text : String) : Ranged RuleError String := do
  let compact := String.ofList (text.toList.filter fun c => !Text.isBlank c)
  if !compact.isEmpty && isHexWord compact then
    return "\x7b " ++ Text.upper (String.intercalate " " (← pairsInRange? compact.toList)) ++ " \x7d"
  else throw (.unwritable .yara ("'" ++ text ++ "' is not a hex string"))

theorem hex_text_in_range (text : String) : hexTextInRange? text = .of (hexText text) := by
  rw [hexTextInRange?, hexText]
  generalize String.ofList (text.toList.filter fun c => !Text.isBlank c) = compact
  rw [Ranged.of_ite]
  split
  · rename_i hex
    simp only [isHexWord, Bool.and_eq_true, beq_iff_eq, List.all_eq_true] at hex
    have size := Content.size_of_hex_digits hex.2.2
    rw [String.ofList_toList] at size
    obtain ⟨pairs, digits⟩ := Content.exists_pairs (size ▸ hex.2.1)
    rw [← digits, pairs_in_range, Content.pairs_digits]
    · rfl
    · intro c member
      exact (Content.plain_of_hex_digit (hex.2.2 c (digits ▸ member))).2.2.2
  · rfl

def stringTextInRange? (test : FieldTest) (value : Value) : Ranged RuleError String := do
  let isContent := test.field = contentField
  let isBytes := test.field = bytesField
  if isContent ∧ test.op = .contains then return Text.doubleQuote value.text
  else if isContent ∧ test.op = .regex then return ← slashedInRange? value.text
  else if isBytes ∧ test.op = .equals then hexTextInRange? value.text
  else if isContent ∨ isBytes then
    throw (.unsupported .yara ("'" ++ test.op.name ++ "' matches on " ++ test.field))
  else throw (.unsupported .yara ("the field '" ++ test.field ++ "'"))

theorem string_text_in_range (test : FieldTest) (value : Value) :
    stringTextInRange? test value = .of (stringText test value) := by
  simp only [stringTextInRange?, stringText, slashed_in_range, hex_text_in_range, Ranged.of_ite,
    Ranged.lift_some]
  rfl

namespace Strings

def addValuesInRange? (base : String) (isSingle : Bool) (test : FieldTest) (strings : Strings)
    (number : Nat) : List Value → Ranged RuleError (Strings × List (Logic String))
  | [] => return (strings, [])
  | value :: rest => do
      let name := strings.freshName (if isSingle then base else base ++ "_" ++ toString number)
      let text ← stringTextInRange? test value
      let strings := { strings with definitions := strings.definitions ++ [(name, text)] }
      let (strings, others) ← addValuesInRange? base isSingle test strings (number + 1) rest
      return (strings, .term name :: others)

def addTestsInRange? (base : String) (isSingle : Bool) (strings : Strings) (number : Nat) :
    List FieldTest → Ranged RuleError (Strings × List (Logic String))
  | [] => return (strings, [])
  | test :: rest => do
      let (strings, values) ← addValuesInRange? base isSingle test strings number test.values
      let (strings, others) ←
        addTestsInRange? base isSingle strings (number + test.values.length) rest
      return (strings, Logic.disj values :: others)

def addSelectionInRange? (strings : Strings) (selection : Selection) : Ranged RuleError Strings := do
  let count := (selection.tests.flatMap (·.values)).length
  let (strings, tests) ←
    addTestsInRange? (Named.toIdentifier selection.name) (count == 1) strings 1 selection.tests
  return { strings with selections := strings.selections ++ [(selection.name, Logic.conj tests)] }

theorem add_values_in_range (base : String) (isSingle : Bool) (test : FieldTest)
    (strings : Strings) (number : Nat) (values : List Value) :
    addValuesInRange? base isSingle test strings number values =
      .of (addValues base isSingle test strings number values) := by
  induction values generalizing strings number with
  | nil => rfl
  | cons value rest induction =>
      simp only [addValuesInRange?, addValues, string_text_in_range, induction, Ranged.of_bind]
      rfl

theorem add_tests_in_range (base : String) (isSingle : Bool) (strings : Strings) (number : Nat)
    (tests : List FieldTest) :
    addTestsInRange? base isSingle strings number tests =
      .of (addTests base isSingle strings number tests) := by
  induction tests generalizing strings number with
  | nil => rfl
  | cons test rest induction =>
      simp only [addTestsInRange?, addTests, add_values_in_range, induction, Ranged.of_bind]
      rfl

theorem add_selection_in_range (strings : Strings) (selection : Selection) :
    addSelectionInRange? strings selection = .of (addSelection strings selection) := by
  simp only [addSelectionInRange?, addSelection, add_tests_in_range, Ranged.of_bind]
  rfl

end Strings

def writeInRange? (rule : Rule) : Ranged RuleError String := do
  Ranged.of (Dialect.ensureWritable .yara rule)
  let mentioned := rule.selections.filter fun selection =>
    rule.condition.terms.contains selection.name
  let strings ← mentioned.foldlM Strings.addSelectionInRange? {}
  let condition ← Ranged.of <| rule.condition.substitute fun name =>
    match strings.selections.lookup name with
    | some expression => .ok expression
    | none => .error (.unwritable .yara ("undefined selection '" ++ name ++ "'"))
  let name := Named.toIdentifier (rule.title.getD Named.defaultTitle)
  let metadata := Named.Metadata.ofRule rule name
  let conditionText ← Ranged.of (Expression.render spelling condition)
  return "rule " ++ name ++ "\n\x7b\n"
    ++ (if metadata.isEmpty then "" else sectionText "meta" (metadata.map Named.Metadata.line))
    ++ sectionText "strings" (strings.definitions.map fun (name, text) =>
      "$" ++ name ++ " = " ++ text)
    ++ sectionText "condition" [conditionText] ++ "\x7d\n"

theorem write_in_range (rule : Rule) : writeInRange? rule = .of (write rule) := by
  have strings (mentioned : List Selection) (start : Strings) :
      mentioned.foldlM Strings.addSelectionInRange? start =
        Ranged.of (mentioned.foldlM Strings.addSelection start) := by
    induction mentioned generalizing start with
    | nil => rfl
    | cons selection rest induction =>
        simp only [List.foldlM_cons, Strings.add_selection_in_range, induction, Ranged.of_bind]
  simp only [writeInRange?, write, strings, Ranged.of_bind]
  rfl

end Yara

end DetectionRules
