import DetectionRules.Dialect.Registry
import DetectionRules.Proofs.Access.Rules
import DetectionRules.Proofs.Rule

/-!
Access in the spelling of field tests. A test without values has no spelling in
most dialects, but the tests of a well-formed rule have values.
-/

namespace DetectionRules

open Expression (Spelling Binding encloseIf)

variable {Term : Type}

namespace Expression

mutual

def renderInInRange? (spelling : Spelling Term) (term : Term → Ranged RuleError String)
    (surroundings : Binding) : Logic Term → Ranged RuleError String
  | .term item => term item
  | .all items => do
      let parts ← renderAllInRange? spelling term .conjunction items
      return encloseIf (Binding.conjunction.strength < surroundings.strength)
        (String.intercalate spelling.conjunction parts)
  | .any items => do
      let parts ← renderAllInRange? spelling term .disjunction items
      return encloseIf (Binding.disjunction.strength < surroundings.strength)
        (String.intercalate spelling.disjunction parts)
  | .not item => do
      let inner ← renderInInRange? spelling term
        (if spelling.negationEncloses then .none else .negation) item
      return spelling.negation inner

def renderAllInRange? (spelling : Spelling Term) (term : Term → Ranged RuleError String)
    (surroundings : Binding) : List (Logic Term) → Ranged RuleError (List String)
  | [] => return []
  | item :: rest => do
      let first ← renderInInRange? spelling term surroundings item
      let others ← renderAllInRange? spelling term surroundings rest
      return first :: others

end

def renderInRange? (spelling : Spelling Term) (term : Term → Ranged RuleError String)
    (expression : Logic Term) : Ranged RuleError String :=
  renderInInRange? spelling term .none expression

variable {spelling : Spelling Term} {term : Term → Ranged RuleError String}

mutual

theorem render_in_in_range (surroundings : Binding) (expression : Logic Term)
    (each : ∀ item ∈ expression.terms, term item = Ranged.of (spelling.term item)) :
    renderInInRange? spelling term surroundings expression =
      Ranged.of (renderIn spelling surroundings expression) := by
  cases expression with
  | term item =>
      rw [renderInInRange?, renderIn]
      exact each item (by simp [Logic.terms])
  | all items =>
      rw [renderInInRange?, renderIn, render_all_in_range _ items (by simpa [Logic.terms] using each),
        Ranged.of_bind]
      rfl
  | any items =>
      rw [renderInInRange?, renderIn, render_all_in_range _ items (by simpa [Logic.terms] using each),
        Ranged.of_bind]
      rfl
  | not item =>
      rw [renderInInRange?, renderIn, render_in_in_range _ item (by simpa [Logic.terms] using each),
        Ranged.of_bind]
      rfl

theorem render_all_in_range (surroundings : Binding) (items : List (Logic Term))
    (each : ∀ item ∈ Logic.termsOfAll items, term item = Ranged.of (spelling.term item)) :
    renderAllInRange? spelling term surroundings items =
      Ranged.of (renderAll spelling surroundings items) := by
  cases items with
  | nil =>
      rw [renderAllInRange?, renderAll]
      rfl
  | cons item rest =>
      simp only [Logic.termsOfAll, List.mem_append] at each
      rw [renderAllInRange?, renderAll,
        render_in_in_range surroundings item fun term member => each term (.inl member),
        render_all_in_range surroundings rest fun term member => each term (.inr member)]
      simp only [Ranged.of_bind, Ranged.of_pure]

end

theorem render_in_range {expression : Logic Term}
    (each : ∀ item ∈ expression.terms, term item = Ranged.of (spelling.term item)) :
    renderInRange? spelling term expression = Ranged.of (render spelling expression) :=
  render_in_in_range .none expression each

def renderAlternativesInRange? (disjunction : String)
    (single : FieldTest → Ranged RuleError String) (test : FieldTest) : Ranged RuleError String :=
  if test.values.length = 1 then single test
  else do
    let parts ← test.values.mapM fun value => single (test.withValue value)
    return "(" ++ String.intercalate disjunction parts ++ ")"

theorem alternatives_in_range {single : FieldTest → Ranged RuleError String}
    {spelled : FieldTest → Except RuleError String}
    (each : ∀ (field : String) (op : Operator) (value : Value),
      single (.single field op value) = Ranged.of (spelled (.single field op value)))
    (disjunction : String) (test : FieldTest) :
    renderAlternativesInRange? disjunction single test =
      Ranged.of (renderAlternatives disjunction spelled test) := by
  rw [renderAlternativesInRange?, renderAlternatives]
  split
  · rename_i alone
    obtain ⟨field, op, values⟩ := test
    obtain ⟨value, rfl⟩ := List.length_eq_one_iff.mp alone
    exact each field op value
  · have parts : test.values.mapM (fun value => single (test.withValue value)) =
        Ranged.of (test.values.mapM fun value => spelled (test.withValue value)) :=
      Ranged.map_m_in_range fun value _ => each test.field test.op value
    rw [parts, Ranged.of_bind]
    rfl

end Expression

def FieldTest.firstInRange? (test : FieldTest) : Option Value := test.values[0]?

open Expression (renderAlternativesInRange? alternatives_in_range)

namespace Kql

def wordTestInRange? (word : String) : FieldTest → Ranged RuleError String :=
  renderAlternativesInRange? disjunctionText fun test => do
    return columnText test.field ++ " " ++ word ++ " " ++
      Text.doubleQuote (← test.firstInRange?).text

def renderTestInRange? (test : FieldTest) : Ranged RuleError String :=
  match test.op with
  | .equals => do
      if 1 < test.values.length then
        return columnText test.field ++ " in (" ++
          String.intercalate ", " (test.values.map valueText) ++ ")"
      else return columnText test.field ++ " == " ++ valueText (← test.firstInRange?)
  | .gt | .gte | .lt | .lte => do
      return columnText test.field ++ " " ++ test.op.sign?.getD ">" ++ " " ++
        (← test.firstInRange?).text
  | .contains => wordTestInRange? "contains" test
  | .startsWith => wordTestInRange? "startswith" test
  | .endsWith => wordTestInRange? "endswith" test
  | .regex => wordTestInRange? "matches regex" test

theorem word_test_in_range (word : String) (test : FieldTest) :
    wordTestInRange? word test = Ranged.of (wordTestText word test) :=
  alternatives_in_range (fun _ _ _ => rfl) _ test

theorem render_test_in_range {test : FieldTest} (valued : test.values ≠ []) :
    renderTestInRange? test = Ranged.of (renderTest test) := by
  obtain ⟨field, op, values⟩ := test
  obtain ⟨value, others, rfl⟩ := List.exists_cons_of_ne_nil valued
  cases op with
  | equals => cases others <;> rfl
  | gt | gte | lt | lte => rfl
  | contains | startsWith | endsWith | regex => exact word_test_in_range _ _

end Kql

namespace Splunk

def globTestInRange? : FieldTest → Ranged RuleError String :=
  renderAlternativesInRange? disjunctionText fun test => do
    let text ← Ranged.of (literalText (← test.firstInRange?))
    let glob := (Glob.ofOperator? '*' text.toList test.op).getD text.toList
    return test.field ++ "=" ++ quote (String.ofList glob)

def freeTextTestInRange? : FieldTest → Ranged RuleError String :=
  renderAlternativesInRange? disjunctionText fun test => do
    return Text.doubleQuote (← Ranged.of (literalText (← test.firstInRange?)))

def renderTestInRange? (test : FieldTest) : Ranged RuleError String :=
  match test.op with
  | .equals => do
      if 1 < test.values.length then
        let values ← Ranged.of (test.values.mapM quoteValue)
        return test.field ++ " IN (" ++ String.intercalate ", " values ++ ")"
      else return test.field ++ "=" ++ (← Ranged.of (quoteValue (← test.firstInRange?)))
  | .contains => if test.field = rawField then freeTextTestInRange? test else globTestInRange? test
  | .startsWith | .endsWith => globTestInRange? test
  | .gt | .gte | .lt | .lte => do
      return test.field ++ (test.op.sign?.getD ">") ++ (← test.firstInRange?).text
  | .regex => throw (.unsupported .splunk "regular expressions inside the search expression")

theorem glob_test_in_range (test : FieldTest) :
    globTestInRange? test = Ranged.of (globTest test) :=
  alternatives_in_range (fun _ _ _ => (Ranged.of_bind _ _).symm) _ test

theorem free_text_test_in_range (test : FieldTest) :
    freeTextTestInRange? test = Ranged.of (freeTextTest test) :=
  alternatives_in_range (fun _ _ _ => (Ranged.of_bind _ _).symm) _ test

theorem render_test_in_range {test : FieldTest} (valued : test.values ≠ []) :
    renderTestInRange? test = Ranged.of (renderTest test) := by
  obtain ⟨field, op, values⟩ := test
  obtain ⟨value, others, rfl⟩ := List.exists_cons_of_ne_nil valued
  cases op with
  | equals =>
      cases others with
      | nil =>
          change (Ranged.of (quoteValue value) >>= fun text => pure (field ++ "=" ++ text)) =
            Ranged.of ([value].mapM quoteValue >>= _)
          rw [List.mapM_cons, List.mapM_nil]
          cases quoteValue value <;> rfl
      | cons second others =>
          change (Ranged.of ((value :: second :: others).mapM quoteValue) >>= fun texts =>
              pure (field ++ " IN (" ++ String.intercalate ", " texts ++ ")")) =
            Ranged.of ((value :: second :: others).mapM quoteValue >>= _)
          simp only [List.mapM_cons, Ranged.of_bind, bind_assoc, Ranged.of_pure, pure_bind]
  | gt | gte | lt | lte | regex => rfl
  | contains =>
      rw [renderTestInRange?, renderTest]
      simp only [Ranged.of_ite, glob_test_in_range, free_text_test_in_range]
  | startsWith | endsWith => exact glob_test_in_range _

def commandInRange? : Logic FieldTest → Option (Option String)
  | .term test =>
      if test.op = .regex then
        if test.values.length = 1 then do
          return some ("regex " ++ test.field ++ "=" ++ Text.doubleQuote (← test.firstInRange?).text)
        else some (some (whereAny (matchCalls test)))
      else some none
  | .not (.term test) =>
      if test.op = .regex ∧ test.values.length = 1 then do
        return some ("regex " ++ test.field ++ "!=" ++ Text.doubleQuote (← test.firstInRange?).text)
      else some none
  | expression => some (command? expression)

theorem command_in_range (conjunct : Logic FieldTest) :
    commandInRange? conjunct = some (command? conjunct) := by
  unfold commandInRange? command?
  split
  · rename_i test
    obtain ⟨field, op, values⟩ := test
    match values with
    | [] => cases op <;> rfl
    | [value] => cases op <;> rfl
    | _ :: _ :: _ => cases op <;> rfl
  · rename_i test
    obtain ⟨field, op, values⟩ := test
    match values with
    | [] => cases op <;> rfl
    | [value] => cases op <;> rfl
    | _ :: _ :: _ => cases op <;> rfl
  · rfl

end Splunk

namespace QRadar

def globTestInRange? (test : FieldTest) : Ranged RuleError String := do
  let text := (← test.firstInRange?).text
  if Text.containsChar text '%' || Text.containsChar text '_' then
    return matchesText test.field (anchored test.op text)
  else
    let glob := (Glob.ofOperator? '%' text.toList test.op).getD text.toList
    return column test.field ++ " LIKE " ++ Text.singleQuote (String.ofList glob)

def regexTestInRange? (test : FieldTest) : Ranged RuleError String := do
  return matchesText test.field (← test.firstInRange?).text

def renderTestInRange? (test : FieldTest) : Ranged RuleError String :=
  match test.op with
  | .equals => do
      if 1 < test.values.length then
        return column test.field ++ " IN (" ++
          String.intercalate ", " (test.values.map valueText) ++ ")"
      else return column test.field ++ " = " ++ valueText (← test.firstInRange?)
  | .contains | .startsWith | .endsWith =>
      renderAlternativesInRange? disjunctionText globTestInRange? test
  | .regex => renderAlternativesInRange? disjunctionText regexTestInRange? test
  | .gt | .gte | .lt | .lte => do
      return column test.field ++ " " ++ test.op.sign?.getD ">" ++ " " ++
        (← test.firstInRange?).text

theorem glob_alternatives_in_range (test : FieldTest) :
    renderAlternativesInRange? disjunctionText globTestInRange? test =
      Ranged.of (Expression.renderAlternatives disjunctionText (fun test => .ok (globTest test)) test) := by
  refine alternatives_in_range (fun field op value => ?_) _ test
  change (if _ then _ else _) = _
  rw [globTest, apply_ite Except.ok, Ranged.of_ite]
  rfl

theorem regex_alternatives_in_range (test : FieldTest) :
    renderAlternativesInRange? disjunctionText regexTestInRange? test =
      Ranged.of (Expression.renderAlternatives disjunctionText (fun test => .ok (regexTest test)) test) :=
  alternatives_in_range (fun _ _ _ => rfl) _ test

theorem render_test_in_range {test : FieldTest} (valued : test.values ≠ []) :
    renderTestInRange? test = Ranged.of (renderTest test) := by
  obtain ⟨field, op, values⟩ := test
  obtain ⟨value, others, rfl⟩ := List.exists_cons_of_ne_nil valued
  cases op with
  | equals => cases others <;> rfl
  | gt | gte | lt | lte => rfl
  | contains | startsWith | endsWith => exact glob_alternatives_in_range _
  | regex => exact regex_alternatives_in_range _

end QRadar

namespace CrowdStrike

def globTestInRange? (test : FieldTest) : Ranged RuleError String := do
  let globs ← Ranged.of (test.values.mapM (globText test.op))
  if globs.length = 1 then return test.field ++ "=" ++ (← (globs[0]? : Option String))
  else
    return "in(field=" ++ Text.doubleQuote test.field ++ ", values=["
      ++ String.intercalate ", " globs ++ "])"

def renderTestInRange? (test : FieldTest) : Ranged RuleError String := do
  let field ← Ranged.of (fieldText test.field)
  match test.op with
  | .regex =>
      renderAlternativesInRange? disjunctionText
        (fun test => do return field ++ "=" ++ slashed (← test.firstInRange?).text) test
  | .gt | .gte | .lt | .lte =>
      return field ++ test.op.sign?.getD ">" ++ (← test.firstInRange?).text
  | .contains =>
      if test.field = rawField then
        renderAlternativesInRange? disjunctionText
          (fun test => do return Text.doubleQuote (← test.firstInRange?).text) test
      else globTestInRange? test
  | .equals | .startsWith | .endsWith => globTestInRange? test

theorem glob_test_in_range (test : FieldTest) :
    globTestInRange? test = Ranged.of (globTest test) := by
  rw [globTestInRange?, globTest, Ranged.of_bind]
  refine bind_congr fun globs => ?_
  match globs with
  | [] => rfl
  | [glob] => rfl
  | _ :: _ :: _ => rw [if_neg (by simp)]; rfl

theorem render_test_in_range {test : FieldTest} (valued : test.values ≠ []) :
    renderTestInRange? test = Ranged.of (renderTest test) := by
  obtain ⟨field, op, values⟩ := test
  obtain ⟨value, others, rfl⟩ := List.exists_cons_of_ne_nil valued
  rw [renderTestInRange?, renderTest, Ranged.of_bind]
  refine bind_congr fun name => ?_
  cases op with
  | regex => exact alternatives_in_range (fun _ _ _ => rfl) _ _
  | gt | gte | lt | lte => rfl
  | contains =>
      simp only [Ranged.of_ite, glob_test_in_range]
      congr 1
      exact alternatives_in_range (fun _ _ _ => rfl) _ _
  | equals | startsWith | endsWith => exact glob_test_in_range _

end CrowdStrike

namespace YaraL

def renderTestInRange? (test : FieldTest) : Ranged RuleError String := do
  let path ← Ranged.of (pathText test.field)
  let alternatives (single : Value → String) :=
    renderAlternativesInRange? disjunctionText
      (fun test => do return single (← test.firstInRange?)) test
  let call (pattern : String) := "re.regex(" ++ path ++ ", " ++ patternText pattern ++ ")"
  match test.op with
  | .equals => alternatives fun value => path ++ " = " ++ valueText value
  | .gt | .gte | .lt | .lte =>
      return path ++ " " ++ test.op.sign?.getD ">" ++ " " ++ (← test.firstInRange?).text
  | .regex => alternatives fun value => call value.text
  | .contains | .startsWith | .endsWith =>
      alternatives fun value => call (textPattern test.op value.text)

theorem render_test_in_range {test : FieldTest} (valued : test.values ≠ []) :
    renderTestInRange? test = Ranged.of (renderTest test) := by
  obtain ⟨field, op, values⟩ := test
  obtain ⟨value, others, rfl⟩ := List.exists_cons_of_ne_nil valued
  rw [renderTestInRange?, renderTest, Ranged.of_bind]
  refine bind_congr fun path => ?_
  cases op with
  | gt | gte | lt | lte => rfl
  | equals | regex | contains | startsWith | endsWith =>
      exact alternatives_in_range (fun _ _ _ => rfl) _ _

end YaraL

namespace PaloAlto

def leafInRange? (test : FieldTest) : Option Condition := do
  return single test.field test.op (← test.firstInRange?)

def testConditionInRange? (test : FieldTest) : Option Condition :=
  if 1 < test.values.length ∧ test.op ≠ .equals then do
    return .any (← test.values.mapM fun value => leafInRange? (test.withValue value))
  else if 1 < test.values.length then
    some (.leaf test.field .within (.array (test.values.map Value.toJson)))
  else leafInRange? test

theorem test_condition_in_range {test : FieldTest} (valued : test.values ≠ []) :
    testConditionInRange? test = some (testCondition test) := by
  obtain ⟨field, op, values⟩ := test
  obtain ⟨value, others, rfl⟩ := List.exists_cons_of_ne_nil valued
  cases others with
  | nil => cases op <;> rfl
  | cons second others =>
      have leaves : (value :: second :: others).mapM
          (fun value => leafInRange? (.single field op value)) =
          some ((value :: second :: others).map (single field op)) := List.mapM_pure
      by_cases equals : op = .equals
      · subst equals
        rfl
      · rw [testConditionInRange?, if_pos ⟨by simp, equals⟩]
        change ((value :: second :: others).mapM
          (fun value => leafInRange? (.single field op value)) >>= fun leaves =>
            some (Condition.any leaves)) = _
        rw [leaves]
        cases op with
        | equals => exact absurd rfl equals
        | contains | startsWith | endsWith | regex | gt | gte | lt | lte => rfl

mutual

def ofLogicInRange? : Logic FieldTest → Option Condition
  | .term test => testConditionInRange? test
  | .all items => do return .all (← ofLogicAllInRange? items)
  | .any items => do return .any (← ofLogicAllInRange? items)
  | .not item => do return .not (← ofLogicInRange? item)

def ofLogicAllInRange? : List (Logic FieldTest) → Option (List Condition)
  | [] => some []
  | item :: rest => do
      let first ← ofLogicInRange? item
      let others ← ofLogicAllInRange? rest
      return first :: others

end

mutual

theorem of_logic_in_range (expression : Logic FieldTest)
    (valued : ∀ test ∈ expression.terms, test.values ≠ []) :
    ofLogicInRange? expression = some (ofLogic expression) := by
  cases expression with
  | term test =>
      rw [ofLogicInRange?, ofLogic]
      exact test_condition_in_range (valued test (by simp [Logic.terms]))
  | all items | any items =>
      rw [ofLogicInRange?, ofLogic, of_logic_all_in_range items (by simpa [Logic.terms] using valued)]
      rfl
  | not item =>
      rw [ofLogicInRange?, ofLogic, of_logic_in_range item (by simpa [Logic.terms] using valued)]
      rfl

theorem of_logic_all_in_range (items : List (Logic FieldTest))
    (valued : ∀ test ∈ Logic.termsOfAll items, test.values ≠ []) :
    ofLogicAllInRange? items = some (ofLogicAll items) := by
  cases items with
  | nil => rw [ofLogicAllInRange?, ofLogicAll]
  | cons item rest =>
      simp only [Logic.termsOfAll, List.mem_append] at valued
      rw [ofLogicAllInRange?, ofLogicAll,
        of_logic_in_range item fun test member => valued test (.inl member),
        of_logic_all_in_range rest fun test member => valued test (.inr member)]
      rfl

end

end PaloAlto

end DetectionRules
