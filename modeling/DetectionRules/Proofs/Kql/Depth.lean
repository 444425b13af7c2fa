import DetectionRules.Dialect.Kql
import DetectionRules.Proofs.Depth

/-!
How deep filters of Kusto queries are read. A call of `not` reads a filter of its
own, which counts its parentheses from the start, so the calls are counted too.
-/

namespace DetectionRules.Kql

open DetectionRules.Parser (Takes takes_any takes_bind takes_bind_last takes_bind_get takes_pure
  takes_ite takes_fail takes_fail_at takes_expected takes_sees takes_skip takes_take_if takes_sign
  takes_word_at takes_word takes_literal takes_keyword takes_sep_by Traced)
open DetectionRules.Parser.Traced (outOfTurns of write Mirrors mirrors_of mirrors_pure mirrors_bind
  mirrors_ite)

theorem takes_column : Takes 1 column := by
  refine takes_bind_last (takes_take_if _) fun _ => takes_ite ?_ (takes_word _)
  refine takes_bind (takes_literal _) fun name => ?_
  exact takes_bind ((takes_sign "]").mono (Nat.zero_le 1)) fun _ => takes_pure _

theorem takes_call (name : String) : Takes 0 (takeCall name) := by
  refine takes_bind (takes_take_if _) fun _ => takes_ite ?_ (takes_pure _)
  exact takes_bind takes_skip fun _ => takes_pure _

theorem length_of_take_call {name : String} {tokens rest : List Token}
    (same : takeCall name tokens = .ok (true, rest)) : rest.length < tokens.length := by
  obtain ⟨isTaken, left, taken, same⟩ := Parser.of_bind same
  cases isTaken with
  | false => cases same
  | true =>
      have less := Parser.length_of_take_if taken
      have skips : Takes 0 (do Parser.skip; return true) := takes_bind takes_skip fun _ => takes_pure _
      have fewer := (skips left true rest same).2
      omega

theorem takes_comparison_sign : Takes 0 Dialect.takeComparison? := by
  refine takes_any fun tokens result rest same => ?_
  unfold Dialect.takeComparison? at same
  split at same
  · split at same
    · cases same
      exact List.suffix_cons _ _
    · cases same
      exact List.suffix_refl _
  · cases same
    exact List.suffix_refl _

theorem after_closing_suffix {depth : Nat} {tokens rest : List Token}
    (found : afterClosing? depth tokens = some rest) : rest <:+ tokens := by
  induction depth, tokens using afterClosing?.induct with
  | case1 tokens =>
      obtain rfl : tokens = rest := by simpa [afterClosing?] using found
      exact List.suffix_refl _
  | case2 depth => cases found
  | case3 depth token others opening induction =>
      rw [afterClosing?, if_pos opening] at found
      exact (induction found).trans (List.suffix_cons _ _)
  | case4 depth token others noOpening closing induction =>
      rw [afterClosing?, if_neg noOpening, if_pos closing] at found
      exact (induction found).trans (List.suffix_cons _ _)
  | case5 depth token others noOpening noClosing induction =>
      rw [afterClosing?, if_neg noOpening, if_neg noClosing] at found
      exact (induction found).trans (List.suffix_cons _ _)

theorem takes_time_expression : Takes 0 timeExpression := by
  have opening := (takes_sign "(").mono (Nat.zero_le 1)
  refine takes_bind ((takes_word_at _).mono (Nat.zero_le 1)) fun name => ?_
  refine takes_ite ?_ (takes_bind (takes_fail_at _ _) fun _ => ?_)
  all_goals
    refine takes_bind opening fun _ => takes_bind_get fun tokens result rest same => ?_
    cases found : afterClosing? 1 tokens with
    | none => simp [found, Parser.failAt] at same
    | some behind =>
        obtain rfl : behind = rest := by simpa [found] using same
        exact after_closing_suffix found

theorem takes_value : Takes 1 value := takes_bind (takes_literal _) fun _ => takes_pure _

theorem takes_string_value : Takes 1 stringValue :=
  takes_bind (takes_literal _) fun _ => takes_pure _

theorem takes_integer : Takes 1 integer := by
  refine takes_bind (takes_literal _) fun literal => ?_
  cases valueOf literal with
  | int number => exact takes_pure _
  | str text => exact takes_fail_at _ _

theorem takes_value_list : Takes 1 valueList := by
  refine takes_bind (takes_sign "(") fun _ => takes_bind ?_ fun values => ?_
  · exact (takes_sep_by (takes_take_if _) takes_value).mono (Nat.zero_le 1)
  · exact takes_bind ((takes_sign ")").mono (Nat.zero_le 1)) fun _ => takes_pure _

theorem takes_ensure_regex (offset : Option Nat) (pattern : String) :
    Takes 0 (Dialect.ensureRegex offset pattern) :=
  takes_ite (takes_pure _) (takes_fail_at _ _)

theorem takes_regular_expression : Takes 0 regularExpression := by
  refine takes_bind (takes_keyword _) fun _ => ?_
  refine takes_bind ((takes_literal _).mono (Nat.zero_le 1)) fun literal => ?_
  exact takes_bind (takes_ensure_regex _ _) fun _ => takes_pure _

theorem takes_word_test (field : String) (negated : Bool) : Takes 0 (wordTest field negated) := by
  have listed : Takes 0 (do return ⟨field, .equals, ← valueList⟩ : Parser FieldTest) :=
    takes_bind (takes_value_list.mono (Nat.zero_le 1)) fun _ => takes_pure _
  have texts (op : Operator) : Takes 0 (do return FieldTest.single field op (← stringValue)) :=
    takes_bind (takes_string_value.mono (Nat.zero_le 1)) fun _ => takes_pure _
  refine takes_bind ((takes_word_at _).mono (Nat.zero_le 1)) fun (operator, offset) => ?_
  simp only
  split
  iterate 2 exact listed
  iterate 8 exact texts _
  · refine takes_ite (takes_fail_at _ _) ?_
    exact takes_bind takes_regular_expression fun _ => takes_pure _
  · exact takes_fail_at _ _

theorem takes_test (field : String) : Takes 0 (testOf field) := by
  have equality : Takes 0 (do return kept (.single field .equals (← value))) :=
    takes_bind (takes_value.mono (Nat.zero_le 1)) fun _ => takes_pure _
  refine takes_bind takes_comparison_sign fun sign => ?_
  cases sign with
  | some op =>
      refine takes_ite (takes_bind takes_time_expression fun _ => takes_pure _) ?_
      exact takes_bind (takes_integer.mono (Nat.zero_le 1)) fun _ => takes_pure _
  | none =>
      refine takes_bind (takes_take_if _) fun _ => takes_ite equality ?_
      refine takes_bind (takes_take_if _) fun _ => takes_ite ?_ ?_
      · exact takes_bind (takes_value.mono (Nat.zero_le 1)) fun _ => takes_pure _
      refine takes_bind (takes_take_if _) fun _ => takes_ite ?_ ?_
      · exact takes_bind (takes_word_test field true) fun _ => takes_pure _
      refine takes_bind (takes_sees _) fun _ => takes_ite (takes_expected _) ?_
      exact takes_bind (takes_word_test field false) fun _ => takes_pure _

theorem takes_term {filter : Parser (Option (Logic FieldTest))} (takes : Takes 0 filter) :
    Takes 1 (term filter) := by
  refine takes_bind_last (takes_call "not") fun _ => takes_ite ?_ ?_
  · refine takes_bind_last takes fun inner => takes_bind (takes_sign ")") fun _ => takes_pure _
  · exact takes_bind takes_column takes_test

theorem takes_expression (negations : Nat) : Takes 1 (expression negations) := by
  induction negations with
  | zero => exact takes_fail _
  | succ negations induction =>
      have terms := takes_term (induction.mono (Nat.zero_le 1))
      exact takes_bind (Expression.takes_parse terms) fun _ => takes_pure _

/-- A call while a filter is read, and in how many calls of `not` the filter is. -/
structure Call where
  negations : Nat
  call : Expression.Call

def termWithin (filter : Traced Call (Option (Logic FieldTest))) :
    Traced Call (Logic (Option FieldTest)) := do
  if ← of (takeCall "not") then
    let inner ← filter
    of (Parser.sign ")")
    return match inner with
      | some inner => Logic.negate (inner.map some)
      | none => .term none
  else
    let field ← of column
    of (testOf field)

/-- A filter in so many calls of `not`, with turns for what is inside of it. -/
def filterWithin : Nat → Nat → Traced Call (Option (Logic FieldTest))
  | 0, _ => outOfTurns
  | turns + 1, negations =>
      if maxNegations < negations then of (Parser.fail "expression nested too deeply")
      else do
        let logic ← Expression.parseWithin connectives atPipe Expression.maxDepth (turns + 1)
          (Call.mk negations) (termWithin (filterWithin turns (negations + 1)))
        return logic.flatten

def Call.Within (call : Call) : Prop :=
  call.negations ≤ maxNegations ∧ call.call.Within Expression.maxDepth

theorem mirrors_term {filter : Parser (Option (Logic FieldTest))}
    {traced : Traced Call (Option (Logic FieldTest))} {turns : Nat} {tokens : List Token}
    (filters : ∀ tokens, tokens.length < turns → Mirrors Call.Within filter traced tokens)
    (enough : tokens.length < turns + 1) :
    Mirrors Call.Within (term filter) (termWithin traced) tokens := by
  refine mirrors_bind (mirrors_of _) fun isCall rest found => mirrors_ite (fun yes => ?_) fun _ => ?_
  · rw [yes] at found
    have less := length_of_take_call found
    refine mirrors_bind (filters rest (by omega)) fun inner left _ => ?_
    exact mirrors_bind (mirrors_of _) fun _ _ _ => mirrors_pure _
  · exact mirrors_bind (mirrors_of _) fun field _ _ => mirrors_of _

theorem mirrors_expression {turns negations : Nat} {tokens : List Token}
    (shallow : negations ≤ maxNegations + 1) (enough : tokens.length < turns) :
    Mirrors Call.Within (expression (maxNegations + 1 - negations)) (filterWithin turns negations)
      tokens := by
  -- By induction on the turns: what is inside of a call has two tokens less and a turn less.
  induction turns generalizing negations tokens with
  | zero => omega
  | succ turns induction =>
      rw [filterWithin]
      by_cases deep : maxNegations < negations
      · have none : maxNegations + 1 - negations = 0 := by omega
        rw [if_pos deep, none]
        exact mirrors_of _
      have next : maxNegations + 1 - negations = (maxNegations + 1 - (negations + 1)) + 1 := by omega
      rw [if_neg deep, next, expression]
      refine mirrors_bind ?_ fun logic rest _ => mirrors_pure _
      refine Expression.mirrors_parse (fun tokens enough => ?_) ?_ ?_ enough
      · exact mirrors_term (fun tokens enough => induction (by omega) enough) enough
      · exact takes_term ((takes_expression _).mono (Nat.zero_le 1))
      · exact fun call within => ⟨Nat.le_of_not_lt deep, within⟩

end DetectionRules.Kql

namespace DetectionRules.Expression

open DetectionRules.Parser (Takes)
open DetectionRules.Parser.Traced (of)

/-- Reading an expression comes to an end within its limits, and so does reading a filter with its
calls of `not`. -/
theorem reading_ends_within_depth {Term : Type} {connectives : Connectives}
    {stop : List Token → Bool} {atom : Parser (Logic Term)} {tokens : List Token} {turns : Nat}
    (takes : Takes 1 atom) (enough : tokens.length < turns) :
    (∃ calls, parseWithin connectives stop maxDepth turns id (of atom) tokens [] =
        some (parse connectives stop atom tokens, calls) ∧
        ∀ call ∈ calls, call.Within maxDepth) ∧
      (∀ result rest, parse connectives stop atom tokens = .ok (result, rest) →
        rest <:+ tokens ∧ rest.length < tokens.length) ∧
      (∀ limit, maxDepth ≤ limit → ∃ outcome calls,
        parseWithin connectives stop limit turns id (of atom) tokens [] = some (outcome, calls) ∧
        ((∃ call ∈ calls, maxDepth < call.depth) → ∃ offset, parse connectives stop atom tokens =
          .error (.malformed offset "expression nested too deeply"))) ∧
      (Opens connectives stop (maxDepth + 1) tokens → ∃ offset,
        parse connectives stop atom tokens =
          .error (.malformed offset "expression nested too deeply")) ∧
      (∃ calls, Kql.filterWithin turns 0 tokens [] =
        some (Kql.expression (Kql.maxNegations + 1) tokens, calls) ∧
        ∀ call ∈ calls, call.Within) ∧
      (∀ result rest, Kql.expression (Kql.maxNegations + 1) tokens = .ok (result, rest) →
        rest <:+ tokens ∧ rest.length < tokens.length) := by
  obtain ⟨calls, within, same⟩ := @parse_ends _ connectives stop _ _ _ takes enough maxDepth
  obtain ⟨filterCalls, filterWithin, filterSame⟩ :=
    Kql.mirrors_expression (Nat.zero_le (Kql.maxNegations + 1)) enough
  exact ⟨⟨calls, same [], within⟩, takes_parse takes tokens,
    fun limit higher => parse_refuses_deep takes enough higher, parse_refuses_opened,
    ⟨filterCalls, filterSame [], filterWithin⟩, Kql.takes_expression _ tokens⟩

def wordTerm : Parser (Logic String) := do return .term (← Parser.word "a term")

theorem reading_word_ends_within_depth :
    Takes 1 wordTerm ∧ ([⟨.word "a", 0⟩, ⟨.word "and", 2⟩, ⟨.word "b", 6⟩] : List Token).length < 4 ∧
      ∃ calls, parseWithin Kql.connectives Kql.atPipe maxDepth 4 id (of wordTerm)
        [⟨.word "a", 0⟩, ⟨.word "and", 2⟩, ⟨.word "b", 6⟩] [] =
          some (.ok (.all [.term "a", .term "b"], []), calls) ∧
        ∀ call ∈ calls, call.Within maxDepth := by
  have takes : Takes 1 wordTerm := Parser.takes_bind (Parser.takes_word _) fun _ => Parser.takes_pure _
  have ends := @reading_ends_within_depth _ Kql.connectives Kql.atPipe _
    [⟨.word "a", 0⟩, ⟨.word "and", 2⟩, ⟨.word "b", 6⟩] 4 takes (by decide)
  have read : parse Kql.connectives Kql.atPipe wordTerm
      [⟨.word "a", 0⟩, ⟨.word "and", 2⟩, ⟨.word "b", 6⟩] =
        .ok (.all [.term "a", .term "b"], []) := by
    cbv
  exact ⟨takes, by decide, read ▸ ends.1⟩

end DetectionRules.Expression
