import DetectionRules.Proofs.Absence
import DetectionRules.Proofs.Accepted
import DetectionRules.Proofs.Kql.Query
import DetectionRules.Proofs.Runs

/-!
The filters of a Kusto query as they are written, with the tests of the time
that a rule leaves out. A rule means what its filters mean inside the time
range, provided no test of the time is an alternative or negated by itself.
-/

namespace DetectionRules.Kql

open DetectionRules.Parser (Follows follows_bind follows_next follows_pure follows_ite follows_fail
  starts run_of_iterate of_bind of_word_at of_behind_sign)

def filterTerm (filter : Parser (Logic (Option FieldTest))) : Parser (Logic (Option FieldTest)) := do
  if ← takeCall "not" then
    let inner ← filter
    Parser.sign ")"
    return Logic.negate inner
  else testOf (← column)

/-- A filter whose tests of the time are absent terms, given how many calls of `not` may follow. -/
def filter : Nat → Parser (Logic (Option FieldTest))
  | 0 => Parser.fail "expression nested too deeply"
  | negations + 1 => Expression.parse connectives atPipe (filterTerm (filter negations))

/-- The filter at the start of a stage, as long as nothing is summarized. -/
def filterAt? (start : Query × List Token) : Option (Logic (Option FieldTest)) :=
  if start.1.summary.isNone && Parser.nextIsWord "where" (start.2.drop 1) then
    ((filter (maxNegations + 1)) (start.2.drop 2)).toOption.map (·.1)
  else none

/-- The filters of a query before any summary. -/
def filters (text : String) : List (Logic (Option FieldTest)) :=
  match Token.list quoting text >>= table with
  | .error _ => []
  | .ok (_, tokens) => (starts nextStage {} tokens).filterMap filterAt?

/-- Trees that mean the same, whatever holds. -/
def Alike (first second : Logic (Option FieldTest)) : Prop :=
  ∀ holds, first.evalPart holds = second.evalPart holds

theorem congruent_alike : Expression.Congruent Alike where
  conj := by
    intro items others alike holds
    rw [Logic.eval_part_conj, Logic.eval_part_conj]
    congr 1
    induction alike with
    | nil => rfl
    | cons first _ induction => rw [List.map_cons, List.map_cons, first holds, induction]
  disj := by
    intro items others alike holds
    rw [Logic.eval_part_disj, Logic.eval_part_disj]
    congr 1
    induction alike with
    | nil => rfl
    | cons first _ induction => rw [List.map_cons, List.map_cons, first holds, induction]
  negate := by
    intro item other alike holds
    rw [Logic.eval_part_negate, Logic.eval_part_negate, alike holds]

/-- What is kept of a filter means what is there of it. -/
structure Kept (kept : Option (Logic FieldTest)) (written : Logic (Option FieldTest)) : Prop where
  normal : ∀ tree ∈ kept, tree.Normal
  meaning : ∀ holds, kept.map (Logic.eval holds) = written.evalPart holds

theorem follows_term {expression : Parser (Option (Logic FieldTest))}
    {filter : Parser (Logic (Option FieldTest))} (follows : Follows Kept expression filter) :
    Follows Alike (term expression) (filterTerm filter) := by
  refine follows_next _ fun isNegated => follows_ite ?_ ?_
  · refine follows_bind follows fun kept written same => ?_
    refine follows_next _ fun _ => follows_pure fun holds => ?_
    rw [Logic.eval_part_negate, ← same.meaning holds]
    cases kept with
    | none => rfl
    | some tree => rw [Logic.eval_part_negate, Logic.eval_part_map_some (same.normal tree rfl)]; rfl
  · refine follows_next _ fun field tokens tree rest parsed => ?_
    exact ⟨tree, parsed, fun _ => rfl⟩

theorem follows_filter (negations : Nat) : Follows Kept (expression negations) (filter negations) := by
  induction negations with
  | zero => exact follows_fail _ _
  | succ negations induction =>
      rw [filter, ← bind_pure (Expression.parse _ _ (filterTerm _))]
      refine follows_bind (Expression.follows_parse congruent_alike (follows_term induction)) ?_
      intro tree written alike
      refine follows_pure ⟨Logic.normal_flatten tree, fun holds => ?_⟩
      rw [Logic.flatten_eval, alike holds]

/-- The truth value of the filters of a query so far. -/
def Query.holds (truth : Valuation) (query : Query) : Bool :=
  query.conjuncts.all (Logic.eval (·.holdsFor truth))

theorem of_next_stage {query next : Query} {tokens rest : List Token}
    (success : nextStage query tokens = .ok (some next, rest)) :
    ∃ bar operator offset later, tokens = bar :: ⟨.word operator, offset⟩ :: later ∧
      (operator = "where" ∧ whereStage query later = .ok (next, rest) ∨
        operator ≠ "where" ∧ (next = query ∨ ∃ summary, next = { query with summary := some summary })) := by
  obtain ⟨bar, stages, rfl, staged⟩ := of_behind_sign success
  obtain ⟨⟨operator, place⟩, later, named, chosen⟩ := of_bind staged
  obtain ⟨offset, rfl⟩ := of_word_at named
  refine ⟨bar, operator, offset, later, rfl, ?_⟩
  simp only at chosen
  split at chosen
  · exact .inl ⟨rfl, chosen⟩
  · obtain ⟨summary, _, _, done⟩ := of_bind chosen
    cases done
    exact .inr ⟨by decide, .inr ⟨summary, rfl⟩⟩
  · rename_i other _
    split at chosen
    · obtain ⟨_, _, _, done⟩ := of_bind chosen
      cases done
      exact .inr ⟨other, .inl rfl⟩
    · cases chosen

/-- What a stage adds is the filter at its start. -/
theorem holds_next_stage (truth : Valuation) {query next : Query} {tokens rest : List Token}
    (success : nextStage query tokens = .ok (some next, rest)) :
    next.holds truth = (query.holds truth && (filterAt? (query, tokens)).all fun filter =>
      (filter.evalPart (·.holdsFor truth)).getD true) := by
  obtain ⟨bar, operator, offset, later, rfl, staged⟩ := of_next_stage success
  have start : filterAt? (query, bar :: ⟨.word operator, offset⟩ :: later) =
      if query.summary.isNone && operator == "where" then
        (filter (maxNegations + 1) later).toOption.map (·.1) else none := rfl
  rw [start]
  rcases staged with ⟨rfl, filtered⟩ | ⟨other, rfl | ⟨summary, rfl⟩⟩
  · rw [whereStage] at filtered
    cases summarized : query.summary with
    | some summary =>
        rw [summarized] at filtered
        obtain ⟨threshold, _, _, done⟩ := of_bind filtered
        cases done
        simp [Query.holds]
    | none =>
        rw [summarized] at filtered
        obtain ⟨kept, left, parsed, done⟩ := of_bind filtered
        obtain ⟨written, gone, same⟩ := follows_filter _ later kept left parsed
        cases done
        rw [gone]
        simp only [Query.holds, List.all_append, Option.isNone_none, beq_self_eq_true, Bool.and_self,
          if_pos, Except.toOption, Option.map_some, Option.all_some, ← same.meaning]
        cases kept <;> simp
  · simp [beq_eq_false_iff_ne.mpr other]
  · simp [Query.holds, beq_eq_false_iff_ne.mpr other]

theorem holds_to_rule (query : Query) (source : LogSource) (truth : Valuation) :
    (query.toRule source).holdsFor truth = query.holds truth := by
  cases joined : Logic.group? Logic.conj query.conjuncts with
  | none =>
      have empty : query.conjuncts = [] := by
        simpa [Logic.group?] using joined
      have nothing : (query.toRule source).condition = .all [] := by simp [Query.toRule, joined]
      rw [Rule.holdsFor, nothing, Query.holds, empty]
      rfl
  | some expression =>
      have conj : Logic.conj query.conjuncts = expression := by
        rw [Logic.group?] at joined
        split at joined
        · cases joined
        · exact Option.some.inj joined
      have meaning := @Expression.holds_for_of_selections (query.toRule source) expression
        (by simp [Query.toRule, joined]) (by simp [Query.toRule, joined]) truth
      rw [meaning, ← conj, Logic.eval_conj, Query.holds]

theorem of_read {text : String} {rule : Rule} (accepted : read text = .ok rule) :
    ∃ tokens source later query left, Token.list quoting text = .ok tokens ∧
      table tokens = .ok (source, later) ∧
      Parser.iterate nextStage {} later = .ok (query, left) ∧ rule = query.toRule source := by
  obtain ⟨_, tokens, rest, listed, parsed⟩ := Dialect.of_located_tokens accepted
  obtain ⟨source, later, tabled, parsed⟩ := of_bind parsed
  obtain ⟨query, left, staged, parsed⟩ := of_bind parsed
  refine ⟨tokens, source, later, query, left, listed, tabled, staged, ?_⟩
  obtain ⟨isDone, _, _, parsed⟩ := of_bind parsed
  cases isDone <;> cases parsed
  rfl

/-- A rule means what is there of its filters. -/
theorem holds_of_read {text : String} {rule : Rule} (accepted : read text = .ok rule)
    (truth : Valuation) : rule.holdsFor truth = (filters text).all fun filter =>
      (filter.evalPart (·.holdsFor truth)).getD true := by
  obtain ⟨tokens, source, later, query, left, listed, tabled, staged, rfl⟩ := of_read accepted
  have meaning := (run_of_iterate staged).all (Query.holds truth) (fun start =>
    (filterAt? start).all fun filter => (filter.evalPart (·.holdsFor truth)).getD true)
    fun _ _ _ _ => holds_next_stage truth
  have written : filters text = (starts nextStage {} later).filterMap filterAt? := by
    rw [filters, listed]
    simp only [Except.bind, bind, tabled]
  rw [holds_to_rule, meaning, written, List.all_filterMap]
  simp only [Query.holds, List.all_nil, Bool.true_and]
  rfl

/-- A rule means what is left of its filters without the tests of the time. Inside the time range
this is what the filters mean, if each of these tests only narrows a filter down. -/
theorem time_range_only {text : String} {rule : Rule} (accepted : read text = .ok rule)
    (truth : Valuation) :
    (rule.holdsFor truth = (filters text).all fun filter =>
      (filter.evalPart (·.holdsFor truth)).getD true) ∧
    ((filters text).all Logic.isNeutral = true → rule.holdsFor truth =
      (filters text).all (Logic.eval (Option.all fun test : FieldTest => test.holdsFor truth))) := by
  have meaning := holds_of_read accepted truth
  refine ⟨meaning, fun neutral => ?_⟩
  rw [meaning, Bool.eq_iff_iff, List.all_eq_true, List.all_eq_true]
  rw [List.all_eq_true] at neutral
  exact forall₂_congr fun filter member => by rw [Logic.eval_part_of_neutral (neutral filter member)]

def failedLogins : String :=
  "SecurityEvent | where TimeGenerated > ago(1h) and EventID == 4625 | where not(Account == 'root')
    | summarize count() by Account | where count_ > 5"

theorem failed_logins_in_time : ∃ rule, read failedLogins = .ok rule ∧
    ∀ truth, rule.holdsFor truth =
      (filters failedLogins).all (Logic.eval (Option.all fun test : FieldTest => test.holdsFor truth)) := by
  have read : ((read failedLogins).map fun _ => (filters failedLogins).all Logic.isNeutral) =
      .ok true := by
    decide +kernel
  obtain ⟨rule, accepted, neutral⟩ := Success.of_map read
  exact ⟨rule, accepted, fun truth => (time_range_only accepted truth).2 neutral⟩

def recentOrRoot : String := "T | where (TimeGenerated > ago(1h) or a == 'root') and b == 4625"

/-- Only the test of the account is left, so an event of the last hour does not match. -/
theorem recent_event_missed : ∃ rule truth, read recentOrRoot = .ok rule ∧
    rule.holdsFor truth = false ∧
    (filters recentOrRoot).all (Logic.eval (Option.all fun test : FieldTest => test.holdsFor truth)) =
      true := by
  have read : ((read recentOrRoot).map fun rule => !rule.holdsFor (fun field _ _ => field == "b") &&
      (filters recentOrRoot).all (Logic.eval (Option.all fun test : FieldTest =>
        test.holdsFor fun field _ _ => field == "b"))) = .ok true := by
    decide +kernel
  obtain ⟨rule, accepted, known⟩ := Success.of_map read
  obtain ⟨missed, meant⟩ := Bool.and_eq_true_iff.mp known
  exact ⟨rule, _, accepted, by simpa using missed, meant⟩

end DetectionRules.Kql
