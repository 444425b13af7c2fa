import DetectionRules.Proofs.Absence
import DetectionRules.Proofs.Accepted
import DetectionRules.Proofs.Runs

/-!
The condition of a rule as it is written. It holds at most one threshold, which
a rule demands beside what is left of the condition without it. So a rule means
what its condition says if the threshold is demanded there, too, beside the
rest; but it is accepted anywhere else as well.
-/

namespace DetectionRules.YaraL

open DetectionRules.Parser (Follows follows_next follows_check Trail Marks of_bind of_word_at
  Ensures ensures_last ensures_check ensures_pure)

namespace Requirement

/-- Whether a requirement is met, given which events occur and which thresholds are passed. -/
def holds (occurs : String → Bool) (passes : Threshold → Bool) : Requirement → Bool
  | .occurs event => occurs event
  | counts event threshold => occurs event && passes threshold
  | countsValues threshold => passes threshold

def thresholds (requirements : List Requirement) : List Threshold :=
  requirements.filterMap threshold?

end Requirement

/-- What a rule is made of, with its condition as it is written. -/
structure Outline where
  groups : List EventGroup
  matched : Option (List String × TimeWindow)
  requirements : Logic Requirement

namespace Outline

def thresholds (outline : Outline) : List Threshold :=
  Requirement.thresholds outline.requirements.terms

/-- Whether each threshold stands alone in the outermost conjunction of the condition. -/
def isConjoined (outline : Outline) : Bool :=
  outline.requirements.conjuncts.all fun part =>
    part.isTerm || (Requirement.thresholds part.terms).isEmpty

/-- The condition over selections that an event variable stands for. -/
def tree (outline : Outline) (event : String) : Logic String :=
  let parts := outline.groups.map fun group =>
    (group.event, toSelections (1 < outline.groups.length) group)
  ((parts.lookup event).map (·.2)).getD (.term event)

def occurs (outline : Outline) (selected : String → Bool) (event : String) : Bool :=
  (outline.tree event).eval selected

end Outline

/-- As `rule`, without putting the parts together. -/
def outline : Parser Outline := do
  Named.heading "rule"
  let (name, offset) ← Parser.wordAt "a rule name"
  if !Named.isIdentifier name then
    Parser.failAt offset ("invalid rule name '" ++ name ++ "'")
  Parser.sign "\x7b"
  let _ ← Named.metadata atSection
  Named.heading "events:"
  let (groups, placeholders) ← events
  let matched ← optionalSection "match:" (matchSection placeholders)
  let outcomes ← optionalSection "outcome:" (Parser.many outcome)
  Named.heading "condition:"
  let requirements ← Expression.parse conditionConnectives (Parser.nextIsSign "\x7d")
    (requirement (groups.map (·.event)) (outcomes.getD []).reverse (← get))
  Parser.sign "\x7d"
  if !(← Parser.atEnd) then Parser.expected "end of rule"
  return { groups, matched, requirements }

def outline? (text : String) : Option Outline :=
  (Token.list { slashes := true, backticks := true } text >>= outline).toOption.map (·.1)

/-- A rule is put together from its outline. -/
structure Outline.Yields (rule : Rule) (outline : Outline) : Prop where
  condition : ∃ left, (outline.requirements.map Requirement.event?).flatten = some left ∧
    rule.condition = left.bind outline.tree
  aggregation : rule.aggregation = aggregation? outline.thresholds.head? outline.matched

theorem follows_outline : Follows Outline.Yields rule outline := by
  refine follows_next _ fun _ => follows_next _ fun (name, offset) => follows_check fun _ => ?_
  refine follows_next _ fun _ => follows_next _ fun metadata => follows_next _ fun _ => ?_
  refine follows_next _ fun (groups, placeholders) => follows_next _ fun matched => ?_
  refine follows_next _ fun outcomes => follows_next _ fun _ => follows_next _ fun tokens => ?_
  refine follows_next _ fun requirements => follows_next _ fun _ => follows_next _ fun atEnd => ?_
  refine follows_check fun _ => ?_
  cases found : (requirements.map Requirement.event?).flatten with
  | none => exact Parser.follows_fail_at _ _ _
  | some left =>
      apply Parser.follows_pure
      constructor
      · exact ⟨left, found, rfl⟩
      · rw [Outline.thresholds, Requirement.thresholds, List.head?_filterMap]

theorem of_comparison {what : String} {comparison : Comparison} {tokens rest : List Token}
    (success : Dialect.comparisonOr what tokens = .ok (comparison, rest)) :
    ∃ sign, tokens = sign :: rest ∧ isComparison sign = true := by
  rcases tokens with _ | ⟨⟨lexeme, offset⟩, later⟩
  · cases success
  · cases lexeme with
    | symbol sign =>
        rw [Dialect.comparisonOr] at success
        cases known : Comparison.ofSign? sign with
        | none =>
            rw [known] at success
            cases success
        | some found =>
            rw [known] at success
            cases success
            exact ⟨_, rfl, by simp [isComparison, known]⟩
    | _ => cases success

theorem of_threshold {passed tokens rest : List Token} {offset : Option Nat} {counted : Counted}
    {found : Threshold} (success : threshold passed offset counted tokens = .ok (found, rest)) :
    passed.any isComparison = false ∧
      ∃ front, tokens = front ++ rest ∧ front.any isComparison = true := by
  rw [threshold] at success
  split at success
  · cases success
  · rename_i plain
    refine ⟨by simpa using plain, ?_⟩
    obtain ⟨comparison, left, signed, success⟩ := of_bind success
    obtain ⟨value, behind, numbered, done⟩ := of_bind success
    obtain ⟨sign, rfl, compared⟩ := of_comparison signed
    obtain ⟨⟨word, place⟩, _, named, converted⟩ := of_bind numbered
    obtain ⟨offset, rfl⟩ := of_word_at named
    cases done
    cases known : Text.uint64OfText? word with
    | none =>
        simp only [known] at converted
        cases converted
    | some number =>
        simp only [known] at converted
        cases converted
        exact ⟨[sign, _], rfl, by simp [compared]⟩

/-- A requirement is read from a few tokens. With a threshold there is a sign of comparison among
them, and none before them. -/
theorem of_requirement {events : List String} {outcomes : List (String × Option String)}
    {condition tokens rest : List Token} {tree : Logic Requirement}
    (success : requirement events outcomes condition tokens = .ok (tree, rest)) :
    ∃ found front, tree = .term found ∧ tokens = front ++ rest ∧ (found.threshold? ≠ none →
      (condition.take (condition.length - tokens.length)).any isComparison = false ∧
        front.any isComparison = true) := by
  obtain ⟨_, _, got, success⟩ := of_bind success
  cases got
  obtain ⟨⟨word, place⟩, later, named, chosen⟩ := of_bind success
  obtain ⟨offset, rfl⟩ := of_word_at named
  simp only at chosen
  cases counted : after? '#' word with
  | some event =>
      rw [counted] at chosen
      simp only at chosen
      split at chosen
      · cases chosen
      · obtain ⟨found, left, limited, done⟩ := of_bind chosen
        cases done
        obtain ⟨plain, front, rfl, compared⟩ := of_threshold limited
        exact ⟨_, _ :: front, rfl, rfl, fun _ => ⟨plain, by simp [compared]⟩⟩
  | none =>
      rw [counted] at chosen
      cases dollared : after? '$' word with
      | none =>
          rw [dollared] at chosen
          cases chosen
      | some name =>
          rw [dollared] at chosen
          simp only at chosen
          split at chosen
          · cases chosen
            exact ⟨_, [_], rfl, rfl, fun limited => absurd rfl limited⟩
          · rcases looked : outcomes.lookup name with _ | _ | field
            all_goals
              rw [looked] at chosen
            · cases chosen
            · cases chosen
            · obtain ⟨found, left, limited, done⟩ := of_bind chosen
              cases done
              obtain ⟨plain, front, rfl, compared⟩ := of_threshold limited
              exact ⟨_, _ :: front, rfl, rfl, fun _ => ⟨plain, by simp [compared]⟩⟩

/-- Requirements in tokens of a condition, at most one of them with a threshold. It has the first
sign of comparison. -/
def Singly (condition tokens : List Token) (found : List Requirement) (rest : List Token) : Prop :=
  ∀ before, condition = before ++ tokens → ∃ front, tokens = front ++ rest ∧
    (Requirement.thresholds found).length ≤ 1 ∧ (Requirement.thresholds found ≠ [] →
      before.any isComparison = false ∧ front.any isComparison = true)

theorem trail_singly (condition : List Token) : Trail (Singly condition) where
  refl := fun tokens before _ => ⟨[], rfl, by simp [Requirement.thresholds]⟩
  skip := fun token rest before _ => ⟨[token], rfl, by simp [Requirement.thresholds]⟩
  trans := by
    intro tokens middle rest front back first second before whole
    obtain ⟨passed, rfl, few, limited⟩ := first before whole
    obtain ⟨later, rfl, fewLater, limitedLater⟩ := second (before ++ passed) (by rw [whole, List.append_assoc])
    refine ⟨passed ++ later, by rw [List.append_assoc], ?_⟩
    have both : Requirement.thresholds (front ++ back) =
        Requirement.thresholds front ++ Requirement.thresholds back := List.filterMap_append
    rw [both]
    by_cases none : Requirement.thresholds back = []
    · rw [none, List.append_nil]
      refine ⟨few, fun some => ?_⟩
      obtain ⟨plain, compared⟩ := limited some
      exact ⟨plain, by simp [compared]⟩
    · obtain ⟨plain, compared⟩ := limitedLater none
      rw [List.any_append, Bool.or_eq_false_iff] at plain
      have noneBefore : Requirement.thresholds front = [] := by
        by_contra some
        exact absurd (limited some).2 (by simp [plain.2])
      rw [noneBefore, List.nil_append]
      exact ⟨fewLater, fun _ => ⟨plain.1, by simp [compared]⟩⟩

theorem marks_requirement (events : List String) (outcomes : List (String × Option String))
    (condition : List Token) :
    Marks (Singly condition) [] (requirement events outcomes condition) Logic.terms := by
  intro tokens tree rest success
  obtain ⟨found, front, rfl, rfl, limited⟩ := of_requirement success
  refine ⟨[found], fun before whole => ⟨front, rfl, ?_⟩, rfl⟩
  have passed : condition.take (condition.length - (front ++ rest).length) = before := by
    rw [whole, List.length_append, Nat.add_sub_cancel, List.take_left]
  rw [passed] at limited
  cases limit : found.threshold? with
  | none => simp [Requirement.thresholds, limit]
  | some threshold => exact ⟨by simp [Requirement.thresholds, limit], fun _ => limited (by simp [limit])⟩

structure Outline.Sound (outline : Outline) : Prop where
  normal : outline.requirements.Normal
  few : outline.thresholds.length ≤ 1

theorem ensures_outline : Ensures outline Outline.Sound := by
  refine ensures_last fun _ => ensures_last fun (name, offset) => ensures_check fun _ => ?_
  refine ensures_last fun _ => ensures_last fun metadata => ensures_last fun _ => ?_
  refine ensures_last fun (groups, placeholders) => ensures_last fun matched => ?_
  refine ensures_last fun outcomes => ensures_last fun _ => ?_
  intro tokens result rest success
  obtain ⟨_, _, got, success⟩ := of_bind success
  cases got
  obtain ⟨requirements, left, parsed, success⟩ := of_bind success
  have normal : requirements.Normal := by
    refine Parser.ensures_iff_keeps.mpr (Expression.keeps_parse Expression.inherited_normal ?_)
      _ _ _ parsed
    refine Parser.ensures_iff_keeps.mp fun _ tree _ read => ?_
    obtain ⟨found, _, rfl, _⟩ := of_requirement read
    exact .term found
  have few : (Requirement.thresholds requirements.terms).length ≤ 1 := by
    obtain ⟨found, singly, same⟩ :=
      Expression.marks_parse (trail_singly tokens) (marks_requirement _ _ _) _ _ _ parsed
    obtain ⟨_, _, few, _⟩ := singly [] rfl
    rwa [same]
  have ensures : Ensures (do
      Parser.sign "\x7d"
      if !(← Parser.atEnd) then Parser.expected "end of rule"
      return { groups, matched, requirements } : Parser Outline) Outline.Sound :=
    ensures_last fun _ => ensures_last fun _ => ensures_check fun _ => ensures_pure ⟨normal, few⟩
  exact ensures left result rest success

namespace Outline

theorem of_read {text : String} {rule : Rule} (accepted : read text = .ok rule) :
    ∃ outline, outline? text = some outline ∧ outline.Sound ∧ outline.Yields rule := by
  obtain ⟨_, tokens, rest, listed, parsed⟩ := Dialect.of_located_tokens accepted
  obtain ⟨outline, outlined, yields⟩ := follows_outline tokens rule rest parsed
  refine ⟨outline, ?_, ensures_outline tokens outline rest outlined, yields⟩
  rw [outline?, listed]
  simp only [bind, Except.bind, outlined]
  rfl

variable {outline : Outline} {rule : Rule}

/-- The condition of a rule means what is left of the written one without its threshold. -/
theorem Yields.meaning (yields : outline.Yields rule) (selected : String → Bool) :
    (outline.requirements.map Requirement.event?).evalPart (outline.occurs selected) =
      some (rule.condition.eval selected) := by
  obtain ⟨left, found, condition⟩ := yields.condition
  rw [← Logic.flatten_eval, found, condition, Logic.eval_bind, Option.map_some]
  rfl

theorem eval_conjunct {part : Logic Requirement} (normal : part.Normal)
    (alone : (part.isTerm || (Requirement.thresholds part.terms).isEmpty) = true)
    (occurs : String → Bool) (passes : Threshold → Bool) :
    part.eval (Requirement.holds occurs passes) =
      (((part.map Requirement.event?).evalPart occurs).getD true &&
        (Requirement.thresholds part.terms).all passes) := by
  rcases Bool.or_eq_true_iff.mp alone with single | unlimited
  · cases part with
    | term requirement =>
        cases requirement <;>
          simp [Logic.eval, Logic.map, Logic.evalPart, Logic.terms, Requirement.holds,
            Requirement.thresholds, Requirement.event?, Requirement.threshold?]
    | _ => cases single
  · have unlimited : Requirement.thresholds part.terms = [] := by simpa using unlimited
    have event (requirement : Requirement) (member : requirement ∈ part.terms) :
        ∃ event, requirement = .occurs event := by
      have limit := List.filterMap_eq_nil_iff.mp unlimited requirement member
      cases requirement with
      | occurs event => exact ⟨event, rfl⟩
      | _ => cases limit
    have present : ∀ value ∈ (part.map Requirement.event?).terms, value ≠ none := by
      rw [Logic.terms_map, List.forall_mem_map]
      intro requirement member
      obtain ⟨event, rfl⟩ := event requirement member
      simp [Requirement.event?]
    rw [unlimited, List.all_nil, Bool.and_true,
      Logic.eval_part_of_neutral (Logic.neutral_of_present (normal.map _) present), Logic.eval_map]
    refine Logic.eval_congr _ fun requirement member => ?_
    obtain ⟨event, rfl⟩ := event requirement member
    rfl

/-- A threshold in the outermost conjunction is demanded beside the rest of the condition. -/
theorem eval_conjoined (sound : outline.Sound) (conjoined : outline.isConjoined = true)
    (occurs : String → Bool) (passes : Threshold → Bool) :
    outline.requirements.eval (Requirement.holds occurs passes) =
      (((outline.requirements.map Requirement.event?).evalPart occurs).getD true &&
        outline.thresholds.all passes) := by
  have parts := outline.requirements.terms_conjuncts
  have meaning : ((outline.requirements.map Requirement.event?).evalPart occurs).getD true =
      outline.requirements.conjuncts.all fun part =>
        ((part.map Requirement.event?).evalPart occurs).getD true := by
    rw [← Logic.eval_part_conjuncts, Logic.map_conjuncts, Logic.fold_and_get_d, List.map_map,
      List.all_map]
    rfl
  have limits : outline.thresholds.all passes =
      outline.requirements.conjuncts.all fun part =>
        (Requirement.thresholds part.terms).all passes := by
    rw [Outline.thresholds, ← parts, Requirement.thresholds, List.filterMap_flatMap, List.all_flatMap]
    rfl
  rw [meaning, limits, ← Logic.eval_conjuncts, Bool.eq_iff_iff, Bool.and_eq_true, List.all_eq_true,
    List.all_eq_true, List.all_eq_true, ← forall₂_and]
  refine forall₂_congr fun part member => ?_
  rw [eval_conjunct (sound.normal.conjunct member).1 (List.all_eq_true.mp conjoined part member),
    Bool.and_eq_true]

end Outline

/-- A rule has at most one threshold and demands it beside its condition, which means what is left
of the written condition without the threshold. The written condition says the same if the
threshold stands alone in its outermost conjunction. -/
theorem threshold_beside_condition {text : String} {rule : Rule} (accepted : read text = .ok rule) :
    ∃ outline, outline? text = some outline ∧ outline.thresholds.length ≤ 1 ∧
      rule.aggregation = aggregation? outline.thresholds.head? outline.matched ∧
      ∀ selected : String → Bool,
        (outline.requirements.map Requirement.event?).evalPart (outline.occurs selected) =
          some (rule.condition.eval selected) ∧
        (outline.isConjoined = true → ∀ passes : Threshold → Bool,
          outline.requirements.eval (Requirement.holds (outline.occurs selected) passes) =
            (rule.condition.eval selected && outline.thresholds.all passes)) := by
  obtain ⟨outline, found, sound, yields⟩ := Outline.of_read accepted
  refine ⟨outline, found, sound.few, yields.aggregation, fun selected => ?_⟩
  have meaning := yields.meaning selected
  refine ⟨meaning, fun conjoined passes => ?_⟩
  rw [Outline.eval_conjoined sound conjoined, meaning, Option.getD_some]

def manyFailures : String :=
  "rule failures \x7b events: $e.a = \"x\" match: $e.b over 5m condition: $e and #e > 5 \x7d"

theorem many_failures_conjoined : ∃ rule outline, read manyFailures = .ok rule ∧
    outline? manyFailures = some outline ∧ ∀ (selected : String → Bool) (passes : Threshold → Bool),
      outline.requirements.eval (Requirement.holds (outline.occurs selected) passes) =
        (rule.condition.eval selected && outline.thresholds.all passes) := by
  have read : ((read manyFailures).map fun _ => (outline? manyFailures).any Outline.isConjoined) =
      .ok true := by
    decide +kernel
  obtain ⟨rule, accepted, conjoined⟩ := Success.of_map read
  obtain ⟨outline, found, _, _, meaning⟩ := threshold_beside_condition accepted
  rw [found, Option.any_some] at conjoined
  exact ⟨rule, outline, accepted, found, fun selected => (meaning selected).2 conjoined⟩

def anyFailure : String := "rule failure \x7b events: $e.a = \"x\" condition: $e or #e > 5 \x7d"

/-- The rule demands more than five failures, though its condition is content with one. -/
theorem alternative_threshold_demanded : ∃ rule outline, read anyFailure = .ok rule ∧
    outline? anyFailure = some outline ∧ outline.requirements.isDisjunction = true ∧
    outline.requirements.eval
      (Requirement.holds (outline.occurs fun _ => true) fun _ => false) = true ∧
    (rule.condition.eval (fun _ => true) && outline.thresholds.all fun _ => false) = false := by
  have read : ((read anyFailure).map fun rule => (outline? anyFailure).any fun outline =>
      outline.requirements.isDisjunction && outline.requirements.eval
        (Requirement.holds (outline.occurs fun _ => true) fun _ => false) &&
      !(rule.condition.eval (fun _ => true) && outline.thresholds.all fun _ => false)) =
        .ok true := by
    decide +kernel
  obtain ⟨rule, accepted, known⟩ := Success.of_map read
  obtain ⟨outline, found, _⟩ := Outline.of_read accepted
  rw [found, Option.any_some, Bool.and_eq_true, Bool.and_eq_true, Bool.not_eq_true'] at known
  exact ⟨rule, outline, accepted, found, known.1.1, known.1.2, known.2⟩

end DetectionRules.YaraL
