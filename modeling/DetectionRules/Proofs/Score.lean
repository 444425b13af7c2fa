import DetectionRules.Proofs.Validation

/-!
The score in exact arithmetic. It is a whole number of tenths between 0 and 100,
and what counts against a rule never raises it. Three parts add up to 100, so
that a score is at most 100 less what one part lacks; a score of 95 leaves so
little to lack that the text was read and next to nothing was found in it.
-/

namespace DetectionRules

theorem round_half_away_mono {x y : Rat} (nonneg : 0 ≤ x) (le : x ≤ y) :
    roundHalfAway x ≤ roundHalfAway y := by
  rw [roundHalfAway, roundHalfAway, if_pos nonneg, if_pos (nonneg.trans le)]
  have moved : x + 1 / 2 ≤ y + 1 / 2 := by linarith
  exact Int.floor_mono moved

theorem round_half_away_nat (n : Nat) : roundHalfAway (n : Rat) = n := by
  have nonneg : (0 : Rat) ≤ n := Nat.cast_nonneg n
  have below : ((n : Int) : Rat) ≤ n + 1 / 2 := by push_cast; linarith
  have above : (n : Rat) + 1 / 2 < (n : Int) + 1 := by push_cast; linarith
  rw [roundHalfAway, if_pos nonneg]
  exact Int.floor_eq_iff.mpr ⟨below, above⟩

namespace Score

theorem clamp_mono {low high x y : Rat} (order : low ≤ high) (le : x ≤ y) :
    clamp low high x ≤ clamp low high y := by
  unfold clamp
  split_ifs <;> linarith

theorem clamp_mem {low high : Rat} (order : low ≤ high) (x : Rat) :
    low ≤ clamp low high x ∧ clamp low high x ≤ high := by
  unfold clamp
  split_ifs <;> constructor <;> linarith

theorem clamp_of_mem {low high x : Rat} (above : low ≤ x) (below : x ≤ high) :
    clamp low high x = x := by
  rw [clamp, if_neg (not_lt.mpr above), if_neg (not_lt.mpr below)]

theorem to_tenths_mono {x y : Rat} (nonneg : 0 ≤ x) (le : x ≤ y) :
    toTenths id x ≤ toTenths id y := by
  have rounded := round_half_away_mono (x := x * 10) (y := y * 10) (by linarith) (by linarith)
  have cast : (roundHalfAway (x * 10) : Rat) ≤ roundHalfAway (y * 10) := by exact_mod_cast rounded
  simp only [toTenths, id]
  linarith

theorem to_tenths_nat (n : Nat) : toTenths id n = n := by
  have tenths : (n : Rat) * 10 = (n * 10 : Nat) := by push_cast; ring
  simp only [toTenths, id]
  rw [tenths, round_half_away_nat]
  push_cast
  ring

theorem penalty_eq_sum (issues : List Issue) :
    penalty issues = (issues.map (·.severity.penalty)).sum := by
  have fold (start : Nat) : issues.foldl (fun penalty issue => penalty + issue.severity.penalty) start =
      start + (issues.map (·.severity.penalty)).sum := by
    induction issues generalizing start with
    | nil => simp
    | cons issue rest induction =>
        rw [List.foldl_cons, induction, List.map_cons, List.sum_cons]
        omega
  rw [penalty, fold]
  omega

theorem penalty_le_of_sublist {issues more : List Issue} (added : issues.Sublist more) :
    penalty issues ≤ penalty more := by
  rw [penalty_eq_sum, penalty_eq_sum]
  exact (added.map _).sum_le_sum fun _ _ => Nat.zero_le _

theorem severe_le_penalty (severity : Severity) (issues : List Issue) :
    (issues.filter (·.severity = severity)).length * severity.penalty ≤ penalty issues := by
  rw [penalty_eq_sum]
  induction issues with
  | nil => simp
  | cons issue rest induction =>
      rw [List.map_cons, List.sum_cons]
      by_cases same : issue.severity = severity
      · subst same
        rw [List.filter_cons_of_pos (by simp), List.length_cons, Nat.add_mul]
        omega
      · rw [List.filter_cons_of_neg (by simpa using same)]
        omega

/-- What little was found where the penalty is less than two issues of low severity cost. -/
theorem clean_of_penalty {issues : List Issue} (small : penalty issues ≤ 5) :
    (∀ issue ∈ issues, issue.severity = .low) ∧ issues.length ≤ 1 := by
  have high := severe_le_penalty .high issues
  have medium := severe_le_penalty .medium issues
  have low := severe_le_penalty .low issues
  simp only [Severity.penalty] at high medium low
  have each : ∀ issue ∈ issues, issue.severity = .low := by
    intro issue member
    cases found : issue.severity with
    | low => rfl
    | high =>
        have one : 0 < (issues.filter (·.severity = .high)).length :=
          List.length_pos_of_mem (List.mem_filter.mpr ⟨member, by simpa using found⟩)
        omega
    | medium =>
        have one : 0 < (issues.filter (·.severity = .medium)).length :=
          List.length_pos_of_mem (List.mem_filter.mpr ⟨member, by simpa using found⟩)
        omega
  have all : issues.filter (·.severity = .low) = issues :=
    List.filter_eq_self.mpr fun issue member => by simpa using each issue member
  rw [all] at low
  exact ⟨each, by omega⟩

/-- The points for text that can be read and for issues. -/
def wholePoints (isReadable : Bool) (issues : List Issue) : Nat :=
  (if isReadable then 40 else 0) + (40 - penalty issues)

theorem points_eq (isReadable : Bool) (issues : List Issue) (ratio : Rat) :
    points id isReadable issues ratio = wholePoints isReadable issues + 20 * clamp 0 1 ratio := rfl

theorem points_mono {isReadable wasReadable : Bool} {issues others : List Issue} {ratio other : Rat}
    (whole : wholePoints isReadable issues ≤ wholePoints wasReadable others) (share : ratio ≤ other) :
    points id isReadable issues ratio ≤ points id wasReadable others other := by
  have cast : (wholePoints isReadable issues : Rat) ≤ wholePoints wasReadable others := by
    exact_mod_cast whole
  have clamped : clamp 0 1 ratio ≤ clamp 0 1 other := clamp_mono (by norm_num) share
  rw [points_eq, points_eq]
  linarith

/-- Nothing raises a score that raises neither the whole points nor the share. -/
theorem score_mono {isReadable wasReadable : Bool} {issues others : List Issue} {ratio other : Rat}
    (whole : wholePoints isReadable issues ≤ wholePoints wasReadable others) (share : ratio ≤ other) :
    score id isReadable issues ratio ≤ score id wasReadable others other := by
  have hundred : (0 : Rat) ≤ 100 := by norm_num
  exact to_tenths_mono (clamp_mem hundred _).1 (clamp_mono hundred (points_mono whole share))

/-- A score is a whole number of tenths from 0 to 100. -/
theorem score_in_tenths (isReadable : Bool) (issues : List Issue) (ratio : Rat) :
    ∃ tenths : Nat, tenths ≤ 1000 ∧ score id isReadable issues ratio = (tenths : Rat) / 10 := by
  have hundred : (0 : Rat) ≤ 100 := by norm_num
  obtain ⟨low, high⟩ := clamp_mem hundred (points id isReadable issues ratio)
  have least := round_half_away_mono (x := (0 : Nat)) (le_refl _)
    (show ((0 : Nat) : Rat) ≤ clamp 0 100 (points id isReadable issues ratio) * 10 by
      push_cast; linarith)
  have most := round_half_away_mono (y := (1000 : Nat)) (mul_nonneg low (by norm_num : (0 : Rat) ≤ 10))
    (by push_cast; linarith)
  rw [round_half_away_nat] at least most
  obtain ⟨tenths, same⟩ := Int.eq_ofNat_of_zero_le least
  rw [same] at most
  refine ⟨tenths, by exact_mod_cast most, ?_⟩
  simp only [score, toTenths, id]
  rw [same]
  rfl

theorem score_le (isReadable : Bool) (issues : List Issue) (ratio : Rat) :
    score id isReadable issues ratio ≤ (wholePoints isReadable issues + 20 : Nat) := by
  have share : clamp 0 1 ratio ≤ 1 := (clamp_mem (by norm_num) ratio).2
  have bound : wholePoints isReadable issues + 20 ≤ 100 := by
    unfold wholePoints
    split <;> omega
  have cast : ((wholePoints isReadable issues + 20 : Nat) : Rat) ≤ 100 := by exact_mod_cast bound
  have below : points id isReadable issues ratio ≤ (wholePoints isReadable issues + 20 : Nat) := by
    rw [points_eq]
    push_cast
    linarith
  calc score id isReadable issues ratio
      ≤ toTenths id (clamp 0 100 ((wholePoints isReadable issues + 20 : Nat) : Rat)) :=
        to_tenths_mono (clamp_mem (by norm_num) _).1 (clamp_mono (by norm_num) below)
    _ = (wholePoints isReadable issues + 20 : Nat) := by
        rw [clamp_of_mem (Nat.cast_nonneg _) cast, to_tenths_nat]

/-- A score of 95 leaves room for one issue of low severity. -/
theorem clean_of_score {isReadable : Bool} {issues : List Issue} {ratio : Rat}
    (high : 95 ≤ score id isReadable issues ratio) :
    isReadable = true ∧ (∀ issue ∈ issues, issue.severity = .low) ∧ issues.length ≤ 1 := by
  have enough : 95 ≤ wholePoints isReadable issues + 20 := by
    exact_mod_cast high.trans (score_le isReadable issues ratio)
  cases isReadable with
  | false =>
      rw [wholePoints, if_neg (by decide)] at enough
      omega
  | true =>
      rw [wholePoints, if_pos rfl] at enough
      exact ⟨rfl, clean_of_penalty (by omega)⟩

end Score

namespace Evidence

theorem target_rule_run_stages (evidence : Evidence) :
    (evidence.runStages Stage.all).2.targetRule = evidence.reading.2.targetRule := by
  cases severe : Issue.anyHigh evidence.reading.1 with
  | true =>
      simp only [Stage.all, runStages, run, severe]
      rfl
  | false =>
      cases later : Issue.anyHigh (evidence.reading.2.withIssues evidence.reading.1).comparing <;>
        (simp only [Stage.all, runStages, run, severe, later]; rfl)

end Evidence

namespace ValidationInput

/-- Where a validation knows a rule of the target, it has read it. -/
theorem read_of_target_known {input : ValidationInput}
    (known : (input.evidence.runStages Stage.all).2.targetRule.isSome = true) :
    ∃ rule, input.target.read input.targetText = .ok rule := by
  have learnt : input.evidence.reading.2.targetRule =
      (Evidence.attempt (Evidence.targetError input.target)
        (input.target.read input.targetText)).1.or none := rfl
  rw [Evidence.target_rule_run_stages, learnt, Option.or_none] at known
  cases outcome : input.target.read input.targetText with
  | error error =>
      rw [outcome] at known
      cases known
  | ok rule => exact ⟨rule, rfl⟩

end ValidationInput

/-- A bar that lies at 95 or above lets nothing below 95 pass. -/
theorem Binary64.at_least_of_bar {threshold : Binary64} {score : Rat}
    (bar : (Binary64.finite 95).isAtMost threshold = true)
    (met : threshold.isAtMost (.finite score) = true) : 95 ≤ score := by
  cases threshold with
  | finite value =>
      simp [isAtMost, place?] at bar met
      exact bar.trans met
  | negativeZero => norm_num [isAtMost, place?] at bar
  | infinite isNegative =>
      cases isNegative with
      | true => simp [isAtMost, place?] at bar
      | false => simp [isAtMost, place?] at met
  | nan => simp [isAtMost, place?] at bar

/-- A score is a whole number of tenths from 0 to 100. It does not rise with further issues, with text
that cannot be read or with a smaller share of fields. Where 95 or more is asked of a validation,
what passes was read, and at most one issue of low severity was found. -/
theorem high_score_clean (isReadable : Bool) (issues : List Issue) (ratio : Rat)
    (threshold : Binary64) (input : ValidationInput) :
    (∃ tenths : Nat, tenths ≤ 1000 ∧
        Score.score id isReadable issues ratio = (tenths : Rat) / 10) ∧
      (∀ more, issues.Sublist more →
        Score.score id isReadable more ratio ≤ Score.score id isReadable issues ratio) ∧
      Score.score id false issues ratio ≤ Score.score id isReadable issues ratio ∧
      (∀ lower ≤ ratio,
        Score.score id isReadable issues lower ≤ Score.score id isReadable issues ratio) ∧
      ((Binary64.finite 95).isAtMost threshold = true →
        (input.validate id threshold).meetsQualityBar = true →
          (∃ rule, input.target.read input.targetText = .ok rule) ∧
          (∀ found ∈ (input.validate id threshold).issues, found.severity = .low) ∧
          (input.validate id threshold).issues.length ≤ 1) := by
  refine ⟨Score.score_in_tenths _ _ _, ?issues, ?unreadable, ?share, ?bar⟩
  case issues =>
    intro more added
    have cost := Score.penalty_le_of_sublist added
    refine Score.score_mono ?_ le_rfl
    unfold Score.wholePoints
    omega
  case unreadable =>
    refine Score.score_mono ?_ le_rfl
    unfold Score.wholePoints
    rw [if_neg (by decide)]
    omega
  case share =>
    intro lower le
    exact Score.score_mono le_rfl le
  case bar =>
    intro bar met
    have score : (input.validate id threshold).meetsQualityBar =
        threshold.isAtMost (.finite ((input.evidence.runStages Stage.all).2.score id)) := rfl
    rw [score] at met
    obtain ⟨known, low, few⟩ := Score.clean_of_score (Binary64.at_least_of_bar bar met)
    exact ⟨ValidationInput.read_of_target_known known, low, few⟩

def notedInput : ValidationInput where
  source := .splunk
  target := .kql
  targetText := "T | where a == 1"
  pairs := some [⟨"a", some "a"⟩]
  prior := [⟨"NOTE", .low, "", "", []⟩]

theorem noted_input_clean :
    Score.score id true notedInput.prior 0 ≤ Score.score id true [] (1 / 2) ∧
      Score.score id true [] 0 ≤ Score.score id true [] (1 / 2) ∧
      (notedInput.validate id (.finite 95)).issues.length = 1 ∧
      (∃ rule, Format.kql.read "T | where a == 1" = .ok rule) ∧
      ∀ found ∈ (notedInput.validate id (.finite 95)).issues, found.severity = .low := by
  have met : (notedInput.validate id (.finite 95)).meetsQualityBar = true := by decide +kernel
  have one : (notedInput.validate id (.finite 95)).issues.length = 1 := by decide +kernel
  have bar : (Binary64.finite 95).isAtMost (.finite 95) = true := by decide
  obtain ⟨-, more, -, less, high⟩ := high_score_clean true [] (1 / 2) (.finite 95) notedInput
  obtain ⟨-, noted, -⟩ := high_score_clean true [] 0 (.finite 95) notedInput
  have lower : Score.score id true [] 0 ≤ Score.score id true [] (1 / 2) := less 0 (by norm_num)
  obtain ⟨read, low, -⟩ := high bar met
  exact ⟨(noted notedInput.prior (List.nil_sublist _)).trans lower, lower, one, read, low⟩

end DetectionRules
