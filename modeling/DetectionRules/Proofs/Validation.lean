import DetectionRules.Proofs.Accepted
import DetectionRules.Validation.Result

/-!
What a validation calls an error. Readers accept well-formed rules only, so what
the second stage finds in a rule that was read is never severe; a validation
ends with an error if and only if a text cannot be read. Issues are merged by
code and place, and no issue from the making of a rule has the code of one about
its text.
-/

namespace DetectionRules

namespace Issue

/-- Severe, and about text that cannot be read. -/
def IsUnreadable (issue : Issue) : Prop :=
  issue.severity = .high ∧ (issue.code = "SOURCE_SYNTAX_ERROR" ∨ issue.code = "SYNTAX_ERROR")

/-- Not severe, and not about the text. -/
def IsMinor (issue : Issue) : Prop :=
  issue.severity ≠ .high ∧ issue.code ≠ "SOURCE_SYNTAX_ERROR" ∧ issue.code ≠ "SYNTAX_ERROR"

variable {issues found : List Issue} {issue other : Issue}

theorem any_high_eq_false_iff :
    anyHigh issues = false ↔ ∀ issue ∈ issues, issue.severity ≠ .high := by
  simp [anyHigh]

theorem any_high_eq_true_iff :
    anyHigh issues = true ↔ ∃ issue ∈ issues, issue.severity = .high := by
  simp [anyHigh]

theorem mem_add (member : other ∈ add issues issue) : other ∈ issues ∨ other = issue := by
  rw [add] at member
  split at member
  · exact .inl member
  · simpa using member

theorem subset_add : issues ⊆ add issues issue := by
  rw [add]
  split
  · exact fun _ member => member
  · exact List.subset_append_left _ _

theorem mem_add_all (member : other ∈ addAll issues found) : other ∈ issues ∨ other ∈ found := by
  induction found generalizing issues with
  | nil => exact .inl member
  | cons first rest induction =>
      rcases induction member with known | later
      · rcases mem_add known with known | rfl
        · exact .inl known
        · exact .inr List.mem_cons_self
      · exact .inr (List.mem_cons_of_mem _ later)

theorem subset_add_all : issues ⊆ addAll issues found := by
  induction found generalizing issues with
  | nil => exact fun _ member => member
  | cons first rest induction => exact fun _ member => induction (subset_add member)

theorem add_of_minor (minor : ∀ known ∈ issues, known.IsMinor) (unreadable : issue.IsUnreadable) :
    add issues issue = issues ++ [issue] := by
  have different : issues.any (·.isSame issue) = false := by
    rw [List.any_eq_false]
    intro known member same
    obtain ⟨_, notSource, notTarget⟩ := minor known member
    rw [isSame, Bool.and_eq_true, beq_iff_eq] at same
    rcases unreadable.2 with code | code
    · exact notSource (same.1.trans code)
    · exact notTarget (same.1.trans code)
  rw [add, different]
  rfl

theorem any_high_of_unreadable (minor : ∀ known ∈ issues, known.IsMinor)
    (unreadable : ∀ issue ∈ found, issue.IsUnreadable) :
    anyHigh (addAll issues found) = !found.isEmpty := by
  cases found with
  | nil => exact any_high_eq_false_iff.mpr fun known member => (minor known member).1
  | cons first rest =>
      have severe := unreadable first List.mem_cons_self
      have added : first ∈ add issues first := by
        rw [add_of_minor minor severe]
        exact List.mem_append_right _ List.mem_cons_self
      have kept : add issues first ⊆ addAll (add issues first) rest := subset_add_all
      exact any_high_eq_true_iff.mpr ⟨first, kept added, severe.1⟩

end Issue

theorem Verdict.of_issues_eq_error_iff {issues : List Issue} :
    ofIssues issues = .error ↔ Issue.anyHigh issues = true := by
  rw [ofIssues]
  split
  · simp_all
  · split <;> simp_all

/-- The reader does not accept the text. -/
def Format.Rejects (format : Format) (text : String) : Prop :=
  ∃ error, format.read text = .error error

namespace Evidence

theorem attempt_eq_ok {complain : RuleError → Issue} {outcome : Except RuleError Rule}
    (accepted : (attempt complain outcome).2 = []) :
    ∃ rule, outcome = .ok rule ∧ (attempt complain outcome).1 = some rule := by
  cases outcome with
  | error error => cases accepted
  | ok rule => exact ⟨rule, rfl, rfl⟩

theorem attempt_eq_nil_iff {complain : RuleError → Issue} {outcome : Except RuleError Rule} :
    (attempt complain outcome).2 = [] ↔ ¬ ∃ error, outcome = .error error := by
  cases outcome <;> simp [attempt]

theorem unreadable_of_attempt {complain : RuleError → Issue} {outcome : Except RuleError Rule}
    (unreadable : ∀ error, (complain error).IsUnreadable) :
    ∀ issue ∈ (attempt complain outcome).2, issue.IsUnreadable := by
  cases outcome with
  | error error => simpa [attempt] using unreadable error
  | ok rule => exact nofun

def RejectsSource (evidence : Evidence) : Prop :=
  evidence.sourceRule = none ∧ ∃ text ∈ evidence.sourceText, evidence.source.Rejects text

theorem unreadable_of_reading (evidence : Evidence) :
    ∀ issue ∈ evidence.reading.1, issue.IsUnreadable := by
  intro issue member
  rcases List.mem_append.mp member with member | member
  · split at member
    · exact unreadable_of_attempt (fun _ => ⟨rfl, .inl rfl⟩) issue member
    · cases member
  · exact unreadable_of_attempt (fun _ => ⟨rfl, .inr rfl⟩) issue member

theorem reading_eq_nil_iff (evidence : Evidence) :
    evidence.reading.1 = [] ↔
      ¬ (evidence.RejectsSource ∨ evidence.target.Rejects evidence.targetText) := by
  rw [not_or, RejectsSource]
  refine List.append_eq_nil_iff.trans (and_congr ?_ attempt_eq_nil_iff)
  cases evidence.sourceRule with
  | some rule => simp
  | none =>
      cases evidence.sourceText with
      | none => simp
      | some text => simp [attempt_eq_nil_iff, Format.Rejects]

theorem reading_target {evidence : Evidence} (clean : evidence.reading.1 = []) :
    ∃ rule, evidence.target.read evidence.targetText = .ok rule ∧
      evidence.reading.2.targetRule = some rule := by
  obtain ⟨rule, accepted, found⟩ := attempt_eq_ok (List.append_eq_nil_iff.mp clean).2
  refine ⟨rule, accepted, ?_⟩
  calc evidence.reading.2.targetRule
      = (attempt (targetError evidence.target)
          (evidence.target.read evidence.targetText)).1.or evidence.targetRule := rfl
    _ = some rule := by rw [found, Option.some_or]

theorem selection_issues_of_proper {selection : Selection} (proper : selection.Proper) :
    selectionIssues selection = [] := by
  have filled : selection.tests.isEmpty = false := by simpa using proper.filled
  have compared : selection.tests.filter isInvalidComparison = [] := by
    rw [List.filter_eq_nil_iff]
    intro test member invalid
    rw [isInvalidComparison, Bool.and_eq_true] at invalid
    obtain ⟨number, values⟩ := (proper.tests test member).compared invalid.1
    simp [values, Value.int?] at invalid
  rw [selectionIssues, filled, compared]
  rfl

theorem minor_of_integrity {format : Format} {rule : Rule} (accepted : format.Accepts rule) :
    ∀ issue ∈ integrity format rule, issue.severity ≠ .high := by
  have proper := (Rule.well_formed_iff rule).mp accepted.sound
  have dangling := (Rule.dangling_eq_nil_iff rule).mpr proper.known
  have selections : rule.selections.flatMap selectionIssues = [] := by
    rw [List.flatMap_eq_nil_iff]
    exact fun selection member => selection_issues_of_proper (proper.selections selection member)
  have correlation : (rule.aggregation.isSome && !format.supportsCorrelation) = false := by
    cases counted : rule.aggregation with
    | none => rfl
    | some aggregation =>
        rw [accepted.correlation (by simp [counted])]
        rfl
  intro issue member
  rw [integrity, dangling, selections, correlation] at member
  obtain ⟨name, _, rfl⟩ := List.mem_map.mp (by simpa using member)
  exact nofun

theorem minor_of_loss (evidence : Evidence) (source target : Rule) :
    ∀ issue ∈ evidence.loss source target, issue.severity ≠ .high := by
  intro issue member
  rcases List.mem_append.mp member with member | member
  · rcases List.mem_append.mp member with member | member
    · split at member
      · obtain rfl := List.mem_singleton.mp member
        exact nofun
      · cases member
    · obtain ⟨pair, _, lost⟩ := List.mem_filterMap.mp member
      rw [fieldLoss?] at lost
      split at lost
      · cases lost
        exact nofun
      · simp only at lost
        split at lost
        · cases lost
          exact nofun
        · cases lost
  · obtain ⟨part, _, lost⟩ := List.mem_filterMap.mp member
    rw [partLoss?] at lost
    split at lost
    · cases lost
      exact nofun
    · cases lost

/-- Nothing severe is found in a rule that was read. -/
theorem minor_of_comparing {evidence : Evidence} {rule : Rule}
    (read : evidence.targetRule = some rule) (accepted : evidence.target.Accepts rule) :
    Issue.anyHigh evidence.comparing = false := by
  rw [Issue.any_high_eq_false_iff, comparing, read]
  intro issue member
  rcases List.mem_append.mp member with member | member
  · exact minor_of_integrity accepted issue member
  · split at member
    · cases member
    · exact evidence.minor_of_loss _ _ issue member

theorem any_high_run_stages {evidence : Evidence}
    (minor : ∀ issue ∈ evidence.issues, issue.IsMinor) :
    Issue.anyHigh (evidence.runStages Stage.all).2.issues = true ↔
      evidence.RejectsSource ∨ evidence.target.Rejects evidence.targetText := by
  have unreadable := evidence.unreadable_of_reading
  have known := Issue.any_high_of_unreadable minor unreadable
  by_cases clean : evidence.reading.1 = []
  · have kept : Issue.anyHigh evidence.reading.1 = false := by rw [clean]; rfl
    obtain ⟨rule, accepted, found⟩ := reading_target clean
    have later : Issue.anyHigh
        ((evidence.reading.2.withIssues evidence.reading.1).comparing) = false :=
      minor_of_comparing found (Format.accepts_of_read accepted)
    have runs : (evidence.runStages Stage.all).2.issues =
        Issue.addAll (Issue.addAll evidence.issues evidence.reading.1)
          (evidence.reading.2.withIssues evidence.reading.1).comparing := by
      simp only [Stage.all, runStages, run, kept, later]
      rfl
    refine iff_of_false ?_ ((evidence.reading_eq_nil_iff).mp clean)
    rw [runs, Bool.not_eq_true, Issue.any_high_eq_false_iff]
    intro issue member
    rcases Issue.mem_add_all member with before | after
    · rw [clean] at before
      exact (minor issue before).1
    · exact Issue.any_high_eq_false_iff.mp later issue after
  · have severe : Issue.anyHigh evidence.reading.1 = true := by
      obtain ⟨issue, member⟩ := List.exists_mem_of_ne_nil _ clean
      exact Issue.any_high_eq_true_iff.mpr ⟨issue, member, (unreadable issue member).1⟩
    have runs : (evidence.runStages Stage.all).2.issues =
        Issue.addAll evidence.issues evidence.reading.1 := by
      simp only [Stage.all, runStages, run, severe]
      rfl
    refine iff_of_true ?_ (not_not.mp (mt (evidence.reading_eq_nil_iff).mpr clean))
    rw [runs, known]
    simpa using clean

end Evidence

namespace ValidationInput

theorem verdict_eq_error_iff (rounded : Rat → Rat) (threshold : Binary64) {input : ValidationInput}
    (minor : ∀ issue ∈ input.prior, issue.IsMinor) :
    (input.validate rounded threshold).verdict = .error ↔
      (input.sourceRule = none ∧ ∃ text ∈ input.sourceText, input.source.Rejects text) ∨
        input.target.Rejects input.targetText := by
  have known : ∀ issue ∈ input.evidence.issues, issue.IsMinor := by
    intro issue member
    rcases Issue.mem_add_all member with none | member
    · cases none
    · exact minor issue member
  have verdict : (input.validate rounded threshold).verdict =
      Verdict.ofIssues (input.evidence.runStages Stage.all).2.issues := rfl
  rw [verdict, Verdict.of_issues_eq_error_iff, Evidence.any_high_run_stages known]
  rfl

end ValidationInput

end DetectionRules
