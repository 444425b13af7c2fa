import DetectionRules.Proofs.Adaptation.Losses
import DetectionRules.Proofs.Text

/-!
What an advisor can do to an adaptation. An advisor who takes notes of what he is
asked answers as he does without them, so the notes tell what any advisor is
asked: about fields that the catalog has no name for, a few times each, and once
more only after a failure that may pass. Nothing but a name of the target dialect
that he is sure enough of comes of it, and it does not take long.
-/

namespace DetectionRules

namespace Activity

variable {World Own Result : Type}

def Moment.beside (moment : Moment World) (own : Own) : Moment (Own × World) :=
  ⟨moment.now, (own, moment.world)⟩

def Moment.after (moment : Moment World) (duration : Nat) : Moment World :=
  ⟨moment.now + duration, moment.world⟩

theorem run_pause (duration : Nat) (moment : Moment World) :
    (pause duration).run moment = ((), moment.after duration) := rfl

theorem after_beside (moment : Moment World) (own : Own) (duration : Nat) :
    (moment.beside own).after duration = (moment.after duration).beside own := rfl

theorem run_shared (activity : Activity World Result) (own : Own) (moment : Moment World) :
    (shared activity).run (moment.beside own) =
      ((activity.run moment).1, (activity.run moment).2.beside own) := by
  induction activity generalizing moment with
  | done result => rfl
  | wait duration next induction => exact induction (moment.after duration)
  | act effect next induction =>
      exact induction moment.now moment.world ⟨moment.now, effect moment.now moment.world⟩

theorem within_shared (activity : Activity World Result) (limit : Nat) :
    (shared activity : Activity (Own × World) Result).within limit =
      shared (activity.within limit) := by
  induction activity generalizing limit with
  | done result => rfl
  | wait duration next induction =>
      by_cases inTime : duration ≤ limit
      · have rest := induction (limit - duration)
        simp only [shared] at rest
        simp only [shared, focus, within, if_pos inTime, rest]
      · simp only [shared, focus, within, if_neg inTime]
  | act effect next induction =>
      simp only [shared] at induction
      simp only [shared, focus, within, induction]

theorem run_within_le (activity : Activity World Result) (limit : Nat) (moment : Moment World) :
    ((activity.within limit).run moment).2.now ≤ moment.now + limit := by
  induction activity generalizing limit moment with
  | done result => exact Nat.le_add_right _ _
  | wait duration next induction =>
      rw [within]
      split
      · have rest := induction (limit - duration) (moment.after duration)
        have fits : moment.now + duration + (limit - duration) = moment.now + limit := by omega
        exact rest.trans (Nat.le_of_eq fits)
      · exact Nat.le_refl _
  | act effect next induction =>
      exact induction moment.now moment.world limit ⟨moment.now, effect moment.now moment.world⟩

end Activity

open Activity (Moment)

variable {World : Type}

/-- A question and the moment in which it is asked. -/
structure Inquiry (World : Type) where
  question : FieldQuestion
  moment : Moment World

/-- The advisor, who notes each question before he thinks about it. -/
def Advisor.noting (advisor : Advisor World) : Advisor (List (Inquiry World) × World) :=
  fun question => .act
    (fun now whole => (whole.1 ++ [⟨question, now, whole.2⟩], whole.2))
    fun _ _ => (advisor question).shared

theorem Advisor.run_within_noting (advisor : Advisor World) (question : FieldQuestion) (limit : Nat)
    (notes : List (Inquiry World)) (moment : Moment World) :
    ((advisor.noting question).within limit).run (moment.beside notes) =
      ((((advisor question).within limit).run moment).1,
        (((advisor question).within limit).run moment).2.beside (notes ++ [⟨question, moment⟩])) := by
  rw [noting, Activity.within]
  simp only [Activity.within_shared]
  exact Activity.run_shared _ _ _

namespace RetryPolicy

variable {Failure Result : Type} (policy : RetryPolicy Failure)
  (attempt : Nat → Activity World (Except Failure Result)) (number more : Nat)
  {moment : Moment World}

theorem run_last_attempt :
    (policy.runFrom attempt number 0).run moment =
      ((((attempt number).run moment).1, number), ((attempt number).run moment).2) := by
  rw [runFrom, Activity.run_bind, Activity.run_pure]

theorem run_of_settled {result : Except Failure Result}
    (settled : ((attempt number).run moment).1 = result)
    (final : ∀ failure, result = .error failure → policy.isRetryable failure = false) :
    (policy.runFrom attempt number (more + 1)).run moment =
      ((result, number), ((attempt number).run moment).2) := by
  rw [runFrom, Activity.run_bind, settled]
  cases result with
  | ok result => rfl
  | error failure =>
      simp only [final failure rfl]
      rfl

theorem run_of_passing {failure : Failure}
    (failed : ((attempt number).run moment).1 = .error failure)
    (passing : policy.isRetryable failure = true) :
    (policy.runFrom attempt number (more + 1)).run moment =
      (policy.runFrom attempt (number + 1) more).run
        (((attempt number).run moment).2.after (policy.backoff.ticks number)) := by
  rw [runFrom, Activity.run_bind, failed]
  simp only [passing, if_true, Activity.run_bind, Activity.run_pause]

end RetryPolicy

/-- The longest time that attempts take if each has a time limit. -/
def RetryPolicy.longestFrom {Failure : Type} (policy : RetryPolicy Failure) (limit number : Nat) :
    Nat → Nat
  | 0 => limit
  | more + 1 => limit + policy.backoff.ticks number + policy.longestFrom limit (number + 1) more

namespace FieldResolver

def outcome (resolver : FieldResolver World) (advisor : Advisor World) (inquiry : Inquiry World) :
    Except AdvisorError FieldSuggestion :=
  ((resolver.ask advisor inquiry.question).run inquiry.moment).1

def noting (resolver : FieldResolver World) : FieldResolver (List (Inquiry World) × World) where
  advisor := resolver.advisor.map Advisor.noting
  policy := resolver.policy
  timeoutSeconds := resolver.timeoutSeconds
  minConfidence := resolver.minConfidence

/-- The longest time that one field takes. -/
def patience (resolver : FieldResolver World) : Nat :=
  resolver.policy.longestFrom (resolver.timeoutSeconds.toNat * 1000) 1
    (resolver.policy.maxAttempts - 1)

variable (resolver : FieldResolver World) (advisor : Advisor World)

/-- The inquiries by which a question is settled. -/
structure Asks (question : FieldQuestion) (inquiries : List (Inquiry World))
    (outcome : Except AdvisorError FieldSuggestion) : Prop where
  same : ∀ inquiry ∈ inquiries, inquiry.question = question
  /-- Only a failure that may pass is followed by another inquiry. -/
  again : ∀ inquiry ∈ inquiries.dropLast, ∃ failure,
    resolver.outcome advisor inquiry = .error failure ∧ resolver.policy.isRetryable failure = true
  last : ∃ inquiry, inquiries.getLast? = some inquiry ∧ resolver.outcome advisor inquiry = outcome

theorem Asks.cons {resolver : FieldResolver World} {advisor : Advisor World}
    {inquiries : List (Inquiry World)} {failure : AdvisorError}
    {outcome : Except AdvisorError FieldSuggestion} (inquiry : Inquiry World)
    (failed : resolver.outcome advisor inquiry = .error failure)
    (passing : resolver.policy.isRetryable failure = true)
    (asks : resolver.Asks advisor inquiry.question inquiries outcome) :
    resolver.Asks advisor inquiry.question (inquiry :: inquiries) outcome := by
  obtain ⟨final, found, settled⟩ := asks.last
  have filled : inquiries ≠ [] := by
    rintro rfl
    cases found
  refine ⟨?_, ?_, final, ?_, settled⟩
  · exact List.forall_mem_cons.mpr ⟨rfl, asks.same⟩
  · rw [List.dropLast_cons_of_ne_nil filled]
    exact List.forall_mem_cons.mpr ⟨⟨failure, failed, passing⟩, asks.again⟩
  · rw [List.getLast?_cons, found, Option.getD_some]

theorem run_ask_noting (question : FieldQuestion) (notes : List (Inquiry World))
    (moment : Moment World) :
    (resolver.noting.ask advisor.noting question).run (moment.beside notes) =
      (((resolver.ask advisor question).run moment).1,
        ((resolver.ask advisor question).run moment).2.beside (notes ++ [⟨question, moment⟩])) := by
  simp only [ask, noting, Activity.run_bind, Activity.run_pure, advisor.run_within_noting]

theorem run_ask_le (question : FieldQuestion) (moment : Moment World) :
    ((resolver.ask advisor question).run moment).2.now ≤
      moment.now + resolver.timeoutSeconds.toNat * 1000 := by
  simp only [ask, Activity.run_bind, Activity.run_pure]
  exact Activity.run_within_le _ _ _

theorem asks_single (question : FieldQuestion) (moment : Moment World) :
    resolver.Asks advisor question [⟨question, moment⟩]
      ((resolver.ask advisor question).run moment).1 :=
  ⟨by simp, by simp, ⟨question, moment⟩, rfl, rfl⟩

theorem run_from_noting (question : FieldQuestion) (number more : Nat)
    (notes : List (Inquiry World)) (moment : Moment World) :
    let settled := (resolver.policy.runFrom (fun _ => resolver.ask advisor question) number more).run
      moment
    settled.2.now ≤ moment.now +
        resolver.policy.longestFrom (resolver.timeoutSeconds.toNat * 1000) number more ∧
      ∃ inquiries, resolver.Asks advisor question inquiries settled.1.1 ∧
        inquiries.length ≤ more + 1 ∧
        (resolver.policy.runFrom (fun _ => resolver.noting.ask advisor.noting question)
          number more).run (moment.beside notes) =
            (settled.1, settled.2.beside (notes ++ inquiries)) := by
  induction more generalizing number notes moment with
  | zero =>
      rw [RetryPolicy.run_last_attempt, RetryPolicy.run_last_attempt, run_ask_noting]
      exact ⟨resolver.run_ask_le advisor question moment, _,
        resolver.asks_single advisor question moment, Nat.le_refl _, rfl⟩
  | succ more induction =>
      have inTime := resolver.run_ask_le advisor question moment
      have noted := resolver.run_ask_noting advisor question notes moment
      have same : ((resolver.noting.ask advisor.noting question).run (moment.beside notes)).1 =
          ((resolver.ask advisor question).run moment).1 := by rw [noted]
      by_cases repeats : ∃ failure, ((resolver.ask advisor question).run moment).1 = .error failure ∧
          resolver.policy.isRetryable failure = true
      · obtain ⟨failure, failed, passing⟩ := repeats
        rw [RetryPolicy.run_of_passing _ _ _ _ failed passing,
          RetryPolicy.run_of_passing _ _ _ _ (same.trans failed) passing, noted]
        obtain ⟨others, inquiries, asks, few, again⟩ := induction (number + 1)
          (notes ++ [⟨question, moment⟩])
          (((resolver.ask advisor question).run moment).2.after
            (resolver.policy.backoff.ticks number))
        refine ⟨others.trans ?_, ⟨question, moment⟩ :: inquiries,
          asks.cons ⟨question, moment⟩ failed passing, Nat.succ_le_succ few, ?_⟩
        · rw [RetryPolicy.longestFrom]
          simp only [Moment.after]
          omega
        · rw [Activity.after_beside, again, List.append_assoc, List.singleton_append]
      · have final : ∀ failure, ((resolver.ask advisor question).run moment).1 = .error failure →
            resolver.policy.isRetryable failure = false := by
          intro failure failed
          by_contra passing
          exact repeats ⟨failure, failed, by simpa using passing⟩
        rw [RetryPolicy.run_of_settled _ _ _ _ rfl final,
          RetryPolicy.run_of_settled _ _ _ _ same final, noted]
        refine ⟨inTime.trans ?_, _, resolver.asks_single advisor question moment, by simp, rfl⟩
        rw [RetryPolicy.longestFrom]
        omega

theorem run_noting (question : FieldQuestion) (notes : List (Inquiry World))
    (moment : Moment World) :
    let settled := (resolver.policy.run fun _ => resolver.ask advisor question).run moment
    settled.2.now ≤ moment.now + resolver.patience ∧
      ∃ inquiries, resolver.Asks advisor question inquiries settled.1.1 ∧
        inquiries.length ≤ max 1 resolver.policy.maxAttempts ∧
        (resolver.policy.run fun _ => resolver.noting.ask advisor.noting question).run
          (moment.beside notes) = (settled.1, settled.2.beside (notes ++ inquiries)) := by
  obtain ⟨inTime, inquiries, asks, few, noted⟩ := resolver.run_from_noting advisor question 1
    (resolver.policy.maxAttempts - 1) notes moment
  exact ⟨inTime, inquiries, asks, by omega, noted⟩

end FieldResolver

theorem Resolution.Allowed.issue_of_untranslated {target : Format} {resolution : Resolution}
    (allowed : resolution.Allowed target none) (field : String) :
    ∃ issue, resolution.issue? field target = some issue := by
  cases allowed with
  | translated translated => cases translated
  | inferred _ _ => exact ⟨_, rfl⟩
  | dropped _ => exact ⟨_, rfl⟩

namespace FieldResolver

variable (resolver : FieldResolver World) (advisor : Advisor World)

/-- What becomes of a field, and the inquiries about it. -/
inductive Settles (rule : Rule) (target : Format) (field : String) :
    List (Inquiry World) → Resolution → Prop
  | translated {native : String} : Catalog.translate? rule.dialect target field = some native →
      Settles rule target field [] (.translated native)
  | asked {inquiries : List (Inquiry World)} {outcome : Except AdvisorError FieldSuggestion} :
      Catalog.translate? rule.dialect target field = none →
      resolver.Asks advisor (question rule target field) inquiries outcome →
      inquiries.length ≤ max 1 resolver.policy.maxAttempts →
      Settles rule target field inquiries (resolver.judge (Catalog.fields target) outcome)

theorem resolve_noting {resolver : FieldResolver World} {advisor : Advisor World}
    (present : resolver.advisor = some advisor) (rule : Rule) (target : Format) (field : String)
    (notes : List (Inquiry World)) (moment : Moment World) :
    let settled := (resolver.resolve rule target field).run moment
    settled.2.now ≤ moment.now +
        (if (Catalog.translate? rule.dialect target field).isNone then resolver.patience else 0) ∧
      ∃ inquiries, resolver.Settles advisor rule target field inquiries settled.1 ∧
        (resolver.noting.resolve rule target field).run (moment.beside notes) =
          (settled.1, settled.2.beside (notes ++ inquiries)) := by
  have noted : resolver.noting.advisor = some advisor.noting := by rw [noting, present]; rfl
  simp only [resolve, present, noted]
  cases translated : Catalog.translate? rule.dialect target field with
  | some native => exact ⟨Nat.le_refl _, [], .translated translated, by simp⟩
  | none =>
      obtain ⟨inTime, inquiries, asks, few, same⟩ :=
        resolver.run_noting advisor (question rule target field) notes moment
      simp only [Activity.run_bind, Activity.run_pure]
      refine ⟨inTime, inquiries, .asked translated asks few, ?_⟩
      exact congrArg (fun outcome => (resolver.judge (Catalog.fields target) outcome.1.1, outcome.2))
        same

/-- A field with what becomes of it and the inquiries about it. -/
structure Dossier (World : Type) where
  field : String
  inquiries : List (Inquiry World)
  resolution : Resolution

theorem resolve_all_noting {resolver : FieldResolver World} {advisor : Advisor World}
    (present : resolver.advisor = some advisor) (rule : Rule) (target : Format)
    (fields : List String) (notes : List (Inquiry World)) (moment : Moment World) :
    let settled := (resolver.resolveAll rule target fields).run moment
    settled.2.now ≤ moment.now + resolver.patience *
        fields.countP (fun field => (Catalog.translate? rule.dialect target field).isNone) ∧
      ∃ dossiers : List (Dossier World), dossiers.map (·.field) = fields ∧
        (∀ dossier ∈ dossiers, resolver.Settles advisor rule target dossier.field
          dossier.inquiries dossier.resolution) ∧
        settled.1 = dossiers.map (fun dossier => (dossier.field, dossier.resolution)) ∧
        (resolver.noting.resolveAll rule target fields).run (moment.beside notes) =
          (settled.1, settled.2.beside (notes ++ dossiers.flatMap (·.inquiries))) := by
  induction fields generalizing notes moment with
  | nil => exact ⟨Nat.le_refl _, [], rfl, by simp, rfl, by simp [resolveAll]⟩
  | cons field rest induction =>
      obtain ⟨first, inquiries, settles, noted⟩ := resolve_noting present rule target field notes moment
      obtain ⟨inTime, dossiers, rfl, each, entries, others⟩ := induction (notes ++ inquiries)
        ((resolver.resolve rule target field).run moment).2
      simp only [resolveAll, Activity.run_bind, Activity.run_pure, noted, others]
      refine ⟨inTime.trans ?_, ⟨field, inquiries, ((resolver.resolve rule target field).run moment).1⟩
        :: dossiers, rfl, ?_, ?_, ?_⟩
      · rw [List.countP_cons, Nat.mul_add, mul_ite, Nat.mul_one, Nat.mul_zero]
        omega
      · exact List.forall_mem_cons.mpr ⟨settles, each⟩
      · rw [entries]
        rfl
      · rw [List.flatMap_cons, List.append_assoc]

theorem asks_settled {resolver : FieldResolver World} {advisor : Advisor World} {rule : Rule}
    {target : Format} {field : String} {inquiries : List (Inquiry World)} {resolution : Resolution}
    (settles : resolver.Settles advisor rule target field inquiries resolution) :
    (∀ inquiry ∈ inquiries, inquiry.question.field = field ∧
        Catalog.translate? rule.dialect target field = none) ∧
      inquiries.length ≤ max 1 resolver.policy.maxAttempts ∧
      ∀ inquiry ∈ inquiries.dropLast, ∃ failure,
        resolver.outcome advisor inquiry = .error failure ∧
          resolver.policy.isRetryable failure = true := by
  cases settles with
  | translated _ => exact ⟨by simp, by simp, by simp⟩
  | asked untranslated asks few =>
      refine ⟨fun inquiry member => ⟨?_, untranslated⟩, few, asks.again⟩
      rw [asks.same inquiry member]
      rfl

theorem name_of_judged {resolver : FieldResolver World} {candidates : List String}
    {outcome : Except AdvisorError FieldSuggestion} {name : String}
    (named : (resolver.judge candidates outcome).target? = some name) :
    name ∈ candidates ∧ ∃ suggestion, outcome = .ok suggestion ∧ suggestion.field = name ∧
      suggestion.confidence.isBelow resolver.minConfidence = false := by
  cases outcome with
  | error error => cases named
  | ok suggestion =>
      rw [judge] at named
      split at named
      · cases named
      · split at named
        · rename_i sure known
          cases named
          exact ⟨List.contains_iff_mem.mp known, suggestion, rfl, rfl, by simpa using sure⟩
        · cases named

theorem name_of_settled {resolver : FieldResolver World} {advisor : Advisor World} {rule : Rule}
    {target : Format} {field name : String} {inquiries : List (Inquiry World)}
    {resolution : Resolution}
    (settles : resolver.Settles advisor rule target field inquiries resolution)
    (named : resolution.target? = some name) :
    Catalog.translate? rule.dialect target field = some name ∨
      name ∈ Catalog.fields target ∧ ∃ inquiry ∈ inquiries, ∃ suggestion,
        resolver.outcome advisor inquiry = .ok suggestion ∧ suggestion.field = name ∧
          suggestion.confidence.isBelow resolver.minConfidence = false := by
  cases settles with
  | translated translated =>
      cases named
      exact .inl translated
  | asked _ asks _ =>
      obtain ⟨known, suggestion, rfl, same, sure⟩ := name_of_judged named
      obtain ⟨inquiry, last, answered⟩ := asks.last
      exact .inr ⟨known, inquiry, List.mem_of_getLast? last, suggestion, answered, same, sure⟩

theorem issue_of_settled {resolver : FieldResolver World} {advisor : Advisor World} {rule : Rule}
    {target : Format} {field : String} {inquiries : List (Inquiry World)} {resolution : Resolution}
    (settles : resolver.Settles advisor rule target field inquiries resolution)
    (asked : inquiries ≠ []) : ∃ issue, resolution.issue? field target = some issue := by
  cases settles with
  | translated _ => exact absurd rfl asked
  | asked _ _ _ =>
      exact (resolver.judge_allowed target _).issue_of_untranslated field

end FieldResolver

def Issue.tellsOf (field : String) (issue : Issue) : Bool :=
  issue.location == "field:" ++ field &&
    (issue.code == "FIELD_INFERRED" || issue.code == "FIELD_DROPPED")

theorem Resolution.tells_of_issue {resolution : Resolution} {field : String} {target : Format}
    {issue : Issue} (told : resolution.issue? field target = some issue) (other : String) :
    issue.tellsOf other = (field == other) := by
  cases resolution with
  | translated native => cases told
  | inferred suggestion =>
      cases told
      simp [Issue.tellsOf]
  | dropped reason =>
      cases told
      simp [Issue.tellsOf]

namespace Adaptation

variable {target : Format} {fields : List FieldPair}

theorem silent_of_code {issue : Issue} (inferred : issue.code ≠ "FIELD_INFERRED")
    (dropped : issue.code ≠ "FIELD_DROPPED") (field : String) : issue.tellsOf field = false := by
  simp [Issue.tellsOf, inferred, dropped]

theorem silent_test {test : FieldTest} {issue : Issue}
    (told : testIssue? target fields test = some issue) (field : String) :
    issue.tellsOf field = false := by
  rw [testIssue?] at told
  split at told
  · cases told
    exact silent_of_code (by simp) (by simp) field
  · cases told

theorem silent_selection {source : Selection} {issue : Issue}
    (told : issue ∈ selectionIssues target fields source) (field : String) :
    issue.tellsOf field = false := by
  rcases List.mem_append.mp told with tests | emptied
  · obtain ⟨test, _, told⟩ := List.mem_filterMap.mp tests
    exact silent_test told field
  · split at emptied
    · obtain rfl := List.mem_singleton.mp emptied
      exact silent_of_code (by simp [emptiedIssue]) (by simp [emptiedIssue]) field
    · cases emptied

theorem silent_part {source : LogSource} {part : LogSourcePart} {issue : Issue}
    (told : partIssue? target source part = some issue) (field : String) :
    issue.tellsOf field = false := by
  rw [partIssue?] at told
  split at told
  · cases told
  · obtain ⟨value, _, rfl⟩ := Option.map_eq_some_iff.mp told
    exact silent_of_code (by simp) (by simp) field

theorem filter_issues_of_fields (rule : Rule) (target : Format) (fields : List FieldPair)
    (issues : List Issue) (field : String) :
    (ofFields rule target fields issues).issues.filter (·.tellsOf field) =
      issues.filter (·.tellsOf field) := by
  have selections : (rule.selections.flatMap (selectionIssues target fields)).filter
      (·.tellsOf field) = [] := by
    rw [List.filter_eq_nil_iff]
    intro issue member
    obtain ⟨source, _, told⟩ := List.mem_flatMap.mp member
    simp [silent_selection told field]
  have parts : (LogSourcePart.all.filterMap (partIssue? target rule.logSource)).filter
      (·.tellsOf field) = [] := by
    rw [List.filter_eq_nil_iff]
    intro issue member
    obtain ⟨part, _, told⟩ := List.mem_filterMap.mp member
    simp [silent_part told field]
  have nothing : (nothingLeft target).tellsOf field = false :=
    silent_of_code (by simp [nothingLeft]) (by simp [nothingLeft]) field
  rw [of_fields_eq]
  cases conditionLeft? rule target fields with
  | none => simp [selections, nothing]
  | some condition => simp [selections, parts]

end Adaptation

theorem filter_parts_of_key {Item Part : Type} {key : Item → String} {parts : Item → List Part}
    {belongs : Part → Bool} {items : List Item} (distinct : (items.map key).Nodup) {item : Item}
    (member : item ∈ items)
    (each : ∀ other ∈ items, ∀ part ∈ parts other, belongs part = (key other == key item)) :
    (items.flatMap parts).filter belongs = parts item := by
  obtain ⟨before, after, rfl⟩ := List.append_of_mem member
  rw [List.map_append, List.map_cons, List.nodup_middle, List.nodup_cons, ← List.map_append]
    at distinct
  have others : ∀ other ∈ before ++ after, (parts other).filter belongs = [] := by
    intro other place
    have different : key other ≠ key item := fun same =>
      distinct.1 (same ▸ List.mem_map_of_mem place)
    rw [List.filter_eq_nil_iff]
    intro part inside
    have known : other ∈ before ++ item :: after := by
      rcases List.mem_append.mp place with first | last
      · exact List.mem_append_left _ first
      · exact List.mem_append_right _ (List.mem_cons_of_mem _ last)
    simp [each other known part inside, different]
  have own : (parts item).filter belongs = parts item := by
    rw [List.filter_eq_self]
    intro part inside
    simpa using each item member part inside
  have first := List.flatMap_eq_nil_iff.mpr fun other place =>
    others other (List.mem_append_left _ place)
  have last := List.flatMap_eq_nil_iff.mpr fun other place =>
    others other (List.mem_append_right _ place)
  rw [List.filter_flatMap, List.flatMap_append, List.flatMap_cons, first, own, last,
    List.nil_append, List.append_nil]

namespace FieldResolver

def about (field : String) (inquiries : List (Inquiry World)) : List (Inquiry World) :=
  inquiries.filter (·.question.field == field)

/-- What an adaptation with some settings owes to an advisor, given the inquiries in their order. -/
structure Consults (config : Config) (advisor : Advisor World) (rule : Rule) (target : Format)
    (inquiries : List (Inquiry World)) (adaptation : Adaptation) : Prop where
  untranslated : ∀ inquiry ∈ inquiries, inquiry.question.field ∈ rule.referencedFields ∧
    Catalog.translate? rule.dialect target inquiry.question.field = none
  few : ∀ field, (about field inquiries).length ≤ max 1 config.advisor.maxAttempts.toNat
  /-- There is another inquiry about a field only after a time limit or an advisor out of reach. -/
  again : ∀ field, ∀ inquiry ∈ (about field inquiries).dropLast,
    (∃ seconds, (ofConfig config (some advisor)).outcome advisor inquiry =
        .error (.timeout seconds)) ∨
      ∃ reason, (ofConfig config (some advisor)).outcome advisor inquiry =
        .error (.unavailable reason)
  /-- A name is that of the catalog, or a sure suggestion of a name of the target dialect. -/
  named : ∀ pair ∈ adaptation.fields, ∀ name ∈ pair.target,
    Catalog.translate? rule.dialect target pair.source = some name ∨
      name ∈ Catalog.fields target ∧ ∃ inquiry ∈ inquiries, inquiry.question.field = pair.source ∧
        ∃ suggestion, (ofConfig config (some advisor)).outcome advisor inquiry = .ok suggestion ∧
          suggestion.field = name ∧
          suggestion.confidence.isBelow config.advisor.minConfidence = false
  told : ∀ inquiry ∈ inquiries,
    ∃ issue, adaptation.issues.filter (·.tellsOf inquiry.question.field) = [issue]

theorem about_dossiers {dossiers : List (Dossier World)}
    (distinct : (dossiers.map (·.field)).Nodup)
    (settled : ∀ dossier ∈ dossiers, ∀ inquiry ∈ dossier.inquiries,
      inquiry.question.field = dossier.field) (field : String) :
    about field (dossiers.flatMap (·.inquiries)) = [] ∨
      ∃ dossier ∈ dossiers, about field (dossiers.flatMap (·.inquiries)) = dossier.inquiries := by
  by_cases known : field ∈ dossiers.map (·.field)
  · obtain ⟨dossier, member, rfl⟩ := List.mem_map.mp known
    refine .inr ⟨dossier, member, filter_parts_of_key distinct member ?_⟩
    intro other place inquiry inside
    rw [settled other place inquiry inside]
  · refine .inl (List.filter_eq_nil_iff.mpr fun inquiry inside => ?_)
    obtain ⟨dossier, member, inside⟩ := List.mem_flatMap.mp inside
    have different : inquiry.question.field ≠ field := by
      rintro rfl
      exact known (settled dossier member inquiry inside ▸ List.mem_map_of_mem member)
    simpa using different

theorem consults_of_dossiers {config : Config} {advisor : Advisor World} {rule : Rule}
    {target : Format} {dossiers : List (Dossier World)}
    (fields : dossiers.map (·.field) = rule.referencedFields)
    (each : ∀ dossier ∈ dossiers, (ofConfig config (some advisor)).Settles advisor rule target
      dossier.field dossier.inquiries dossier.resolution) :
    Consults config advisor rule target (dossiers.flatMap (·.inquiries))
      (Adaptation.ofResolutions rule target
        (dossiers.map fun dossier => (dossier.field, dossier.resolution))) := by
  have distinct : (dossiers.map (·.field)).Nodup := fields ▸ Text.nodup_erase_dups _
  have settled : ∀ dossier ∈ dossiers, ∀ inquiry ∈ dossier.inquiries,
      inquiry.question.field = dossier.field := fun dossier member inquiry inside =>
    ((asks_settled (each dossier member)).1 inquiry inside).1
  have inquired := about_dossiers distinct settled
  constructor
  case untranslated =>
    intro inquiry inside
    obtain ⟨dossier, member, inside⟩ := List.mem_flatMap.mp inside
    obtain ⟨same, untranslated⟩ := (asks_settled (each dossier member)).1 inquiry inside
    rw [same]
    exact ⟨fields ▸ List.mem_map_of_mem member, untranslated⟩
  case few =>
    intro field
    rcases inquired field with none | ⟨dossier, member, all⟩
    · simp [none]
    · rw [all]
      exact (asks_settled (each dossier member)).2.1
  case again =>
    intro field inquiry inside
    rcases inquired field with none | ⟨dossier, member, all⟩
    · simp [none] at inside
    · rw [all] at inside
      obtain ⟨failure, failed, passing⟩ := (asks_settled (each dossier member)).2.2 inquiry inside
      cases failure with
      | timeout seconds => exact .inl ⟨seconds, failed⟩
      | unavailable reason => exact .inr ⟨reason, failed⟩
      | invalidResponse reason => cases passing
      | configuration reason => cases passing
  case named =>
    intro pair place name named
    rw [Adaptation.ofResolutions, Adaptation.fields_of_fields, List.map_map] at place
    obtain ⟨dossier, member, rfl⟩ := List.mem_map.mp place
    rcases name_of_settled (each dossier member) named with translated | ⟨known, inquiry, inside, rest⟩
    · exact .inl translated
    · exact .inr ⟨known, inquiry, List.mem_flatMap.mpr ⟨dossier, member, inside⟩,
        settled dossier member inquiry inside, rest⟩
  case told =>
    intro inquiry inside
    obtain ⟨dossier, member, inside⟩ := List.mem_flatMap.mp inside
    obtain ⟨issue, told⟩ := issue_of_settled (each dossier member) (List.ne_nil_of_mem inside)
    refine ⟨issue, ?_⟩
    rw [settled dossier member inquiry inside, Adaptation.ofResolutions,
      Adaptation.filter_issues_of_fields, List.filterMap_map, List.filterMap_eq_flatMap_toList]
    refine (filter_parts_of_key distinct member fun other place issue found => ?_).trans ?_
    · exact Resolution.tells_of_issue (Option.mem_toList.mp found) _
    · exact congrArg Option.toList told

end FieldResolver

/-- Whatever an advisor does, the adaptation comes to an end in time, he is asked what he may be
asked, and what he says counts only as far as it may. Taking notes of it changes nothing. -/
theorem FieldResolver.adapt_consults (config : Config) (advisor : Advisor World) (rule : Rule)
    (target : Format) (moment : Moment World) :
    let adapted := ((ofConfig config (some advisor)).adapt rule target).run moment
    adapted.2.now ≤ moment.now + (ofConfig config (some advisor)).patience *
        rule.referencedFields.countP
          (fun field => (Catalog.translate? rule.dialect target field).isNone) ∧
      ∃ inquiries, Consults config advisor rule target inquiries adapted.1 ∧
        ((ofConfig config (some advisor.noting)).adapt rule target).run (moment.beside []) =
          (adapted.1, adapted.2.beside inquiries) := by
  obtain ⟨inTime, dossiers, fields, each, entries, noted⟩ := resolve_all_noting
    (show (ofConfig config (some advisor)).advisor = some advisor from rfl) rule target
    rule.referencedFields [] moment
  have same : (ofConfig config (some advisor)).noting = ofConfig config (some advisor.noting) := rfl
  rw [same, List.nil_append] at noted
  simp only [adapt, Activity.run_bind, Activity.run_pure, noted]
  rw [entries]
  exact ⟨inTime, _, consults_of_dossiers fields each, rfl⟩

/-- Out of reach, an advisor is asked once more. -/
example : ((((FieldResolver.ofConfig {} (some unsureAdvisor.noting)).adapt moodyLogon
    .crowdstrike).run ⟨0, ([], ())⟩).2.world.1.map fun inquiry =>
      (inquiry.question.field, inquiry.moment.now)) = [("Mood", 0), ("Place", 5), ("Place", 205)] := by
  decide +kernel

end DetectionRules
