import DetectionRules.Proofs.Activity
import Mathlib.Data.List.Chain
import Mathlib.Order.Bounds.Defs

/-!
What happens in an activity that others disturb: its waits, and what it found and left whenever it
looked at the state. Under a retry policy attempts are made one after the other, each once and with
the next number, and nothing but the delay of the policy lies between two of them. The first that
settles the matter is the last, and nothing happens after it.
-/

namespace DetectionRules

namespace Activity

variable {World Result Other : Type}

inductive Happening (World : Type) where
  | waited (duration : Nat)
  | acted (now : Nat) (found left : World)

/-- The moment that an activity gets to see after all that has happened in it. Others may have
changed the state in the meantime, and time may have passed. -/
abbrev Surroundings (World : Type) := List (Happening World) → Moment World

/-- The result of an activity, and all that has happened by its end. -/
def course (surroundings : Surroundings World) :
    Activity World Result → List (Happening World) → Result × List (Happening World)
  | done result, past => (result, past)
  | wait duration next, past => next.course surroundings (past ++ [.waited duration])
  | act effect next, past =>
      let ⟨now, world⟩ := surroundings past
      (next now world).course surroundings (past ++ [.acted now world (effect now world)])

variable {surroundings : Surroundings World}

theorem course_pure (result : Result) (past : List (Happening World)) :
    (pure result : Activity World Result).course surroundings past = (result, past) := rfl

theorem course_pause (duration : Nat) (past : List (Happening World)) :
    (pause duration).course surroundings past = ((), past ++ [.waited duration]) := rfl

theorem course_bind (activity : Activity World Result) (continued : Result → Activity World Other)
    (past : List (Happening World)) :
    (activity >>= continued).course surroundings past =
      (continued (activity.course surroundings past).1).course surroundings
        (activity.course surroundings past).2 := by
  change (activity.bind continued).course surroundings past = _
  induction activity generalizing past with
  | done result => rfl
  | wait duration next induction => exact induction _
  | act effect next induction => exact induction _ _ _

def Happening.leave (moment : Moment World) : Happening World → Moment World
  | waited duration => ⟨moment.now + duration, moment.world⟩
  | acted now _ left => ⟨now, left⟩

/-- What an activity itself has made of the moment in which it began. -/
def undisturbed (start : Moment World) : Surroundings World :=
  fun past => past.foldl Happening.leave start

theorem undisturbed_append (start : Moment World) (past : List (Happening World))
    (happening : Happening World) :
    undisturbed start (past ++ [happening]) = happening.leave (undisturbed start past) :=
  List.foldl_append ..

theorem run_undisturbed (activity : Activity World Result) (start : Moment World)
    (past : List (Happening World)) :
    activity.run (undisturbed start past) =
      ((activity.course (undisturbed start) past).1,
        undisturbed start (activity.course (undisturbed start) past).2) := by
  induction activity generalizing past with
  | done result => rfl
  | wait duration next induction =>
      have rest := induction (past ++ [.waited duration])
      rwa [undisturbed_append] at rest
  | act effect next induction =>
      cases found : undisturbed start past with
      | mk now world =>
          have rest := induction now world (past ++ [.acted now world (effect now world)])
          rw [undisturbed_append, Happening.leave] at rest
          simpa only [Activity.run, course, found] using rest

end Activity

open Activity (Happening Surroundings Moment undisturbed)

/-- The delay in as few milliseconds as are not shorter. -/
theorem Backoff.is_least_ticks (backoff : Backoff) (attempt : Nat) :
    IsLeast {duration | backoff.delay attempt ≤ duration * 1000000} (backoff.ticks attempt) := by
  refine ⟨?_, fun duration enough => ?_⟩
  · change backoff.delay attempt ≤ (backoff.delay attempt + 999999) / 1000000 * 1000000
    omega
  · change (backoff.delay attempt + 999999) / 1000000 ≤ duration
    change backoff.delay attempt ≤ duration * 1000000 at enough
    omega

namespace RetryPolicy

/-- A call of an attempt, with what had happened before and by its end. -/
structure Call (World Failure Result : Type) where
  number : Nat
  before : List (Happening World)
  outcome : Except Failure Result
  after : List (Happening World)

variable {World Failure Result : Type} (policy : RetryPolicy Failure)
  (attempt : Nat → Activity World (Except Failure Result)) (surroundings : Surroundings World)

/-- An attempt with this number and outcome is the last: it succeeded, it failed for a reason that
does not pass, or it used up the budget. -/
def Settles (number : Nat) : Except Failure Result → Prop
  | .ok _ => True
  | .error failure => policy.isRetryable failure = false ∨ max 1 policy.maxAttempts ≤ number

/-- Between two calls there is a wait for the delay, and nothing else. -/
def Precedes (call next : Call World Failure Result) : Prop :=
  ∃ milliseconds,
    IsLeast {duration | policy.backoff.delay call.number ≤ duration * 1000000} milliseconds ∧
      next.before = call.after ++ [.waited milliseconds]

/-- All calls from the first to the last. -/
structure Calls (first : Nat) (past : List (Happening World))
    (calls : List (Call World Failure Result)) (last : Call World Failure Result) : Prop where
  numbers : calls.map (·.number) = List.range' first calls.length
  made : ∀ call ∈ calls,
    (attempt call.number).course surroundings call.before = (call.outcome, call.after)
  begins : ∀ call ∈ calls.head?, call.before = past
  waits : calls.IsChain policy.Precedes
  again : ∀ call ∈ calls.dropLast, ¬policy.Settles call.number call.outcome
  ends : calls.getLast? = some last
  settled : policy.Settles last.number last.outcome

variable {policy attempt surroundings} {number more : Nat} {past : List (Happening World)}
  {outcome : Except Failure Result} {later : List (Happening World)}

theorem calls_single
    (made : (attempt number).course surroundings past = (outcome, later))
    (settled : policy.Settles number outcome) :
    policy.Calls attempt surroundings number past [⟨number, past, outcome, later⟩]
      ⟨number, past, outcome, later⟩ where
  numbers := rfl
  made := by simpa using made
  begins := by simp
  waits := .singleton _
  again := by simp
  ends := rfl
  settled := settled

theorem calls_cons {calls : List (Call World Failure Result)} {last : Call World Failure Result}
    (made : (attempt number).course surroundings past = (outcome, later))
    (unsettled : ¬policy.Settles number outcome)
    (others : policy.Calls attempt surroundings (number + 1)
      (later ++ [.waited (policy.backoff.ticks number)]) calls last) :
    policy.Calls attempt surroundings number past (⟨number, past, outcome, later⟩ :: calls)
      last where
  numbers := by rw [List.map_cons, others.numbers, List.length_cons, List.range'_succ]
  made := List.forall_mem_cons.mpr ⟨made, others.made⟩
  begins := by simp
  waits := by
    refine List.isChain_cons.mpr ⟨fun next isNext => ?_, others.waits⟩
    exact ⟨_, policy.backoff.is_least_ticks number, others.begins next isNext⟩
  again := by
    have filled : calls ≠ [] := by
      rintro rfl
      cases others.ends
    rw [List.dropLast_cons_of_ne_nil filled]
    exact List.forall_mem_cons.mpr ⟨unsettled, others.again⟩
  ends := by rw [List.getLast?_cons, others.ends, Option.getD_some]
  settled := others.settled

theorem Calls.number_last {first : Nat} {calls : List (Call World Failure Result)}
    {last : Call World Failure Result}
    (made : policy.Calls attempt surroundings first past calls last) :
    last.number + 1 = first + calls.length := by
  obtain ⟨front, rfl⟩ := List.getLast?_eq_some_iff.mp made.ends
  have numbers := made.numbers
  simp only [List.map_append, List.map_cons, List.map_nil, List.length_append, List.length_cons,
    List.length_nil, Nat.zero_add, List.range'_concat, Nat.one_mul] at numbers
  have same := List.append_inj_right' numbers rfl
  simp only [List.cons.injEq, and_true] at same
  simp only [List.length_append, List.length_cons, List.length_nil]
  omega

/-- After a call that settles the matter nothing happens. -/
theorem course_of_settled (made : (attempt number).course surroundings past = (outcome, later))
    (budget : number + more = max 1 policy.maxAttempts) (settled : policy.Settles number outcome) :
    (policy.runFrom attempt number more).course surroundings past = ((outcome, number), later) := by
  cases more with
  | zero => rw [runFrom, Activity.course_bind, made, Activity.course_pure]
  | succ more =>
      rw [runFrom, Activity.course_bind, made]
      cases outcome with
      | ok result => rfl
      | error failure =>
          have final : policy.isRetryable failure = false := settled.resolve_right (by omega)
          simp only [final]
          rfl

/-- After any other there is the delay and then the next call. -/
theorem course_of_unsettled (made : (attempt number).course surroundings past = (outcome, later))
    (unsettled : ¬policy.Settles number outcome) :
    (policy.runFrom attempt number (more + 1)).course surroundings past =
      (policy.runFrom attempt (number + 1) more).course surroundings
        (later ++ [.waited (policy.backoff.ticks number)]) := by
  rw [runFrom, Activity.course_bind, made]
  cases outcome with
  | ok result => exact absurd trivial unsettled
  | error failure =>
      have passing : policy.isRetryable failure = true :=
        (Bool.not_eq_false _).mp fun final => unsettled (.inl final)
      simp only [passing, if_true, Activity.course_bind, Activity.course_pause]

theorem settles_of_spent (outcome : Except Failure Result)
    (spent : number = max 1 policy.maxAttempts) : policy.Settles number outcome := by
  cases outcome with
  | ok result => trivial
  | error failure => exact .inr spent.ge

variable (policy attempt surroundings)

theorem run_from_calls (number more : Nat) (past : List (Happening World))
    (budget : number + more = max 1 policy.maxAttempts) :
    ∃ calls last, policy.Calls attempt surroundings number past calls last ∧
      (policy.runFrom attempt number more).course surroundings past =
        ((last.outcome, last.number), last.after) := by
  -- By induction on the attempts that are left, as long as none has settled the matter.
  induction more generalizing number past with
  | zero =>
      have settled := settles_of_spent ((attempt number).course surroundings past).1 budget
      exact ⟨_, _, calls_single rfl settled, course_of_settled rfl budget settled⟩
  | succ more induction =>
      by_cases settled : policy.Settles number ((attempt number).course surroundings past).1
      · exact ⟨_, _, calls_single rfl settled, course_of_settled rfl budget settled⟩
      · obtain ⟨calls, last, others, same⟩ := induction (number + 1)
          (((attempt number).course surroundings past).2 ++
            [.waited (policy.backoff.ticks number)]) (by omega)
        exact ⟨_, last, calls_cons rfl settled others,
          (course_of_unsettled rfl settled).trans same⟩

theorem run_calls (past : List (Happening World)) :
    ∃ calls last, policy.Calls attempt surroundings 1 past calls last ∧
      (policy.run attempt).course surroundings past =
        ((last.outcome, calls.length), last.after) := by
  obtain ⟨calls, last, made, same⟩ := run_from_calls policy attempt surroundings 1
    (policy.maxAttempts - 1) past (by omega)
  have count : last.number = calls.length := by
    have number := made.number_last
    omega
  exact ⟨calls, last, made, by rw [run, same, count]⟩

/-- Attempts are called with the numbers from one on, each once and in order, with the delay and
nothing else between two of them. The first that settles the matter is the last, and its outcome
and number are the result, whatever others do meanwhile. -/
theorem attempts_called_in_turn :
    (∀ (surroundings : Surroundings World) (past : List (Happening World)),
      ∃ calls last, policy.Calls attempt surroundings 1 past calls last ∧
        (policy.run attempt).course surroundings past =
          ((last.outcome, calls.length), last.after)) ∧
    ∀ start : Moment World,
      ∃ calls last, policy.Calls attempt (undisturbed start) 1 [] calls last ∧
        (policy.run attempt).run start =
          ((last.outcome, calls.length), undisturbed start last.after) := by
  refine ⟨policy.run_calls attempt, fun start => ?_⟩
  obtain ⟨calls, last, made, same⟩ := policy.run_calls attempt (undisturbed start) []
  refine ⟨calls, last, made, ?_⟩
  have ended := Activity.run_undisturbed (policy.run attempt) start []
  rw [same] at ended
  exact ended

example : ((⟨3, .fixed 200, fun _ => true⟩ : RetryPolicy Unit).run fun number => (do
      Activity.pause number
      return if number < 3 then .error () else .ok "done" : Activity Unit _)).course
        (undisturbed ⟨0, ()⟩) [] =
      ((.ok "done", 3), [.waited 1, .waited 200, .waited 2, .waited 200, .waited 3]) := by rfl

end RetryPolicy

end DetectionRules
