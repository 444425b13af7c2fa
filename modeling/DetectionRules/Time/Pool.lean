import DetectionRules.Time.Activity

/-!
Many activities on one state, of which only so many may be under way at once.
They begin in the order of their seats. Those that are due go on before others
begin, in the order in which they fell asleep, and time moves on only when
nothing else can be done. A result that stops the pool leaves all others
without one.
-/

namespace DetectionRules

inductive Seat (World Result : Type) where
  | idle (activity : Activity World Result)
  /-- Waiting until a time; seats that fell asleep earlier have a lower turn. -/
  | asleep (wake turn : Nat) (activity : Activity World Result)
  | ended (result : Result)

namespace Seat

variable {World Result : Type}

def activity? : Seat World Result → Option (Activity World Result)
  | idle activity | asleep _ _ activity => some activity
  | ended _ => none

def result? : Seat World Result → Option Result
  | ended result => some result
  | _ => none

def isIdle : Seat World Result → Bool
  | idle _ => true
  | _ => false

/-- When the seat wakes, and its turn. -/
def alarm? : Seat World Result → Option (Nat × Nat)
  | asleep wake turn _ => some (wake, turn)
  | _ => none

/-- Nothing is left of what one seat still has to do, or less than of the other. -/
def IsBelow (first second : Seat World Result) : Prop :=
  ∃ activity, second.activity? = some activity ∧
    ∀ rest, first.activity? = some rest → rest.IsLater activity

theorem acc_is_below (seat : Seat World Result) : Acc IsBelow seat := by
  have ended : ∀ seat : Seat World Result, seat.activity? = none → Acc IsBelow seat := by
    intro seat empty
    refine ⟨_, fun first ⟨activity, has, _⟩ => ?_⟩
    rw [empty] at has
    contradiction
  have open_ : ∀ activity : Activity World Result, ∀ seat, seat.activity? = some activity →
      Acc IsBelow seat := by
    intro activity
    induction activity.acc_is_later with
    | intro activity _ below =>
        intro seat has
        refine ⟨_, fun first ⟨other, hasOther, later⟩ => ?_⟩
        rw [has] at hasOther
        cases hasOther
        cases hasFirst : first.activity? with
        | none => exact ended first hasFirst
        | some rest => exact below rest (later rest hasFirst) first hasFirst
  cases has : seat.activity? with
  | none => exact ended seat has
  | some activity => exact open_ activity seat has

end Seat

namespace Pool

variable {World Result : Type}

inductive IsBelow : List (Seat World Result) → List (Seat World Result) → Prop where
  | head {first second rest} (below : first.IsBelow second) : IsBelow (first :: rest) (second :: rest)
  | tail {seat first second} (below : IsBelow first second) : IsBelow (seat :: first) (seat :: second)

theorem acc_is_below (seats : List (Seat World Result)) : Acc IsBelow seats := by
  induction seats with
  | nil => exact ⟨_, fun _ impossible => nomatch impossible⟩
  | cons seat rest accessible =>
      induction seat.acc_is_below generalizing rest with
      | intro seat _ belowSeat =>
          induction accessible with
          | intro rest accessibleRest belowRest =>
              refine ⟨_, fun seats below => ?_⟩
              cases below with
              | head below => exact belowSeat _ below rest ⟨_, accessibleRest⟩
              | tail below => exact belowRest _ below

theorem is_below_set {seats : List (Seat World Result)} {index : Nat} {first second : Seat World Result}
    (present : seats[index]? = some second) (below : first.IsBelow second) :
    IsBelow (seats.set index first) seats := by
  induction seats generalizing index with
  | nil => simp at present
  | cons seat rest inductive_ =>
      cases index with
      | zero =>
          simp only [List.getElem?_cons_zero, Option.some.injEq] at present
          subst present
          exact .head below
      | succ index => exact .tail (inductive_ (by simpa using present))

instance : WellFoundedRelation (List (Seat World Result)) := ⟨IsBelow, ⟨acc_is_below⟩⟩

def comesBefore (first second : Nat × Nat) : Bool :=
  first.1 < second.1 || (first.1 == second.1 && first.2 < second.2)

/-- The alarm that comes first, the one found so far or that of a seat, and the index of its
seat. -/
def firstAlarm (best : Option ((Nat × Nat) × Nat)) (entry : Seat World Result × Nat) :
    Option ((Nat × Nat) × Nat) :=
  match entry.1.alarm?, best with
  | none, best => best
  | some alarm, none => some (alarm, entry.2)
  | some alarm, some (other, found) =>
      if comesBefore alarm other then some (alarm, entry.2) else some (other, found)

def nextAsleep? (seats : List (Seat World Result)) : Option (Nat × Nat) :=
  (seats.zipIdx.foldl firstAlarm none).map fun (alarm, index) => (index, alarm.1)

def underWay (seats : List (Seat World Result)) : Nat :=
  (seats.filter fun seat => seat.alarm?.isSome).length

/-- The seat that goes on next, and when. -/
def next? (limit now : Nat) (seats : List (Seat World Result)) : Option (Nat × Nat) :=
  let idle := if underWay seats < limit then seats.findIdx? (·.isIdle) else none
  match nextAsleep? seats, idle with
  | some (index, wake), some idle => if wake ≤ now then some (index, wake) else some (idle, now)
  | some (index, wake), none => some (index, wake)
  | none, idle => idle.map fun idle => (idle, now)

/-- Lets the activities go on until all have ended or one of the results stops the pool. -/
def runFrom (limit : Nat) (stops : Result → Bool) (turn : Nat) (seats : List (Seat World Result))
    (moment : Activity.Moment World) : List (Seat World Result) × Activity.Moment World :=
  match next? limit moment.now seats with
  | none => (seats, moment)
  | some (index, due) =>
      let now := max moment.now due
      match _present : seats[index]? with
      | none => (seats, moment)
      | some seat =>
          match _has : seat.activity? with
          | none => (seats, moment)
          | some activity =>
              match _paused : activity.advance now moment.world with
              | .finished result world =>
                  let seats := seats.set index (.ended result)
                  if stops result then (seats, ⟨now, world⟩)
                  else runFrom limit stops turn seats ⟨now, world⟩
              | .waiting duration next world =>
                  runFrom limit stops (turn + 1)
                    (seats.set index (.asleep (now + duration) turn next)) ⟨now, world⟩
termination_by seats
decreasing_by
  · exact is_below_set _present ⟨activity, _has, fun _ impossible => nomatch impossible⟩
  · refine is_below_set _present ⟨activity, _has, fun rest same => ?_⟩
    cases same
    exact Activity.is_later_of_advance _paused

/-- The results in the order of the activities; those that a stop left without one have none. -/
def run (limit : Nat) (stops : Result → Bool) (activities : List (Activity World Result))
    (moment : Activity.Moment World) : List (Option Result) × Activity.Moment World :=
  let (seats, moment) := runFrom limit stops 0 (activities.map .idle) moment
  (seats.map (·.result?), moment)

end Pool

end DetectionRules
