/-!
Activities that take time. An activity ends with a result, waits, or looks at
the time and the state around it and changes that state at once. Only waiting
takes time, which is counted in milliseconds, so what several activities do to
one state depends on nothing but the order in which they are woken.
-/

namespace DetectionRules

inductive Activity (World Result : Type) where
  | done (result : Result)
  | wait (duration : Nat) (next : Activity World Result)
  | act (effect : Nat → World → World) (next : Nat → World → Activity World Result)

namespace Activity

variable {World Result Other : Type}

protected def bind (activity : Activity World Result) (continued : Result → Activity World Other) :
    Activity World Other :=
  match activity with
  | done result => continued result
  | wait duration next => wait duration (next.bind continued)
  | act effect next => act effect fun now world => (next now world).bind continued

instance : Monad (Activity World) where
  pure := done
  bind := Activity.bind

def pause (duration : Nat) : Activity World Unit := wait duration (done ())

def time : Activity World Nat := act (fun _ world => world) fun now _ => done now

def access (step : Nat → World → Result × World) : Activity World Result :=
  act (fun now world => (step now world).2) fun now world => done (step now world).1

/-- The time and the state in which an activity takes place. -/
structure Moment (World : Type) where
  now : Nat
  world : World

/-- The result of an activity that nothing else disturbs, and the moment of its end. -/
def run : Activity World Result → Moment World → Result × Moment World
  | done result, moment => (result, moment)
  | wait duration next, moment => next.run ⟨moment.now + duration, moment.world⟩
  | act effect next, ⟨now, world⟩ => (next now world).run ⟨now, effect now world⟩

/-- The activity as far as a time limit lets it go. What is due when the limit is reached is
still done. -/
def within (limit : Nat) : Activity World Result → Activity World (Option Result)
  | done result => done (some result)
  | wait duration next =>
      if duration ≤ limit then wait duration (within (limit - duration) next)
      else wait limit (done none)
  | act effect next => act effect fun now world => within limit (next now world)

/-- An activity on a part of a larger state. -/
def focus {Whole : Type} (get : Whole → World) (set : World → Whole → Whole) :
    Activity World Result → Activity Whole Result
  | done result => done result
  | wait duration next => wait duration (focus get set next)
  | act effect next =>
      act (fun now whole => set (effect now (get whole)) whole)
        fun now whole => focus get set (next now (get whole))

/-- An activity on a state of which one part is its own, and only the rest is there for others to
see. It begins with what it is given and leaves what it has in the end beside its result. -/
def owning {Own : Type} : Activity (Own × World) Result → Own → Activity World (Result × Own)
  | done result, own => done (result, own)
  | wait duration next, own => wait duration (next.owning own)
  | act effect next, own =>
      act (fun now world => (effect now (own, world)).2)
        fun now world => (next now (own, world)).owning (effect now (own, world)).1

/-- An activity on what others see too, for one who has something of his own. -/
def shared {Own : Type} (activity : Activity World Result) : Activity (Own × World) Result :=
  activity.focus Prod.snd fun world whole => (whole.1, world)

def rewrite {Own : Type} (change : Nat → Own → Own) : Activity (Own × World) Unit :=
  act (fun now whole => (change now whole.1, whole.2)) fun _ _ => done ()

/-- What is left of an activity after some of its steps. -/
def IsLater (later : Activity World Result) : Activity World Result → Prop
  | done _ => False
  | wait _ next => later = next ∨ IsLater later next
  | act _ next => ∃ now world, later = next now world ∨ IsLater later (next now world)

theorem acc_is_later (activity : Activity World Result) : Acc IsLater activity := by
  induction activity with
  | done result => exact ⟨_, fun _ impossible => impossible.elim⟩
  | wait duration next accessible =>
      refine ⟨_, fun later isLater => ?_⟩
      rcases isLater with rfl | isLater
      · exact accessible
      · exact accessible.inv isLater
  | act effect next accessible =>
      refine ⟨_, fun later ⟨now, world, isLater⟩ => ?_⟩
      rcases isLater with rfl | isLater
      · exact accessible now world
      · exact (accessible now world).inv isLater

/-- What an activity comes to without waiting. -/
inductive Pace (World Result : Type) where
  | finished (result : Result) (world : World)
  | waiting (duration : Nat) (next : Activity World Result) (world : World)

/-- Goes on up to the first wait that takes time. -/
def advance (now : Nat) : Activity World Result → World → Pace World Result
  | done result, world => .finished result world
  | wait 0 next, world => next.advance now world
  | wait (duration + 1) next, world => .waiting (duration + 1) next world
  | act effect next, world => (next now world).advance now (effect now world)

theorem is_later_of_advance {now duration : Nat} {activity next : Activity World Result}
    {world changed : World} (paused : activity.advance now world = .waiting duration next changed) :
    IsLater next activity := by
  induction activity generalizing world with
  | done result => simp [advance] at paused
  | wait length rest later =>
      cases length with
      | zero => exact .inr (later paused)
      | succ length =>
          simp only [advance, Pace.waiting.injEq] at paused
          exact .inl paused.2.1.symm
  | act effect rest later => exact ⟨now, world, .inr (later now world paused)⟩

end Activity

end DetectionRules
