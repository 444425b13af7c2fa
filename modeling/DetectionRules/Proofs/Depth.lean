import DetectionRules.Proofs.Taking

/-!
How deep an expression is read. The reader is written once more: it counts the
parentheses and negations it is under, writes down the operands and terms that it
goes into, and its recursion and its loops have a limit on their turns instead of
a look at what is left of the tokens. More turns than tokens are enough for it.
-/

namespace DetectionRules.Parser

/-- A parser that writes down calls. Out of turns, it comes to nothing. -/
abbrev Traced (Call Result : Type) : Type :=
  StateT (List Token) (ExceptT Fault (StateT (List Call) Option)) Result

namespace Traced

variable {Call Result Next : Type}

def outOfTurns : Traced Call Result := fun _ _ => none

def of (parser : Parser Result) : Traced Call Result :=
  fun tokens calls => some (parser tokens, calls)

def write (call : Call) : Traced Call Unit :=
  fun tokens calls => some (.ok ((), tokens), calls ++ [call])

def repeated (step : Traced Call (Option Result)) : Nat → Traced Call (List Result)
  | 0 => outOfTurns
  | turns + 1 => do
      match ← step with
      | none => return []
      | some result => return result :: (← repeated step turns)

theorem bind_apply (first : Traced Call Result) (continued : Result → Traced Call Next)
    (tokens : List Token) (before : List Call) :
    (first >>= continued) tokens before = match first tokens before with
      | none => none
      | some (.error fault, calls) => some (.error fault, calls)
      | some (.ok (result, rest), calls) => continued result rest calls := by
  show ((first tokens before).bind _) = _
  rcases first tokens before with _ | ⟨_ | ⟨result, rest⟩, calls⟩ <;> rfl

/-- On these tokens `traced` comes to what `parser` comes to, with no calls but permitted ones. -/
def Mirrors (permitted : Call → Prop) (parser : Parser Result) (traced : Traced Call Result)
    (tokens : List Token) : Prop :=
  ∃ calls, (∀ call ∈ calls, permitted call) ∧
    ∀ before, traced tokens before = some (parser tokens, before ++ calls)

section Mirroring

variable {permitted : Call → Prop} {tokens : List Token}

theorem mirrors_of (parser : Parser Result) : Mirrors permitted parser (of parser) tokens :=
  ⟨[], by simp, fun before => by rw [of, List.append_nil]⟩

theorem mirrors_pure (result : Result) : Mirrors permitted (pure result) (pure result) tokens :=
  mirrors_of (pure result)

theorem mirrors_bind {parser : Parser Result} {traced : Traced Call Result}
    {continued : Result → Parser Next} {after : Result → Traced Call Next}
    (first : Mirrors permitted parser traced tokens)
    (others : ∀ result rest, parser tokens = .ok (result, rest) →
      Mirrors permitted (continued result) (after result) rest) :
    Mirrors permitted (parser >>= continued) (traced >>= after) tokens := by
  obtain ⟨calls, allowed, same⟩ := first
  cases found : parser tokens with
  | error fault =>
      refine ⟨calls, allowed, fun before => ?_⟩
      rw [bind_apply, Parser.bind_apply, same, found]
  | ok pair =>
      obtain ⟨result, rest⟩ := pair
      obtain ⟨later, laterAllowed, laterSame⟩ := others result rest found
      refine ⟨calls ++ later, List.forall_mem_append.mpr ⟨allowed, laterAllowed⟩, fun before => ?_⟩
      rw [bind_apply, Parser.bind_apply, same, found, ← List.append_assoc]
      exact laterSame _

theorem mirrors_ite {condition : Prop} [Decidable condition] {first second : Parser Result}
    {tracedFirst tracedSecond : Traced Call Result}
    (holds : condition → Mirrors permitted first tracedFirst tokens)
    (fails : ¬condition → Mirrors permitted second tracedSecond tokens) :
    Mirrors permitted (if condition then first else second)
      (if condition then tracedFirst else tracedSecond) tokens := by
  split
  · exact holds ‹_›
  · exact fails ‹_›

theorem mirrors_write {call : Call} {parser : Parser Result} {traced : Unit → Traced Call Result}
    (allowed : permitted call) (mirrors : Mirrors permitted parser (traced ()) tokens) :
    Mirrors permitted parser (write call >>= traced) tokens := by
  obtain ⟨calls, others, same⟩ := mirrors
  refine ⟨call :: calls, List.forall_mem_cons.mpr ⟨allowed, others⟩, fun before => ?_⟩
  have later := same (before ++ [call])
  rw [List.append_assoc] at later
  exact later

/-- A repetition in which every step that goes on takes a token. -/
theorem mirrors_repeated {step : Parser (Option Result)} {traced : Traced Call (Option Result)}
    {bound turns : Nat}
    (each : ∀ tokens, tokens.length < bound → Mirrors permitted step traced tokens)
    (shortens : Shortens step)
    (inside : tokens.length < bound) (enough : tokens.length < turns) :
    Mirrors permitted (many step) (repeated traced turns) tokens := by
  induction turns generalizing tokens with
  | zero => omega
  | succ turns induction =>
      rw [many_eq shortens]
      refine mirrors_bind (each tokens inside) fun next rest found => ?_
      cases next with
      | none => exact mirrors_pure _
      | some result =>
          have less := shortens tokens result rest found
          refine mirrors_bind (induction (by omega) (by omega)) fun results left _ => mirrors_pure _

end Mirroring

/-- `refused` comes to what `traced` comes to with the same shallow calls, or refuses. -/
def Refuses (shallow : Call → Prop) (reason : String) (traced refused : Traced Call Result) : Prop :=
  ∀ tokens before, refused tokens before = none ∨
    (∃ offset calls, refused tokens before = some (.error (.malformed offset reason), calls)) ∨
    ∃ outcome calls, refused tokens before = some (outcome, before ++ calls) ∧
      traced tokens before = some (outcome, before ++ calls) ∧ ∀ call ∈ calls, shallow call

section Refusing

variable {shallow : Call → Prop} {reason : String}

theorem refuses_of (parser : Parser Result) : Refuses shallow reason (of parser) (of parser) :=
  fun tokens before => .inr (.inr ⟨parser tokens, [], by simp [of], by simp [of], by simp⟩)

theorem refuses_out_of_turns (traced : Traced Call Result) :
    Refuses shallow reason traced outOfTurns := fun _ _ => .inl rfl

theorem refuses_write {call : Call} (fits : shallow call) :
    Refuses shallow reason (write call) (write call) :=
  fun tokens before => .inr (.inr ⟨.ok ((), tokens), [call], rfl, rfl, by simpa using fits⟩)

theorem refuses_bind {traced refused : Traced Call Result}
    {continued after : Result → Traced Call Next} (first : Refuses shallow reason traced refused)
    (others : ∀ result, Refuses shallow reason (continued result) (after result)) :
    Refuses shallow reason (traced >>= continued) (refused >>= after) := by
  intro tokens before
  rcases first tokens before with ends | ⟨offset, calls, fails⟩ | ⟨outcome, calls, same, along, fits⟩
  · exact .inl (by rw [bind_apply, ends])
  · exact .inr (.inl ⟨offset, calls, by rw [bind_apply, fails]⟩)
  · rw [bind_apply, bind_apply, same, along]
    cases outcome with
    | error fault => exact .inr (.inr ⟨.error fault, calls, rfl, rfl, fits⟩)
    | ok pair =>
        obtain ⟨result, rest⟩ := pair
        rcases others result rest (before ++ calls) with
          ends | fails | ⟨outcome, later, same, along, others⟩
        · exact .inl ends
        · exact .inr (.inl fails)
        · rw [List.append_assoc] at same along
          exact .inr (.inr ⟨outcome, calls ++ later, same, along,
            List.forall_mem_append.mpr ⟨fits, others⟩⟩)

theorem refuses_ite {condition : Prop} [Decidable condition]
    {first second refusedFirst refusedSecond : Traced Call Result}
    (holds : Refuses shallow reason first refusedFirst)
    (fails : Refuses shallow reason second refusedSecond) :
    Refuses shallow reason (if condition then first else second)
      (if condition then refusedFirst else refusedSecond) := by
  split
  · exact holds
  · exact fails

theorem refuses_repeated {traced refused : Traced Call (Option Result)}
    (each : Refuses shallow reason traced refused) (turns : Nat) :
    Refuses shallow reason (repeated traced turns) (repeated refused turns) := by
  induction turns with
  | zero => exact refuses_out_of_turns _
  | succ turns induction =>
      refine refuses_bind each fun found => ?_
      cases found with
      | none => exact refuses_of _
      | some result => exact refuses_bind induction fun _ => refuses_of _

end Refusing

end Traced

end DetectionRules.Parser

namespace DetectionRules.Expression

open DetectionRules.Parser (Traced Takes)
open DetectionRules.Parser.Traced (outOfTurns of write repeated Mirrors mirrors_of mirrors_pure
  mirrors_bind mirrors_ite mirrors_write mirrors_repeated Refuses refuses_of refuses_out_of_turns
  refuses_write refuses_bind refuses_ite refuses_repeated)

/-- What an expression is read by, and under how many parentheses and negations. -/
inductive Call where
  | operand (depth : Nat)
  | atom (depth : Nat)

namespace Call

def depth : Call → Nat
  | operand depth => depth
  | atom depth => depth

/-- A call within a limit on the depth, or the one operand below that is refused. -/
def Within (limit : Nat) : Call → Prop
  | operand depth => depth ≤ limit + 1
  | atom depth => depth ≤ limit

end Call

section Twin

variable {Term Event : Type} (connectives : Connectives) (stop : List Token → Bool)

def conjunctionWithin (turns : Nat) (operand : Traced Event (Logic Term)) :
    Traced Event (Logic Term) := do
  let first ← operand
  let others ← repeated (do
    if ← of (Parser.takeIf connectives.nextIsConjunction) then return some (← operand)
    else if ← of (Parser.sees (connectives.nextIsAdjacent stop)) then return some (← operand)
    else return none) turns
  return Logic.conj (first :: others)

def disjunctionWithin (turns : Nat) (operand : Traced Event (Logic Term)) :
    Traced Event (Logic Term) := do
  let first ← conjunctionWithin connectives stop turns operand
  let others ← repeated (do
    if ← of (Parser.takeIf connectives.nextIsDisjunction) then
      return some (← conjunctionWithin connectives stop turns operand)
    else return none) turns
  return Logic.disj (first :: others)

/-- An operand under so many parentheses and negations, with turns for what is inside of it. -/
def operandWithin (limit : Nat) (record : Call → Event) (atom : Traced Event (Logic Term)) :
    Nat → Nat → Traced Event (Logic Term)
  | 0, _ => outOfTurns
  | turns + 1, depth => do
      write (record (.operand depth))
      if limit < depth then of (Parser.fail "expression nested too deeply")
      else if ← of (Parser.sees fun tokens => tokens.isEmpty || stop tokens) then
        of (Parser.expected "an expression")
      else if ← of (Parser.takeIf connectives.nextIsNegation) then
        return Logic.negate (← operandWithin limit record atom turns (depth + 1))
      else if ← of (Parser.takeSign "(") then
        let inner ← disjunctionWithin connectives stop turns
          (operandWithin limit record atom turns (depth + 1))
        of (Parser.sign ")")
        return inner
      else do
        write (record (.atom depth))
        atom

/-- An expression whose operands may be nested up to a limit. -/
def parseWithin (limit turns : Nat) (record : Call → Event)
    (atom : Traced Event (Logic Term)) : Traced Event (Logic Term) :=
  disjunctionWithin connectives stop turns
    (operandWithin connectives stop limit record atom turns 0)

end Twin

section Mirroring

variable {Term Event : Type} {connectives : Connectives} {stop : List Token → Bool}
  {permitted : Event → Prop} {turns : Nat} {tokens : List Token}

section Operands

variable {operand : Parser (Logic Term)} {traced : Traced Event (Logic Term)}

theorem mirrors_conjunction
    (each : ∀ tokens, tokens.length < turns → Mirrors permitted operand traced tokens)
    (takes : Takes 1 operand) (enough : tokens.length < turns) :
    Mirrors permitted (conjunction connectives stop operand)
      (conjunctionWithin connectives stop turns traced) tokens := by
  have step : ∀ tokens, tokens.length < turns →
      Mirrors permitted (nextConjunct? connectives stop operand) (do
        if ← of (Parser.takeIf connectives.nextIsConjunction) then return some (← traced)
        else if ← of (Parser.sees (connectives.nextIsAdjacent stop)) then return some (← traced)
        else return none) tokens := by
    intro tokens enough
    refine mirrors_bind (mirrors_of _) fun isTaken rest found => ?_
    have fewer := (Parser.takes_take_if _ tokens isTaken rest found).2
    refine mirrors_ite (fun _ => ?_) fun _ => ?_
    · exact mirrors_bind (each rest (by omega)) fun _ _ _ => mirrors_pure _
    · refine mirrors_bind (mirrors_of _) fun adjacent left same => ?_
      cases same
      refine mirrors_ite (fun _ => ?_) fun _ => mirrors_pure _
      exact mirrors_bind (each rest (by omega)) fun _ _ _ => mirrors_pure _
  rw [conjunction_eq]
  refine mirrors_bind (each tokens enough) fun first rest found => ?_
  have fewer := (takes tokens first rest found).2
  refine mirrors_bind ?_ fun others left _ => mirrors_pure _
  exact mirrors_repeated step (shortens_next_conjunct takes) (by omega) (by omega)

theorem mirrors_disjunction
    (each : ∀ tokens, tokens.length < turns → Mirrors permitted operand traced tokens)
    (takes : Takes 1 operand) (enough : tokens.length < turns) :
    Mirrors permitted (disjunction connectives stop operand)
      (disjunctionWithin connectives stop turns traced) tokens := by
  have part : ∀ tokens, tokens.length < turns →
      Mirrors permitted (conjunction connectives stop operand)
        (conjunctionWithin connectives stop turns traced) tokens :=
    fun tokens enough => mirrors_conjunction each takes enough
  have step : ∀ tokens, tokens.length < turns → Mirrors permitted
      (do if ← Parser.takeIf connectives.nextIsDisjunction then
            return some (← conjunction connectives stop operand)
          else return none)
      (do if ← of (Parser.takeIf connectives.nextIsDisjunction) then
            return some (← conjunctionWithin connectives stop turns traced)
          else return none) tokens := by
    intro tokens enough
    refine mirrors_bind (mirrors_of _) fun isTaken rest found => ?_
    have fewer := (Parser.takes_take_if _ tokens isTaken rest found).2
    refine mirrors_ite (fun _ => ?_) fun _ => mirrors_pure _
    exact mirrors_bind (part rest (by omega)) fun _ _ _ => mirrors_pure _
  have shortens : Parser.Shortens (do
      if ← Parser.takeIf connectives.nextIsDisjunction then
        return some (← conjunction connectives stop operand)
      else return none) :=
    Parser.shortens_bind (Parser.takes_take_if _) fun _ =>
      Parser.shortens_ite (Parser.shortens_some (takes_conjunction takes)) Parser.shortens_none
  rw [disjunction, Parser.sepBy, bind_assoc]
  refine mirrors_bind (part tokens enough) fun first rest found => ?_
  have fewer := (takes_conjunction takes tokens first rest found).2
  rw [bind_assoc]
  refine mirrors_bind ?_ fun others left _ => mirrors_pure _
  exact mirrors_repeated step shortens (by omega) (by omega)

end Operands

theorem mirrors_operand {limit : Nat} {record : Call → Event} {atom : Parser (Logic Term)}
    {traced : Traced Event (Logic Term)} {bound : Nat} (depth : Nat)
    (atoms : ∀ tokens, tokens.length < bound → Mirrors permitted atom traced tokens)
    (takes : Takes 1 atom) (allowed : ∀ call : Call, call.Within limit → permitted (record call))
    (shallow : depth ≤ limit + 1) (inside : turns ≤ bound) (enough : tokens.length < turns) :
    Mirrors permitted (operand connectives stop atom (limit + 1 - depth))
      (operandWithin connectives stop limit record traced turns depth) tokens := by
  -- By induction on the turns: what is inside of an operand has a token less and a turn less.
  induction turns generalizing depth tokens with
  | zero => omega
  | succ turns induction =>
      rw [operandWithin]
      refine mirrors_write (allowed _ shallow) ?_
      by_cases deep : limit < depth
      · have none : limit + 1 - depth = 0 := by omega
        rw [if_pos deep, none]
        exact mirrors_of _
      have next : limit + 1 - depth = (limit + 1 - (depth + 1)) + 1 := by omega
      rw [if_neg deep, next, operand]
      refine mirrors_bind (mirrors_of _) fun stops rest same => ?_
      cases same
      refine mirrors_ite (fun _ => mirrors_of _) fun _ => ?_
      refine mirrors_bind (mirrors_of _) fun negates rest taken => ?_
      have fewer := (Parser.takes_take_if _ tokens negates rest taken).2
      refine mirrors_ite (fun yes => ?_) fun _ => ?_
      · rw [yes] at taken
        have less := Parser.length_of_take_if taken
        exact mirrors_bind (induction _ (by omega) (by omega) (by omega)) fun _ _ _ => mirrors_pure _
      refine mirrors_bind (mirrors_of _) fun opens left taken => ?_
      have fewer := (Parser.takes_take_if _ rest opens left taken).2
      refine mirrors_ite (fun yes => ?_) fun _ => ?_
      · rw [yes] at taken
        have less := Parser.length_of_take_if taken
        refine mirrors_bind ?_ fun inner closing _ =>
          mirrors_bind (mirrors_of _) fun _ _ _ => mirrors_pure _
        refine mirrors_disjunction ?_ (takes_operand takes _) (by omega)
        exact fun tokens enough => induction _ (by omega) (by omega) enough
      · exact mirrors_write (allowed _ (Nat.le_of_not_lt deep)) (atoms left (by omega))

theorem mirrors_parse {limit : Nat} {record : Call → Event} {atom : Parser (Logic Term)}
    {traced : Traced Event (Logic Term)}
    (atoms : ∀ tokens, tokens.length < turns → Mirrors permitted atom traced tokens)
    (takes : Takes 1 atom) (allowed : ∀ call : Call, call.Within limit → permitted (record call))
    (enough : tokens.length < turns) :
    Mirrors permitted (disjunction connectives stop (operand connectives stop atom (limit + 1)))
      (parseWithin connectives stop limit turns record traced) tokens := by
  refine mirrors_disjunction (fun tokens enough => ?_) (takes_operand takes _) enough
  exact mirrors_operand 0 atoms takes allowed (Nat.zero_le _) (Nat.le_refl _) enough

end Mirroring

section Refusing

variable {Term Event : Type} {connectives : Connectives} {stop : List Token → Bool}
  {shallow : Event → Prop} {reason : String} {traced refused : Traced Event (Logic Term)}

theorem refuses_conjunction (each : Refuses shallow reason traced refused) (turns : Nat) :
    Refuses shallow reason (conjunctionWithin connectives stop turns traced)
      (conjunctionWithin connectives stop turns refused) := by
  have found := refuses_bind each fun result => refuses_of (pure (some result))
  refine refuses_bind each fun first =>
    refuses_bind (refuses_repeated ?_ turns) fun others => refuses_of _
  refine refuses_bind (refuses_of _) fun _ => refuses_ite found ?_
  exact refuses_bind (refuses_of _) fun _ => refuses_ite found (refuses_of _)

theorem refuses_disjunction (each : Refuses shallow reason traced refused) (turns : Nat) :
    Refuses shallow reason (disjunctionWithin connectives stop turns traced)
      (disjunctionWithin connectives stop turns refused) := by
  have part := @refuses_conjunction _ _ connectives stop _ _ _ _ each turns
  refine refuses_bind part fun first =>
    refuses_bind (refuses_repeated ?_ turns) fun others => refuses_of _
  refine refuses_bind (refuses_of _) fun _ => refuses_ite ?_ (refuses_of _)
  exact refuses_bind part fun result => refuses_of (pure (some result))

theorem refuses_operand {less more : Nat} {record : Call → Event} (order : less ≤ more)
    (atoms : Refuses shallow "expression nested too deeply" traced traced)
    (fits : ∀ call : Call, call.depth ≤ less → shallow (record call)) (turns depth : Nat) :
    Refuses shallow "expression nested too deeply"
      (operandWithin connectives stop more record traced turns depth)
      (operandWithin connectives stop less record traced turns depth) := by
  induction turns generalizing depth with
  | zero => exact refuses_out_of_turns _
  | succ turns induction =>
      rw [operandWithin, operandWithin]
      by_cases deep : less < depth
      -- The call is written down first, and it is not shallow: only the refusal itself counts.
      · rw [if_pos deep]
        exact fun tokens before => .inr (.inl ⟨_, _, rfl⟩)
      have inside : ¬more < depth := by omega
      rw [if_neg deep, if_neg inside]
      refine refuses_bind (refuses_write (fits _ (Nat.le_of_not_lt deep))) fun _ => ?_
      refine refuses_bind (refuses_of _) fun _ => refuses_ite (refuses_of _) ?_
      refine refuses_bind (refuses_of _) fun _ => refuses_ite ?_ ?_
      · exact refuses_bind (induction _) fun _ => refuses_of _
      refine refuses_bind (refuses_of _) fun _ => refuses_ite ?_ ?_
      · exact refuses_bind (refuses_disjunction (induction _) turns) fun inner =>
          refuses_bind (refuses_of _) fun _ => refuses_of _
      · exact refuses_bind (refuses_write (fits _ (Nat.le_of_not_lt deep))) fun _ => atoms

end Refusing

section Terms

variable {Term : Type} {connectives : Connectives} {stop : List Token → Bool}
  {atom : Parser (Logic Term)} {tokens : List Token} {turns : Nat}

/-- Reading an expression comes to an end, whatever the limit on the depth, in as many turns as
there are tokens and one more. -/
theorem parse_ends (takes : Takes 1 atom) (enough : tokens.length < turns) (limit : Nat) :
    Mirrors (Call.Within limit) (disjunction connectives stop (operand connectives stop atom (limit + 1)))
      (parseWithin connectives stop limit turns id (of atom)) tokens :=
  mirrors_parse (fun _ _ => mirrors_of atom) takes (fun _ within => within) enough

/-- What is nested deeper than the limit, for a reader with a higher limit, is refused. -/
theorem parse_refuses_deep (takes : Takes 1 atom) (enough : tokens.length < turns) {limit : Nat}
    (higher : maxDepth ≤ limit) :
    ∃ outcome calls,
      parseWithin connectives stop limit turns id (of atom) tokens [] = some (outcome, calls) ∧
      ((∃ call ∈ calls, maxDepth < call.depth) → ∃ offset, parse connectives stop atom tokens =
        .error (.malformed offset "expression nested too deeply")) := by
  obtain ⟨calls, -, ends⟩ := @parse_ends _ connectives stop _ _ _ takes enough limit
  obtain ⟨_, -, same⟩ := @parse_ends _ connectives stop _ _ _ takes enough maxDepth
  refine ⟨_, calls, ends [], fun ⟨call, member, deep⟩ => ?_⟩
  have refuses : Refuses (fun call : Call => call.depth ≤ maxDepth) "expression nested too deeply"
      (parseWithin connectives stop limit turns id (of atom))
      (parseWithin connectives stop maxDepth turns id (of atom)) :=
    refuses_disjunction (refuses_operand higher (refuses_of atom) (fun _ fits => fits) turns 0) turns
  rcases refuses tokens [] with none | ⟨offset, _, refused⟩ | ⟨found, shallow, -, along, fits⟩
  · cases (same []).symm.trans none
  · exact ⟨offset, (Prod.mk.inj (Option.some.inj ((same []).symm.trans refused))).1⟩
  · have own := (Prod.mk.inj (Option.some.inj ((ends []).symm.trans along))).2
    rw [List.nil_append, List.nil_append] at own
    exact absurd (fits call (own ▸ member)) (Nat.not_le_of_lt deep)

end Terms

/-- So many parentheses and negations, one behind the other. -/
def Opens (connectives : Connectives) (stop : List Token → Bool) : Nat → List Token → Prop
  | 0, _ => True
  | depth + 1, tokens => stop tokens = false ∧
      (connectives.nextIsNegation tokens = true ∨ Parser.nextIsSign "(" tokens = true) ∧
      ∃ token rest, tokens = token :: rest ∧ Opens connectives stop depth rest

variable {Term : Type} {connectives : Connectives} {stop : List Token → Bool}
  {atom : Parser (Logic Term)}

theorem disjunction_error {operand : Parser (Logic Term)} {tokens : List Token} {fault : Fault}
    (fails : operand tokens = .error fault) :
    disjunction connectives stop operand tokens = .error fault := by
  simp [disjunction, Parser.sepBy, conjunction, fails]

theorem operand_refuses_opened {levels : Nat} {tokens : List Token}
    (opens : Opens connectives stop levels tokens) :
    ∃ offset, operand connectives stop atom levels tokens =
      .error (.malformed offset "expression nested too deeply") := by
  -- By induction on the levels, each of which takes up one opening token.
  induction levels generalizing tokens with
  | zero => exact ⟨_, rfl⟩
  | succ levels induction =>
      obtain ⟨noStop, opening, token, rest, rfl, inside⟩ := opens
      obtain ⟨offset, fails⟩ := induction inside
      refine ⟨offset, ?_⟩
      by_cases negation : connectives.nextIsNegation (token :: rest) = true
      · simp [operand, noStop, negation, fails]
      · have parenthesis := opening.resolve_left negation
        have inner := @disjunction_error _ connectives stop _ _ _ fails
        simp [operand, noStop, negation, Parser.takeSign, parenthesis, inner]

theorem parse_refuses_opened {tokens : List Token}
    (opens : Opens connectives stop (maxDepth + 1) tokens) :
    ∃ offset, parse connectives stop atom tokens =
      .error (.malformed offset "expression nested too deeply") := by
  obtain ⟨offset, fails⟩ := @operand_refuses_opened _ _ _ atom _ _ opens
  exact ⟨offset, disjunction_error fails⟩

end DetectionRules.Expression
