import DetectionRules.Expression.Grammar
import DetectionRules.Proofs.Wording

/-!
Reading a written expression gives the expression back, with the tree of a term
in the place of the term. What a dialect has to show is gathered in `Operands`:
how its terms, parentheses and negations are read, and that its connectives are
told apart from what may begin a term.
-/

namespace DetectionRules.Expression

open DetectionRules.Parser (Reads Along reads_bind reads_pure)
open Token (behind joined)

variable {Term Target : Type} {connectives : Connectives} {stop : List Token → Bool}

/-- Lexemes before which a conjunction ends. -/
structure EndsConjunction (connectives : Connectives) (stop : List Token → Bool)
    (next : List Lexeme) : Prop where
  conjunction : ∀ tokens, tokens.map (·.lexeme) = next →
    connectives.nextIsConjunction tokens = false
  adjacent : ∀ tokens, tokens.map (·.lexeme) = next →
    connectives.nextIsAdjacent stop tokens = false

/-- Lexemes before which a disjunction ends. -/
structure EndsDisjunction (connectives : Connectives) (stop : List Token → Bool)
    (next : List Lexeme) : Prop extends EndsConjunction connectives stop next where
  disjunction : ∀ tokens, tokens.map (·.lexeme) = next →
    connectives.nextIsDisjunction tokens = false

section Ends

variable {next : List Lexeme}

theorem ends_with_text : EndsDisjunction connectives stop [] where
  conjunction := by
    intro tokens same
    obtain rfl : tokens = [] := by simpa using same
    rw [Connectives.nextIsConjunction, Connectives.nextIs]
    split <;> rfl
  adjacent := by
    intro tokens same
    obtain rfl : tokens = [] := by simpa using same
    simp [Connectives.nextIsAdjacent]
  disjunction := by
    intro tokens same
    obtain rfl : tokens = [] := by simpa using same
    rw [Connectives.nextIsDisjunction, Connectives.nextIs]
    split <;> rfl

/-- Whether a conjunction ends shows in the first lexeme behind it. -/
theorem EndsConjunction.of_front (ends : ∀ lexeme ∈ next.head?, ∀ offset rest,
    connectives.nextIsConjunction (⟨lexeme, offset⟩ :: rest) = false ∧
      connectives.nextIsAdjacent stop (⟨lexeme, offset⟩ :: rest) = false) :
    EndsConjunction connectives stop next := by
  cases next with
  | nil => exact ends_with_text.toEndsConjunction
  | cons lexeme next =>
      constructor
      all_goals
        intro tokens same
        obtain ⟨offset, rest, rfl, _⟩ := Parser.cons_of_lexemes same
      · exact (ends lexeme rfl offset rest).1
      · exact (ends lexeme rfl offset rest).2

theorem EndsConjunction.disjunction (ends : EndsConjunction connectives stop next)
    (other : ∀ lexeme ∈ next.head?, ∀ offset rest,
      connectives.nextIsDisjunction (⟨lexeme, offset⟩ :: rest) = false) :
    EndsDisjunction connectives stop next := by
  refine ⟨ends, fun tokens same => ?_⟩
  cases tokens with
  | nil => exact (ends_with_text : EndsDisjunction connectives stop []).disjunction [] rfl
  | cons token rest => exact other token.lexeme (by simp [← same]) token.offset rest

theorem ends_conjunction_of_word (exactCase : connectives.exactCase = true)
    (alone : connectives.adjacency = false)
    (other : next.head? ≠ some (.word connectives.conjunction)) :
    EndsConjunction connectives stop next where
  conjunction := by
    intro tokens same
    rw [Connectives.nextIsConjunction, Connectives.nextIs, if_pos exactCase]
    exact Parser.next_is_word_of_head (by rwa [same])
  adjacent := fun _ _ => by simp [Connectives.nextIsAdjacent, alone]

theorem ends_disjunction_of_word (exactCase : connectives.exactCase = true)
    (alone : connectives.adjacency = false)
    (noAnd : next.head? ≠ some (.word connectives.conjunction))
    (noOr : next.head? ≠ some (.word connectives.disjunction)) :
    EndsDisjunction connectives stop next where
  toEndsConjunction := ends_conjunction_of_word exactCase alone noAnd
  disjunction := by
    intro tokens same
    rw [Connectives.nextIsDisjunction, Connectives.nextIs, if_pos exactCase]
    exact Parser.next_is_word_of_head (by rwa [same])

end Ends

def nextConjunct? (connectives : Connectives) (stop : List Token → Bool)
    (operand : Parser (Logic Target)) : Parser (Option (Logic Target)) := do
  if ← Parser.takeIf connectives.nextIsConjunction then return some (← operand)
  else if ← Parser.sees (connectives.nextIsAdjacent stop) then return some (← operand)
  else return none

theorem conjunction_eq (operand : Parser (Logic Target)) :
    conjunction connectives stop operand = do
      let first ← operand
      let others ← Parser.many (nextConjunct? connectives stop operand)
      return Logic.conj (first :: others) := rfl

theorem next_conjunct_ends {operand : Parser (Logic Target)} {next : List Lexeme}
    (ends : EndsConjunction connectives stop next) :
    Reads (nextConjunct? connectives stop operand) [] none next := by
  intro tokens rest same follows
  obtain rfl : tokens = [] := by simpa using same
  have noWord := Parser.take_if_false (ends.conjunction rest follows)
  have noNeighbour := ends.adjacent rest follows
  simp [nextConjunct?, noWord, noNeighbour]

theorem reads_conjunction {Element : Type} {between next : List Lexeme}
    {lexemes : Element → List Lexeme} {result : Element → Logic Target}
    {operand : Parser (Logic Target)} {first : Element} {others : List Element}
    (filled : ∀ element ∈ others, between ++ lexemes element ≠ [])
    (readFirst : Reads operand (lexemes first) (result first)
      (behind between lexemes others ++ next))
    (readOthers : Along between lexemes (fun element following =>
      Reads (nextConjunct? connectives stop operand) (between ++ lexemes element)
        (some (result element)) following) others next)
    (ends : EndsConjunction connectives stop next) :
    Reads (conjunction connectives stop operand) (joined between lexemes (first :: others))
      (Logic.conj ((first :: others).map result)) next := by
  have loop := Parser.reads_many filled readOthers (next_conjunct_ends ends)
  rw [conjunction_eq]
  apply reads_bind readFirst
  exact Parser.reads_bind_last loop (reads_pure _ _)

/-- How parentheses and what is between the members of a disjunction are told apart from what may
begin or go on with a term. -/
structure Delimiters (connectives : Connectives) (stop : List Token → Bool)
    (between : List Lexeme) : Prop where
  filled : between ≠ []
  disjoins : ∀ next, Reads (Parser.takeIf connectives.nextIsDisjunction) between true next
  divides : ∀ next, EndsConjunction connectives stop (between ++ next)
  opening : ∀ offset rest, stop (⟨.symbol "(", offset⟩ :: rest) = false ∧
    connectives.nextIsNegation (⟨.symbol "(", offset⟩ :: rest) = false
  closing : ∀ next, EndsDisjunction connectives stop (.symbol ")" :: next)

theorem reads_disjunction {Element : Type} {between next : List Lexeme}
    {lexemes : Element → List Lexeme} {result : Element → Logic Target}
    {operand : Parser (Logic Target)} {first : Element} {others : List Element}
    (delimiters : Delimiters connectives stop between)
    (reads : Along between lexemes (fun element following =>
      EndsConjunction connectives stop following →
      Reads (conjunction connectives stop operand) (lexemes element) (result element) following)
      (first :: others) next)
    (ends : EndsDisjunction connectives stop next) :
    Reads (disjunction connectives stop operand) (joined between lexemes (first :: others))
      (Logic.disj ((first :: others).map result)) next := by
  have stops : Reads (Parser.takeIf connectives.nextIsDisjunction) [] false next := by
    intro tokens rest same follows
    obtain rfl : tokens = [] := by simpa using same
    exact Parser.take_if_false (ends.disjunction rest follows)
  have follows := @Parser.along_of_follows _ _ _ lexemes _ (first :: others)
    delimiters.divides ends.toEndsConjunction
  rw [disjunction]
  apply Parser.reads_bind_last
  · apply Parser.reads_sep_by delimiters.filled delimiters.disjoins stops
    apply Parser.along_mono (Parser.along_and reads follows)
    intro element _ following both
    exact both.1 both.2
  · exact reads_pure _ _

theorem reads_disjunct {between lexemes next : List Lexeme} {result : Logic Target}
    {operand : Parser (Logic Target)} (delimiters : Delimiters connectives stop between)
    (normal : result.Normal)
    (reads : Reads (conjunction connectives stop operand) lexemes result next)
    (ends : EndsDisjunction connectives stop next) :
    Reads (disjunction connectives stop operand) lexemes result next := by
  have alone : Reads (disjunction connectives stop operand) (joined between id [lexemes])
      (Logic.disj ([lexemes].map fun _ => result)) next := by
    apply reads_disjunction delimiters _ ends
    refine ⟨fun _ => ?_, trivial⟩
    simpa [behind] using reads
  simpa [joined, behind, Logic.disj_single normal] using alone

/-- What a dialect shows for its expressions to be read as they are written. `parses levels` are
its parsers of operands that may be nested in at least so many levels. -/
structure Operands (connectives : Connectives) (stop : List Token → Bool)
    (wording : Wording Term) (fits : Bool → Term → List Lexeme → Prop)
    (tree : Term → Logic Target) (parses : Nat → Parser (Logic Target) → Prop) : Prop where
  delimiters : Delimiters connectives stop wording.disjunction
  normal : ∀ {adjacent term next}, fits adjacent term next → (tree term).Normal
  term : ∀ {levels parser adjacent term next}, parses (levels + 1) parser →
    fits adjacent term next → Reads parser (wording.term term) (tree term) next
  parentheses : ∀ {levels parser lexemes result next}, parses (levels + 1) parser →
    (∀ inner, parses levels inner →
      Reads (disjunction connectives stop inner) lexemes result (.symbol ")" :: next)) →
    Reads parser (.symbol "(" :: lexemes ++ [.symbol ")"]) result next
  negation : ∀ {levels parser item next}, parses (levels + 1) parser → item.Flat →
    FitsIn wording fits wording.negated false item (closed wording.negationEncloses next) →
    (∀ inner, parses levels inner →
      if wording.negationEncloses then
        Reads (disjunction connectives stop inner) (wordingIn wording .none item)
          (item.bind tree) (.symbol ")" :: next)
      else Reads inner (wordingIn wording .negation item) (item.bind tree) next) →
    Reads parser (wording.negation (wordingIn wording wording.negated item))
      (Logic.negate (item.bind tree)) next
  conjoins : ∀ {inner : Parser (Logic Target)} {item result next}, item.isConjunction = false →
    FitsIn wording fits .conjunction wording.conjunction.isEmpty item next →
    Reads inner (wordingIn wording .conjunction item) result next →
    Reads (nextConjunct? connectives stop inner)
      (wording.conjunction ++ wordingIn wording .conjunction item) (some result) next
  filled : ∀ {item}, item.isConjunction = false →
    wording.conjunction ++ wordingIn wording .conjunction item ≠ []

variable {wording : Wording Term} {fits : Bool → Term → List Lexeme → Prop}
  {tree : Term → Logic Target} {parses : Nat → Parser (Logic Target) → Prop}

namespace Operands

theorem reads_conjuncts
    (operands : Operands connectives stop wording fits tree parses)
    {inner : Parser (Logic Target)} {first : Logic Term} {others : List (Logic Term)}
    {adjacent : Bool} {next : List Lexeme}
    (single : ∀ item ∈ first :: others, item.isConjunction = false)
    (reads : ∀ item ∈ first :: others, ∀ adjacent next,
      FitsIn wording fits .negation adjacent item next →
      Reads inner (wordingIn wording .negation item) (item.bind tree) next)
    (fit : FitsAll wording fits wording.conjunction .conjunction adjacent
      wording.conjunction.isEmpty (first :: others) next)
    (ends : EndsConjunction connectives stop next) :
    Reads (conjunction connectives stop inner)
      (joined wording.conjunction (wordingIn wording .conjunction) (first :: others))
      (Logic.conj ((first :: others).map (Logic.bind tree))) next := by
  have readsMember : ∀ item ∈ first :: others, ∀ adjacent following,
      FitsIn wording fits .conjunction adjacent item following →
      Reads inner (wordingIn wording .conjunction item) (item.bind tree) following := by
    intro item member adjacent following fit
    rw [wording_conjunct (single item member)]
    exact reads item member adjacent following ((fits_conjunct (single item member)).mp fit)
  obtain ⟨fitFirst, fitOthers⟩ := fit
  rw [fits_all] at fitOthers
  apply reads_conjunction
  · intro item member
    exact operands.filled (single item (List.mem_cons_of_mem first member))
  · apply readsMember first (by simp) adjacent
    simpa [behind, wording_all, List.flatMap_map] using fitFirst
  · apply Parser.along_mono fitOthers
    intro item member following fit
    have inside := List.mem_cons_of_mem first member
    exact operands.conjoins (single item inside) fit (readsMember item inside _ _ fit)
  · exact ends

theorem reads_disjuncts
    (operands : Operands connectives stop wording fits tree parses)
    {inner : Parser (Logic Target)} {first : Logic Term} {others : List (Logic Term)}
    {next : List Lexeme}
    (reads : ∀ item ∈ first :: others, ∀ next,
      FitsIn wording fits .disjunction false item next → EndsConjunction connectives stop next →
      Reads (conjunction connectives stop inner) (wordingIn wording .disjunction item)
        (item.bind tree) next)
    (fit : FitsAll wording fits wording.disjunction .disjunction false false
      (first :: others) next)
    (ends : EndsDisjunction connectives stop next) :
    Reads (disjunction connectives stop inner)
      (joined wording.disjunction (wordingIn wording .disjunction) (first :: others))
      (Logic.disj ((first :: others).map (Logic.bind tree))) next := by
  rw [fits_all] at fit
  apply reads_disjunction operands.delimiters _ ends
  apply Parser.along_mono fit
  intro item member following fit ends
  exact reads item member following fit ends

/-- What is known of operands that may be nested in so many levels. -/
def Reach (wording : Wording Term) (fits : Bool → Term → List Lexeme → Prop)
    (tree : Term → Logic Target) (levels : Nat) (inner : Parser (Logic Target)) : Prop :=
  ∀ item : Logic Term, item.Flat → item.depth ≤ levels → ∀ adjacent next,
    FitsIn wording fits .negation adjacent item next →
    Reads inner (wordingIn wording .negation item) (item.bind tree) next

theorem normal_bind (operands : Operands connectives stop wording fits tree parses)
    {expression : Logic Term} {surroundings : Binding} {adjacent : Bool} {next : List Lexeme}
    (flat : expression.Flat)
    (fit : FitsIn wording fits surroundings adjacent expression next) :
    (expression.bind tree).Normal := by
  apply Logic.Normal.bind flat.filled
  intro term member
  obtain ⟨adjacent, next, fit⟩ := fits_terms fit term member
  exact operands.normal fit

theorem reads_part (operands : Operands connectives stop wording fits tree parses)
    {levels : Nat} {inner : Parser (Logic Target)} (reach : Reach wording fits tree levels inner)
    {expression : Logic Term} {next : List Lexeme} (flat : expression.Flat)
    (part : expression.isDisjunction = false)
    (shallow : ∀ item ∈ expression.conjuncts, item.depth ≤ levels)
    (fit : FitsIn wording fits .disjunction false expression next)
    (ends : EndsConjunction connectives stop next) :
    Reads (conjunction connectives stop inner) (wordingIn wording .disjunction expression)
      (expression.bind tree) next := by
  have bound := operands.normal_bind flat fit
  by_cases group : expression.isConjunction = true
  · cases flat with
    | all some members single =>
        obtain ⟨first, others, rfl⟩ := List.exists_cons_of_ne_nil some
        rw [wordingIn, joined_wording_all, Logic.bind, Logic.bind_all]
        refine operands.reads_conjuncts single ?_ fit ends
        intro item member
        exact reach item (members item member) (shallow item member)
    | _ => cases group
  · have single : expression.isConjunction = false := by simpa using group
    have alone : Reads (conjunction connectives stop inner)
        (joined wording.conjunction (wordingIn wording .conjunction) [expression])
        (Logic.conj ([expression].map (Logic.bind tree))) next := by
      refine @reads_conjuncts _ _ _ _ _ _ _ _ operands _ _ _ false _ ?_ ?_ ?_ ?_
      · simpa using single
      · intro item member
        obtain rfl : item = expression := by simpa using member
        apply reach item flat
        exact shallow item (by simp [Logic.conjuncts_of_not_conjunction single])
      · refine ⟨?_, trivial⟩
        rw [fits_conjunct single, ← fits_disjunct single part]
        simpa [behind, wordingAll] using fit
      · exact ends
    rw [wording_disjunct single part, ← wording_conjunct single]
    simpa [joined, behind, Logic.conj_single bound] using alone

theorem reads_whole (operands : Operands connectives stop wording fits tree parses)
    {levels : Nat} {inner : Parser (Logic Target)} (reach : Reach wording fits tree levels inner)
    {expression : Logic Term} {next : List Lexeme} (flat : expression.Flat)
    (shallow : ∀ part ∈ expression.disjuncts, ∀ item ∈ part.conjuncts, item.depth ≤ levels)
    (fit : FitsIn wording fits .none false expression next)
    (ends : EndsDisjunction connectives stop next) :
    Reads (disjunction connectives stop inner) (wordingIn wording .none expression)
      (expression.bind tree) next := by
  have bound := operands.normal_bind flat fit
  by_cases group : expression.isDisjunction = true
  · cases flat with
    | any some members single =>
        obtain ⟨first, others, rfl⟩ := List.exists_cons_of_ne_nil some
        rw [wordingIn, joined_wording_all, Logic.bind, Logic.bind_all]
        refine operands.reads_disjuncts ?_ fit ends
        intro item member following
        exact operands.reads_part reach (members item member) (single item member)
          (shallow item member)
    | _ => cases group
  · have part : expression.isDisjunction = false := by simpa using group
    have alone : Reads (disjunction connectives stop inner)
        (joined wording.disjunction (wordingIn wording .disjunction) [expression])
        (Logic.disj ([expression].map (Logic.bind tree))) next := by
      apply operands.reads_disjuncts
      · intro item member following
        obtain rfl : item = expression := by simpa using member
        apply operands.reads_part reach flat part
        exact shallow item (by simp [Logic.disjuncts_of_not_disjunction part])
      · refine ⟨?_, trivial⟩
        rw [← fits_whole part]
        simpa [behind, wordingAll] using fit
      · exact ends
    rw [wording_whole part]
    simpa [joined, behind, Logic.disj_single bound] using alone

theorem shallow_of_group {expression : Logic Term} {levels : Nat}
    (group : expression.isConjunction = true ∨ expression.isDisjunction = true)
    (depth : expression.depth ≤ levels + 1) :
    ∀ part ∈ expression.disjuncts, ∀ item ∈ part.conjuncts, item.depth ≤ levels := by
  intro part partMember item itemMember
  cases expression with
  | term value => simp [Logic.isConjunction, Logic.isDisjunction] at group
  | not inner => simp [Logic.isConjunction, Logic.isDisjunction] at group
  | all items =>
      obtain rfl : part = .all items := by simpa [Logic.disjuncts] using partMember
      rw [Logic.depth] at depth
      exact Logic.depth_of_all_le.mp (Nat.le_of_succ_le_succ depth) item itemMember
  | any items =>
      rw [Logic.depth] at depth
      have inside := Logic.depth_of_all_le.mp (Nat.le_of_succ_le_succ depth) part partMember
      exact (Logic.depth_of_conjunct itemMember).trans inside

theorem reach (operands : Operands connectives stop wording fits tree parses) {levels : Nat}
    {inner : Parser (Logic Target)} (known : parses levels inner) :
    Reach wording fits tree levels inner := by
  -- By induction on the levels: each parenthesis and each negation takes one of them, and the
  -- depth of what is inside is smaller by one.
  induction levels generalizing inner with
  | zero =>
      intro item flat shallow
      have positive := Logic.depth_pos item
      omega
  | succ levels induction =>
      intro item flat shallow adjacent next fit
      -- A group of either kind stands between parentheses.
      have enclosed (group : item.isConjunction = true ∨ item.isDisjunction = true)
          (fit : FitsIn wording fits .none false item (.symbol ")" :: next)) :
          ∀ body, parses levels body → Reads (disjunction connectives stop body)
            (wordingIn wording .none item) (item.bind tree) (.symbol ")" :: next) :=
        fun body bodyKnown => operands.reads_whole (induction bodyKnown) flat
          (shallow_of_group group shallow) fit (operands.delimiters.closing next)
      cases item with
      | term value => exact operands.term known fit
      | all items =>
          exact operands.parentheses known
            (enclosed (.inl rfl) (by simpa [FitsIn, Binding.strength, closed] using fit))
      | any items =>
          exact operands.parentheses known
            (enclosed (.inr rfl) (by simpa [FitsIn, Binding.strength, closed] using fit))
      | not item =>
          rw [Logic.depth] at shallow
          have shallowItem := Nat.le_of_succ_le_succ shallow
          have itemFlat : item.Flat := by
            cases flat with
            | not inner => exact inner
          rw [FitsIn] at fit
          apply operands.negation known itemFlat fit
          intro body bodyKnown
          rw [Wording.negated] at fit
          by_cases encloses : wording.negationEncloses = true
          · rw [if_pos encloses] at fit ⊢
            apply operands.reads_whole (induction bodyKnown) itemFlat
            · intro part partMember other otherMember
              exact ((Logic.depth_of_conjunct otherMember).trans
                (Logic.depth_of_disjunct partMember)).trans shallowItem
            · simpa [closed, encloses] using fit
            · exact operands.delimiters.closing next
          · rw [if_neg encloses] at fit ⊢
            apply induction bodyKnown item itemFlat shallowItem false
            simpa [closed, encloses] using fit

/-- An expression that ends before `next` is read as it is written. -/
theorem reads_expression (operands : Operands connectives stop wording fits tree parses)
    {levels : Nat} {inner : Parser (Logic Target)} (known : parses levels inner)
    {expression : Logic Term} {next : List Lexeme} (flat : expression.Flat)
    (shallow : expression.depth ≤ levels) (fit : FitsIn wording fits .none false expression next)
    (ends : EndsDisjunction connectives stop next) :
    Reads (disjunction connectives stop inner) (wordingIn wording .none expression)
      (expression.bind tree) next := by
  apply operands.reads_whole (operands.reach known) flat
  · intro part partMember item itemMember
    exact ((Logic.depth_of_conjunct itemMember).trans
      (Logic.depth_of_disjunct partMember)).trans shallow
  · exact fit
  · exact ends

end Operands

variable {atom : Parser (Logic Target)} {levels : Nat} {next : List Lexeme}
  {result : Logic Target}

/-- A lexeme that may begin a term. -/
def BeginsTerm (connectives : Connectives) (stop : List Token → Bool) (lexeme : Lexeme) : Prop :=
  lexeme ≠ .symbol "(" ∧ ∀ offset rest, stop (⟨lexeme, offset⟩ :: rest) = false ∧
    connectives.nextIsNegation (⟨lexeme, offset⟩ :: rest) = false

/-- A lexeme that begins another member of a conjunction. -/
def BeginsConjunct (connectives : Connectives) (stop : List Token → Bool)
    (lexeme : Lexeme) : Prop :=
  ∀ offset rest, connectives.nextIsConjunction (⟨lexeme, offset⟩ :: rest) = false ∧
    connectives.nextIsAdjacent stop (⟨lexeme, offset⟩ :: rest) = true

theorem reads_term {lexemes : List Lexeme}
    (begins : ∃ head ∈ lexemes.head?, BeginsTerm connectives stop head)
    (reads : Reads atom lexemes result next) :
    Reads (operand connectives stop atom (levels + 1)) lexemes result next := by
  obtain ⟨head, start, begins⟩ := begins
  obtain ⟨tail, rfl⟩ := List.head?_eq_some_iff.mp start
  intro tokens rest same follows
  have read := reads tokens rest same follows
  obtain ⟨offset, others, rfl, _⟩ := Parser.cons_of_lexemes same
  obtain ⟨noStop, noNegation⟩ := begins.2 offset (others ++ rest)
  have noParenthesis : Parser.nextIsSign "(" (⟨head, offset⟩ :: (others ++ rest)) = false :=
    Parser.next_is_sign_of_head (by simpa using begins.1)
  rw [List.cons_append] at read ⊢
  simp [operand, noStop, noNegation, Parser.takeSign, noParenthesis, read]

theorem reads_parentheses {lexemes between : List Lexeme}
    (delimiters : Delimiters connectives stop between)
    (reads : Reads (disjunction connectives stop (operand connectives stop atom levels)) lexemes
      result (.symbol ")" :: next)) :
    Reads (operand connectives stop atom (levels + 1))
      (.symbol "(" :: lexemes ++ [.symbol ")"]) result next := by
  intro tokens rest same follows
  obtain ⟨offset, others, rfl, otherSame⟩ := Parser.cons_of_lexemes same
  obtain ⟨inside, closing, rfl, insideSame, closingSame⟩ := List.map_eq_append_iff.mp otherSame
  obtain ⟨closingOffset, empty, rfl, emptySame⟩ := Parser.cons_of_lexemes closingSame
  obtain rfl : empty = [] := by simpa using emptySame
  obtain ⟨noStop, noNegation⟩ := delimiters.opening offset (inside ++ ⟨.symbol ")", closingOffset⟩ :: rest)
  have read := reads inside (⟨.symbol ")", closingOffset⟩ :: rest) insideSame
    (by rw [List.map_cons, follows])
  simp [operand, noStop, noNegation, Parser.takeSign, read]

theorem reads_negation {word : String} {lexemes : List Lexeme}
    (negates : ∀ offset rest, stop (⟨.word word, offset⟩ :: rest) = false ∧
      connectives.nextIsNegation (⟨.word word, offset⟩ :: rest) = true)
    (reads : Reads (operand connectives stop atom levels) lexemes result next) :
    Reads (operand connectives stop atom (levels + 1)) (.word word :: lexemes)
      (Logic.negate result) next := by
  intro tokens rest same follows
  obtain ⟨offset, others, rfl, otherSame⟩ := Parser.cons_of_lexemes same
  obtain ⟨noStop, negation⟩ := negates offset (others ++ rest)
  have read := reads others rest otherSame follows
  simp [operand, noStop, negation, read]

theorem reads_neighbour {parser : Parser (Logic Target)} {head : Lexeme} {tail : List Lexeme}
    (begins : BeginsConjunct connectives stop head)
    (reads : Reads parser (head :: tail) result next) :
    Reads (nextConjunct? connectives stop parser) (head :: tail) (some result) next := by
  intro tokens rest same follows
  have read := reads tokens rest same follows
  obtain ⟨offset, others, rfl, _⟩ := Parser.cons_of_lexemes same
  obtain ⟨noWord, neighbour⟩ := begins offset (others ++ rest)
  rw [List.cons_append] at read ⊢
  simp [nextConjunct?, noWord, neighbour, read]

theorem reads_conjunct {parser : Parser (Logic Target)} {word : String} {lexemes : List Lexeme}
    (conjoins : ∀ offset rest, connectives.nextIsConjunction (⟨.word word, offset⟩ :: rest) = true)
    (reads : Reads parser lexemes result next) :
    Reads (nextConjunct? connectives stop parser) (.word word :: lexemes) (some result) next := by
  intro tokens rest same follows
  obtain ⟨offset, others, rfl, otherSame⟩ := Parser.cons_of_lexemes same
  have read := reads others rest otherSame follows
  simp [nextConjunct?, conjoins offset, read]

section Family

variable {wording : Wording Term} {fits : Bool → Term → List Lexeme → Prop}
  {tree : Term → Logic Target}

theorem wording_in_ne_nil (terms : ∀ term, wording.term term ≠ [])
    (negation : ∀ lexemes, wording.negation lexemes ≠ []) {item : Logic Term}
    (single : item.isConjunction = false) : wordingIn wording .conjunction item ≠ [] := by
  cases item with
  | term term => exact terms term
  | all items => cases single
  | any items => exact List.cons_ne_nil _ _
  | not item => exact negation _

/-- The parsers of operands that differ in nothing but how deep they may nest. A term takes some
levels of its own, and a negation is a word in front of what it negates. -/
theorem Operands.of_operand (own : Nat) (word : String)
    (delimiters : Delimiters connectives stop wording.disjunction)
    (normal : ∀ {adjacent term next}, fits adjacent term next → (tree term).Normal)
    (term : ∀ {levels adjacent term next}, fits adjacent term next →
      Reads (operand connectives stop atom (levels + own + 1)) (wording.term term) (tree term) next)
    (negation : wording.negationEncloses = false ∧
      ∀ lexemes, wording.negation lexemes = .word word :: lexemes)
    (negates : ∀ offset rest, stop (⟨.word word, offset⟩ :: rest) = false ∧
      connectives.nextIsNegation (⟨.word word, offset⟩ :: rest) = true)
    (conjoins : ∀ {inner : Parser (Logic Target)} {item result next}, item.isConjunction = false →
      FitsIn wording fits .conjunction wording.conjunction.isEmpty item next →
      Reads inner (wordingIn wording .conjunction item) result next →
      Reads (nextConjunct? connectives stop inner)
        (wording.conjunction ++ wordingIn wording .conjunction item) (some result) next)
    (filled : ∀ {item}, item.isConjunction = false →
      wording.conjunction ++ wordingIn wording .conjunction item ≠ []) :
    Operands connectives stop wording fits tree fun levels parser =>
      ∃ more, levels + own ≤ more ∧ parser = operand connectives stop atom more where
  delimiters := delimiters
  normal := normal
  term := by
    rintro levels parser adjacent part next ⟨more, deep, rfl⟩ fit
    obtain ⟨rest, rfl⟩ : ∃ rest, more = rest + own + 1 := ⟨more - own - 1, by omega⟩
    exact term fit
  parentheses := by
    rintro levels parser lexemes result next ⟨more, deep, rfl⟩ reads
    obtain ⟨rest, rfl⟩ : ∃ rest, more = rest + 1 := ⟨more - 1, by omega⟩
    apply reads_parentheses delimiters
    exact reads _ ⟨rest, by omega, rfl⟩
  negation := by
    rintro levels parser item next ⟨more, deep, rfl⟩ flat fit reads
    obtain ⟨rest, rfl⟩ : ∃ rest, more = rest + 1 := ⟨more - 1, by omega⟩
    obtain ⟨bare, written⟩ := negation
    simp only [bare, Bool.false_eq_true, if_false] at reads
    simp only [written, Wording.negated, bare, Bool.false_eq_true, if_false]
    exact reads_negation negates (reads _ ⟨rest, by omega, rfl⟩)
  conjoins := conjoins
  filled := filled

end Family

theorem reads_disjunction_word {word : String}
    (disjoins : ∀ offset rest,
      connectives.nextIsDisjunction (⟨.word word, offset⟩ :: rest) = true) :
    Reads (Parser.takeIf connectives.nextIsDisjunction) [.word word] true next := by
  intro tokens rest same _
  obtain ⟨offset, empty, rfl, emptySame⟩ := Parser.cons_of_lexemes same
  obtain rfl : empty = [] := by simpa using emptySame
  simp [disjoins offset]

/-- Alternatives one after the other, each of them read by the operand. -/
theorem reads_either {Element : Type} {between : List Lexeme}
    {lexemes : Element → List Lexeme} {tree : Element → Logic Target}
    {first : Element} {others : List Element}
    (delimiters : Delimiters connectives stop between)
    (normal : ∀ element, (tree element).Normal)
    (reads : Along between lexemes (fun element following =>
      Reads (operand connectives stop atom levels) (lexemes element) (tree element) following)
      (first :: others) next)
    (ends : EndsDisjunction connectives stop next) :
    Reads (disjunction connectives stop (operand connectives stop atom levels))
      (joined between lexemes (first :: others)) (Logic.disj ((first :: others).map tree)) next := by
  apply reads_disjunction delimiters _ ends
  apply Parser.along_mono reads
  intro element _ following read ends
  have alone : Reads (conjunction connectives stop (operand connectives stop atom levels))
      (joined [] lexemes [element]) (Logic.conj ([element].map tree)) following := by
    apply reads_conjunction
    · simp
    · simpa [behind] using read
    · trivial
    · exact ends
  simpa [joined, behind, Logic.conj_single (normal element)] using alone

theorem reads_alternatives {Element : Type} {between : List Lexeme}
    {lexemes : Element → List Lexeme} {tree : Element → Logic Target}
    {first : Element} {others : List Element}
    (delimiters : Delimiters connectives stop between)
    (normal : ∀ element, (tree element).Normal)
    (reads : Along between lexemes (fun element following =>
      Reads (operand connectives stop atom levels) (lexemes element) (tree element) following)
      (first :: others) (.symbol ")" :: next)) :
    Reads (operand connectives stop atom (levels + 1))
      (.symbol "(" :: joined between lexemes (first :: others) ++ [.symbol ")"])
      (Logic.disj ((first :: others).map tree)) next :=
  reads_parentheses delimiters (reads_either delimiters normal reads (delimiters.closing next))

end DetectionRules.Expression
