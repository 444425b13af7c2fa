import DetectionRules.Dialect.Sigma
import DetectionRules.Proofs.Event
import DetectionRules.Proofs.Grammar

/-!
Conditions as they are written: names and quantifiers under `not`, which binds
tighter than `and`, which binds tighter than `or`. A row of lexemes spells at
most one condition, and the condition that is read from it means the same.
-/

namespace DetectionRules

namespace Sigma

open DetectionRules.Parser (bind_apply pure_apply sees_apply get_apply set_apply)

inductive Formula where
  | name (word : String)
  /-- One of the entries whose names match. -/
  | some (pattern : String)
  /-- Each of the entries whose names match. -/
  | every (pattern : String)
  | not (item : Formula)
  | and (first second : Formula)
  | or (first second : Formula)

/-- Whether a quantifier ranges over the entry of a name. -/
def Picks (pattern name : String) : Prop :=
  if pattern = "them" then '_' ∉ name.toList.head?
  else Piece.Cover (Glob.pieces '*' pattern.toList) name.toList

/-- Entries with what they mean, by their names. -/
abbrev Meanings := List (String × Prop)

namespace Formula

def Holds (entries : Meanings) : Formula → Prop
  | name word => ∃ meaning, entries.lookup word = .some meaning ∧ meaning
  | some pattern => ∃ entry ∈ entries, Picks pattern entry.1 ∧ entry.2
  | every pattern => ∀ entry ∈ entries, Picks pattern entry.1 → entry.2
  | not item => ¬item.Holds entries
  | and first second => first.Holds entries ∧ second.Holds entries
  | or first second => first.Holds entries ∨ second.Holds entries

end Formula

/-- The lexeme is a word, whatever the case of its letters. -/
def IsWord (word : String) : Lexeme → Prop
  | .word found => Text.sameLetters found word = true
  | _ => False

def IsQuantifier (all : Bool) (word : String) : Prop :=
  if all then Text.lower word = "all" else Text.lower word = "1" ∨ Text.lower word = "any"

/-- How tightly the parts of a condition are bound. -/
inductive Level where
  | operand
  | conjunction
  | disjunction

inductive Spelled : Level → List Lexeme → Formula → Prop
  | name {word : String} (other : Text.sameLetters word "not" = false) :
      Spelled .operand [.word word] (.name word)
  | quantified {all : Bool} {word pattern : String} {between : Lexeme}
      (quantifier : IsQuantifier all word) (joins : IsWord "of" between) :
      Spelled .operand [.word word, between, .word pattern]
        (if all then .every pattern else .some pattern)
  | negation {lexeme : Lexeme} {lexemes : List Lexeme} {item : Formula}
      (negates : IsWord "not" lexeme) (spelled : Spelled .operand lexemes item) :
      Spelled .operand (lexeme :: lexemes) (.not item)
  | group {lexemes : List Lexeme} {item : Formula} (spelled : Spelled .disjunction lexemes item) :
      Spelled .operand (.symbol "(" :: lexemes ++ [.symbol ")"]) item
  | conjunct {lexemes : List Lexeme} {item : Formula} (spelled : Spelled .operand lexemes item) :
      Spelled .conjunction lexemes item
  | conjunction {front back : List Lexeme} {lexeme : Lexeme} {first second : Formula}
      (spelled : Spelled .operand front first) (joins : IsWord "and" lexeme)
      (others : Spelled .conjunction back second) :
      Spelled .conjunction (front ++ lexeme :: back) (.and first second)
  | disjunct {lexemes : List Lexeme} {item : Formula} (spelled : Spelled .conjunction lexemes item) :
      Spelled .disjunction lexemes item
  | disjunction {front back : List Lexeme} {lexeme : Lexeme} {first second : Formula}
      (spelled : Spelled .conjunction front first) (joins : IsWord "or" lexeme)
      (others : Spelled .disjunction back second) :
      Spelled .disjunction (front ++ lexeme :: back) (.or first second)

theorem is_word_unique {first second : String} {lexeme : Lexeme} (isFirst : IsWord first lexeme)
    (isSecond : IsWord second lexeme) :
    first.toList.map Char.toLower = second.toList.map Char.toLower := by
  cases lexeme with
  | word found =>
      have one : found.toList.map Char.toLower = first.toList.map Char.toLower := by
        simpa [IsWord, Text.sameLetters] using isFirst
      have two : found.toList.map Char.toLower = second.toList.map Char.toLower := by
        simpa [IsWord, Text.sameLetters] using isSecond
      exact one.symm.trans two
  | _ => cases isFirst

/-- The words that go on with a part of a condition. -/
def Level.continues : Level → List String
  | .operand => ["of"]
  | .conjunction => ["of", "and"]
  | .disjunction => ["of", "and", "or"]

/-- What may stand behind a part of a condition. -/
def Level.Ends (level : Level) (lexemes : List Lexeme) : Prop :=
  ∀ word ∈ level.continues, ∀ lexeme ∈ lexemes.head?, ¬IsWord word lexeme

theorem Level.ends_word {level : Level} {word : String} {lexeme : Lexeme} {rest : List Lexeme}
    (isWord : IsWord word lexeme) (other : ∀ known ∈ level.continues,
      word.toList.map Char.toLower ≠ known.toList.map Char.toLower) :
    level.Ends (lexeme :: rest) := by
  rintro known member _ ⟨⟩ isKnown
  exact other known member (is_word_unique isWord isKnown)

theorem Level.ends_symbol (level : Level) (sign : String) (rest : List Lexeme) :
    level.Ends (.symbol sign :: rest) := by
  rintro word _ _ ⟨⟩ isWord
  exact isWord

theorem Level.Ends.mono {first second : Level} {lexemes : List Lexeme} (ends : second.Ends lexemes)
    (part : first.continues ⊆ second.continues) : first.Ends lexemes :=
  fun word member => ends word (part member)

theorem IsQuantifier.letters {all : Bool} {word : String} (quantifier : IsQuantifier all word) :
    word.toList.map Char.toLower ∈ ["all".toList, "1".toList, "any".toList] ∧
      (word.toList.map Char.toLower = "all".toList ↔ all = true) := by
  have lower : (Text.lower word).toList = word.toList.map Char.toLower := String.toList_ofList
  cases all with
  | true =>
      have same : Text.lower word = "all" := quantifier
      simp [← lower, same]
  | false =>
      rcases (quantifier : Text.lower word = "1" ∨ Text.lower word = "any") with same | same <;>
        rw [← lower, same] <;> decide

theorem IsQuantifier.not_negation {all : Bool} {word : String} (quantifier : IsQuantifier all word) :
    ¬IsWord "not" (.word word) := by
  intro negates
  have letters : word.toList.map Char.toLower = "not".toList.map Char.toLower := by
    simpa [IsWord, Text.sameLetters] using negates
  have known := quantifier.letters.1
  rw [letters] at known
  exact absurd known (by decide)

theorem IsQuantifier.unique {first second : Bool} {word : String} (isFirst : IsQuantifier first word)
    (isSecond : IsQuantifier second word) : first = second :=
  Bool.eq_iff_iff.mpr (isFirst.letters.2.symm.trans isSecond.letters.2)

/-- Whatever else of the level the same lexemes begin with is the same, if both end where the level
may end. -/
def IsUnique (level : Level) (lexemes : List Lexeme) (formula : Formula) : Prop :=
  ∀ (others rest left : List Lexeme) (other : Formula), Spelled level others other →
    lexemes ++ rest = others ++ left → level.Ends rest → level.Ends left →
      lexemes = others ∧ formula = other

/-- A level is made of parts of another level with a word between them, which goes on with no such
part. -/
structure Chained (word : String) (inner outer : Level) (join : Formula → Formula → Formula) :
    Prop where
  parts : ∀ {lexemes item}, Spelled outer lexemes item →
    Spelled inner lexemes item ∨ ∃ front lexeme back first second,
      lexemes = front ++ lexeme :: back ∧ item = join first second ∧ Spelled inner front first ∧
        IsWord word lexeme ∧ Spelled outer back second
  goesOn : word ∈ outer.continues
  wider : inner.continues ⊆ outer.continues
  apart : ∀ known ∈ inner.continues, word.toList.map Char.toLower ≠ known.toList.map Char.toLower

theorem chained_conjunction : Chained "and" .operand .conjunction .and where
  parts spelled := by
    cases spelled with
    | conjunct part => exact .inl part
    | conjunction part joins others => exact .inr ⟨_, _, _, _, _, rfl, rfl, part, joins, others⟩
  goesOn := by decide
  wider := by decide
  apart := by decide

theorem chained_disjunction : Chained "or" .conjunction .disjunction .or where
  parts spelled := by
    cases spelled with
    | disjunct part => exact .inl part
    | disjunction part joins others => exact .inr ⟨_, _, _, _, _, rfl, rfl, part, joins, others⟩
  goesOn := by decide
  wider := by decide
  apart := by decide

section Chained

variable {word : String} {inner outer : Level} {join : Formula → Formula → Formula}
  {front back lexemes : List Lexeme} {lexeme : Lexeme} {item first second : Formula}

theorem Chained.unique_alone (chained : Chained word inner outer join)
    (unique : IsUnique inner lexemes item) : IsUnique outer lexemes item := by
  intro others rest left other also same ends alsoEnds
  have innerEnds := ends.mono chained.wider
  rcases chained.parts also with part | ⟨_, lexeme, back, _, _, rfl, rfl, part, joins, _⟩
  · exact unique _ _ _ _ part same innerEnds (alsoEnds.mono chained.wider)
  · rw [List.append_assoc] at same
    obtain ⟨rfl, rfl⟩ := unique _ _ _ _ part same innerEnds (Level.ends_word joins chained.apart)
    -- The word that joins the other parts stands where the lexemes were to end.
    obtain rfl := List.append_cancel_left same
    exact absurd joins (ends word chained.goesOn _ rfl)

theorem Chained.unique_joined (chained : Chained word inner outer join) (joins : IsWord word lexeme)
    (part : IsUnique inner front first) (others : IsUnique outer back second) :
    IsUnique outer (front ++ lexeme :: back) (join first second) := by
  intro whole rest left other also same ends alsoEnds
  rw [List.append_assoc] at same
  have partEnds : inner.Ends (lexeme :: back ++ rest) := Level.ends_word joins chained.apart
  rcases chained.parts also with alone | ⟨_, _, _, _, _, rfl, rfl, begun, alsoJoins, later⟩
  · obtain ⟨rfl, rfl⟩ := part _ _ _ _ alone same partEnds (alsoEnds.mono chained.wider)
    obtain rfl := List.append_cancel_left same
    exact absurd joins (alsoEnds word chained.goesOn _ rfl)
  · rw [List.append_assoc] at same
    obtain ⟨rfl, rfl⟩ := part _ _ _ _ begun same partEnds (Level.ends_word alsoJoins chained.apart)
    obtain ⟨rfl, tails⟩ := List.cons.inj (List.append_cancel_left same)
    obtain ⟨rfl, rfl⟩ := others _ _ _ _ later tails ends alsoEnds
    exact ⟨rfl, rfl⟩

end Chained

section Operands

variable {word pattern : String} {between negation : Lexeme} {lexemes : List Lexeme}
  {item : Formula}

theorem unique_name (plain : Text.sameLetters word "not" = false) :
    IsUnique .operand [.word word] (.name word) := by
  intro others rest left other also same ends alsoEnds
  cases also with
  | name =>
      cases same
      exact ⟨rfl, rfl⟩
  | quantified _ joins =>
      cases same
      exact absurd joins (ends "of" (by decide) _ rfl)
  | negation negates =>
      cases same
      exact absurd negates (by simp [IsWord, plain])
  | group => cases same

theorem unique_quantified {all : Bool} (quantifier : IsQuantifier all word)
    (joins : IsWord "of" between) :
    IsUnique .operand [.word word, between, .word pattern]
      (if all then .every pattern else .some pattern) := by
  intro others rest left other also same ends alsoEnds
  cases also with
  | name =>
      cases same
      exact absurd joins (alsoEnds "of" (by decide) _ rfl)
  | quantified otherQuantifier =>
      cases same
      exact ⟨rfl, by rw [quantifier.unique otherQuantifier]⟩
  | negation negates =>
      obtain ⟨rfl, _⟩ := List.cons.inj same
      exact absurd negates quantifier.not_negation
  | group => cases same

theorem unique_negation (negates : IsWord "not" negation)
    (unique : IsUnique .operand lexemes item) :
    IsUnique .operand (negation :: lexemes) (.not item) := by
  intro others rest left other also same ends alsoEnds
  cases also with
  | name plain =>
      cases same
      exact absurd negates (by simp [IsWord, plain])
  | quantified quantifier =>
      obtain ⟨rfl, _⟩ := List.cons.inj same
      exact absurd negates quantifier.not_negation
  | negation _ part =>
      obtain ⟨rfl, inside⟩ := List.cons.inj same
      obtain ⟨rfl, rfl⟩ := unique _ _ _ _ part inside ends alsoEnds
      exact ⟨rfl, rfl⟩
  | group =>
      obtain ⟨rfl, _⟩ := List.cons.inj same
      cases negates

theorem unique_group (unique : IsUnique .disjunction lexemes item) :
    IsUnique .operand (.symbol "(" :: lexemes ++ [.symbol ")"]) item := by
  intro others rest left other also same _ _
  cases also with
  | name => cases same
  | quantified => cases same
  | negation negates =>
      obtain ⟨rfl, _⟩ := List.cons.inj same
      cases negates
  | group part =>
      simp only [List.cons_append, List.append_assoc, List.cons.injEq, true_and] at same
      obtain ⟨rfl, rfl⟩ := unique _ _ _ _ part same (Level.ends_symbol _ _ _)
        (Level.ends_symbol _ _ _)
      exact ⟨rfl, rfl⟩

end Operands

theorem Spelled.is_unique {level : Level} {lexemes : List Lexeme} {formula : Formula}
    (spelled : Spelled level lexemes formula) : IsUnique level lexemes formula := by
  -- After an operand only a connective goes on, so whatever else is spelled ends where it ends.
  induction spelled with
  | name plain => exact unique_name plain
  | quantified quantifier joins => exact unique_quantified quantifier joins
  | negation negates _ unique => exact unique_negation negates unique
  | group _ unique => exact unique_group unique
  | conjunct _ unique => exact chained_conjunction.unique_alone unique
  | conjunction _ joins _ part others => exact chained_conjunction.unique_joined joins part others
  | disjunct _ unique => exact chained_disjunction.unique_alone unique
  | disjunction _ joins _ part others => exact chained_disjunction.unique_joined joins part others

theorem Spelled.unique {level : Level} {lexemes : List Lexeme} {first second : Formula}
    (spelled : Spelled level lexemes first) (also : Spelled level lexemes second) :
    first = second := by
  have whole : lexemes ++ [] = lexemes ++ [] := rfl
  exact (spelled.is_unique _ _ _ _ also whole nofun nofun).2

theorem mem_tails {name rest : List Char} :
    rest ∈ tails name ↔ ∃ front, name = front ++ rest ∧ '\n' ∉ front := by
  induction name with
  | nil => simp [tails, eq_comm]
  | cons c name induction =>
      rw [tails, List.mem_cons]
      constructor
      · rintro (rfl | later)
        · exact ⟨[], rfl, by simp⟩
        · split at later
          · cases later
          · rename_i line
            obtain ⟨front, rfl, clean⟩ := induction.mp later
            exact ⟨c :: front, rfl, by simp [clean, Ne.symm line]⟩
      · rintro ⟨front, whole, clean⟩
        cases front with
        | nil => exact .inl whole.symm
        | cons first front =>
            obtain ⟨rfl, rfl⟩ := List.cons.inj whole
            simp only [List.mem_cons, not_or] at clean
            rw [if_neg (Ne.symm clean.1)]
            exact .inr (induction.mpr ⟨front, rfl, clean.2⟩)

theorem glob_matches_iff (glob name : List Char) :
    globMatches glob name = true ↔ Piece.Cover (Glob.pieces '*' glob) name := by
  induction glob generalizing name with
  | nil => simp [globMatches, Glob.pieces, Piece.Cover]
  | cons c glob induction =>
      have first : Glob.pieces '*' (c :: glob) =
          (if c = '*' then .run else .literal c) :: Glob.pieces '*' glob := rfl
      rw [globMatches.eq_def, first]
      dsimp only
      split
      · simp only [List.any_eq_true, mem_tails, induction, Piece.Cover]
        constructor
        · rintro ⟨rest, ⟨front, whole, clean⟩, covered⟩
          exact ⟨front, rest, whole, clean, covered⟩
        · rintro ⟨front, rest, whole, clean, covered⟩
          exact ⟨rest, ⟨front, whole, clean⟩, covered⟩
      · cases name with
        | nil => simp [Piece.Cover]
        | cons first rest =>
            simp only [Bool.and_eq_true, beq_iff_eq, induction, Piece.Cover]
            constructor
            · rintro ⟨rfl, covered⟩
              exact ⟨rest, rfl, covered⟩
            · rintro ⟨_, same, covered⟩
              obtain ⟨rfl, rfl⟩ := List.cons.inj same
              exact ⟨rfl, covered⟩

theorem picks_iff (pattern name : String) :
    (if pattern == "them" then !Text.startsWith name "_"
      else globMatches pattern.toList name.toList) = true ↔ Picks pattern name := by
  rw [Picks]
  by_cases them : pattern = "them"
  · have underscore : "_".toList = ['_'] := rfl
    rw [if_pos (beq_iff_eq.mpr them), if_pos them, Text.startsWith, underscore]
    cases name.toList with
    | nil => simp
    | cons c rest =>
        simp only [List.isPrefixOf, Bool.and_true, Bool.not_eq_true', beq_eq_false_iff_ne,
          List.head?_cons, Option.mem_some_iff]
        exact ne_comm
  · rw [if_neg (by simpa using them), if_neg them, glob_matches_iff]

variable {names : List (String × Logic String)} {tokens rest : List Token} {result : Logic String}

/-- What the names of conditions mean where selections hold or fail. -/
def meanings (names : List (String × Logic String)) (holds : String → Bool) : Meanings :=
  names.map fun entry => (entry.1, entry.2.eval holds = true)

/-- A condition over selections means what a formula over the names means. -/
def Follows (names : List (String × Logic String)) (formula : Formula) (result : Logic String) :
    Prop :=
  ∀ holds, result.eval holds = true ↔ formula.Holds (meanings names holds)

theorem lookup_meanings (names : List (String × Logic String)) (holds : String → Bool)
    (word : String) : (meanings names holds).lookup word =
      (names.lookup word).map fun condition => condition.eval holds = true := by
  induction names with
  | nil => rfl
  | cons entry rest induction =>
      rw [meanings, List.map_cons, List.lookup_cons, List.lookup_cons]
      cases word == entry.1
      · exact induction
      · rfl

/-- The tokens in front are spelled by a formula, which the result follows. -/
def IsRead (names : List (String × Logic String)) (level : Level) (tokens rest : List Token)
    (result : Logic String) : Prop :=
  ∃ taken formula, tokens = taken ++ rest ∧ Spelled level (taken.map (·.lexeme)) formula ∧
    Follows names formula result

theorem is_word_of_keyword {word : String} {token : Token}
    (next : Parser.nextIsKeyword word (token :: rest) = true) : IsWord word token.lexeme := by
  obtain ⟨lexeme, offset⟩ := token
  cases lexeme with
  | word found => exact next
  | _ => cases next

/-- The names that a pattern picks, with their conditions. -/
def picked (names : List (String × Logic String)) (pattern : String) :
    List (String × Logic String) :=
  names.filter fun (name, _) =>
    if pattern == "them" then !Text.startsWith name "_"
    else globMatches pattern.toList name.toList

theorem mem_picked {pattern : String} {entry : String × Logic String} :
    entry ∈ picked names pattern ↔ entry ∈ names ∧ Picks pattern entry.1 := by
  rw [picked, List.mem_filter]
  exact and_congr_right fun _ => picks_iff pattern entry.1

theorem quantified_eq (names : List (String × Logic String)) (all : Bool) :
    quantified names all = do
      let (pattern, offset) ← Parser.wordAt "a selection pattern or 'them'"
      if (picked names pattern).isEmpty then
        Parser.failAt offset ("'" ++ pattern ++ "' matches no selection")
      return (if all then Logic.conj else Logic.disj) ((picked names pattern).map (·.2)) := rfl

theorem follows_picked (names : List (String × Logic String)) (pattern : String) (all : Bool) :
    Follows names (if all then .every pattern else .some pattern)
      ((if all then Logic.conj else Logic.disj) ((picked names pattern).map (·.2))) := by
  intro holds
  cases all with
  | true =>
      rw [if_pos rfl, if_pos rfl, Logic.eval_conj, List.all_map, List.all_eq_true]
      simp only [mem_picked, Formula.Holds, meanings, List.forall_mem_map, and_imp]
      rfl
  | false =>
      rw [if_neg (by decide), if_neg (by decide), Logic.eval_disj, List.any_map, List.any_eq_true]
      simp only [mem_picked, Formula.Holds, meanings, List.mem_map, exists_exists_and_eq_and,
        and_assoc]
      rfl

theorem of_quantified {all : Bool} {word : String} {between : Token} {offset : Nat}
    (quantifier : IsQuantifier all word) (joins : IsWord "of" between.lexeme)
    (accepted : quantified names all tokens = .ok (result, rest)) :
    IsRead names .operand (⟨.word word, offset⟩ :: between :: tokens) rest result := by
  rw [quantified_eq] at accepted
  obtain ⟨⟨pattern, place⟩, left, found, meant⟩ := Parser.of_bind accepted
  obtain ⟨position, rfl⟩ := Parser.of_word_at found
  dsimp only at meant
  split at meant
  · obtain ⟨_, _, refused, _⟩ := Parser.of_bind meant
    cases refused
  · cases meant
    exact ⟨[_, between, _], _, rfl, .quantified quantifier joins, follows_picked names pattern all⟩

theorem of_reference (accepted : reference names tokens = .ok (result, rest))
    (plain : connectives.nextIsNegation tokens = false) :
    IsRead names .operand tokens rest result := by
  obtain ⟨⟨word, place⟩, left, found, named⟩ := Parser.of_bind accepted
  obtain ⟨offset, rfl⟩ := Parser.of_word_at found
  obtain ⟨isQuantified, middle, taken, meant⟩ := Parser.of_bind named
  rcases Parser.of_take_if taken with ⟨rfl, passes, between, rfl⟩ | ⟨rfl, _, rfl⟩
  · obtain ⟨quantifies, joins⟩ := Bool.and_eq_true_iff.mp passes
    have isOf : IsWord "of" between.lexeme := is_word_of_keyword joins
    have quantifier : IsQuantifier (Text.lower word == "all") word := by
      rw [IsQuantifier]
      simp only [List.contains_iff_mem, List.mem_cons, List.not_mem_nil, or_false] at quantifies
      split
      · rename_i all
        exact beq_iff_eq.mp all
      · rename_i other
        rcases quantifies with one | any | all
        · exact .inl one
        · exact .inr any
        · exact absurd (beq_iff_eq.mpr all) other
    exact of_quantified quantifier isOf meant
  · rw [if_neg Bool.false_ne_true] at meant
    have other : Text.sameLetters word "not" = false := by
      simpa [Expression.Connectives.nextIsNegation, connectives, Expression.Connectives.nextIs]
        using plain
    cases known : names.lookup word with
    | none =>
        rw [known] at meant
        cases meant
    | some condition =>
        rw [known] at meant
        cases meant
        refine ⟨[_], _, rfl, .name other, fun holds => ?_⟩
        rw [Formula.Holds, lookup_meanings, known]
        simp only [Option.map_some, Option.some.injEq, exists_eq_left']

/-- No sign stands for a negation. -/
def HasNoSign (tokens : List Token) : Prop := ∀ token ∈ tokens, token.lexeme ≠ .symbol "not"

/-- What the parser takes is spelled by a formula, which its result follows. -/
def Reads (names : List (String × Logic String)) (level : Level) (parser : Parser (Logic String)) :
    Prop :=
  ∀ tokens rest result, HasNoSign tokens → parser tokens = .ok (result, rest) →
    IsRead names level tokens rest result

/-- A step of a repetition takes a word and a part after it, or it takes nothing. -/
structure Repeats (names : List (String × Logic String)) (word : String) (level : Level)
    (next : Parser (Option (Logic String))) : Prop where
  goesOn : ∀ tokens rest result, HasNoSign tokens → next tokens = .ok (some result, rest) →
    ∃ token others, tokens = token :: others ∧ IsWord word token.lexeme ∧
      IsRead names level others rest result
  ends : ∀ tokens rest, next tokens = .ok (none, rest) → rest = tokens

/-- How parts of one level with a word between them make up the next level. -/
structure Joins (names : List (String × Logic String)) (word : String) (inner outer : Level)
    (join : List (Logic String) → Logic String) (formula : Formula → Formula → Formula) :
    Prop where
  single : ∀ {lexemes item}, Spelled inner lexemes item → Spelled outer lexemes item
  several : ∀ {front back lexeme first second}, Spelled inner front first → IsWord word lexeme →
    Spelled outer back second → Spelled outer (front ++ lexeme :: back) (formula first second)
  alone : ∀ {item result}, Follows names item result → Follows names item (join [result])
  together : ∀ {first second result others}, Follows names first result →
    Follows names second (join others) →
    Follows names (formula first second) (join (result :: others))

theorem joins_conjunction : Joins names "and" .operand .conjunction Logic.conj .and where
  single := .conjunct
  several := .conjunction
  alone follows holds := by simpa using follows holds
  together first second holds := by
    have others := second holds
    rw [Logic.eval_conj] at others
    rw [Logic.eval_conj, List.all_cons, Bool.and_eq_true, first holds, others, Formula.Holds]

theorem joins_disjunction : Joins names "or" .conjunction .disjunction Logic.disj .or where
  single := .disjunct
  several := .disjunction
  alone follows holds := by simpa using follows holds
  together first second holds := by
    have others := second holds
    rw [Logic.eval_disj] at others
    rw [Logic.eval_disj, List.any_cons, Bool.or_eq_true, first holds, others, Formula.Holds]

section Chains

variable {word : String} {inner outer : Level} {join : List (Logic String) → Logic String}
  {formula : Formula → Formula → Formula} {next : Parser (Option (Logic String))}

theorem Joins.of_many (joins : Joins names word inner outer join formula)
    (repeats : Repeats names word inner next) {results : List (Logic String)}
    (plain : HasNoSign tokens) (accepted : Parser.many next tokens = .ok (results, rest))
    {front : List Lexeme} {first : Formula} (spelled : Spelled inner front first)
    (follows : Follows names first result) :
    ∃ taken item, tokens = taken ++ rest ∧ Spelled outer (front ++ taken.map (·.lexeme)) item ∧
      Follows names item (join (result :: results)) := by
  -- By induction on the turns of the repetition, each part in front of those after it.
  rw [Parser.many_eq_ok_iff] at accepted
  induction accepted generalizing front first result with
  | ended found =>
      obtain rfl := repeats.ends _ _ found
      exact ⟨[], first, rfl, by simpa using joins.single spelled, joins.alone follows⟩
  | halted found longer =>
      obtain ⟨token, others, rfl, _, taken, _, rfl, _⟩ := repeats.goesOn _ _ _ plain found
      simp at longer
  | @turned _ _ _ middle _ found _ _ induction =>
      obtain ⟨token, others, rfl, isWord, taken, item, rfl, inside, means⟩ :=
        repeats.goesOn _ _ _ plain found
      have clean : HasNoSign middle := fun other member => plain other (by simp [member])
      obtain ⟨behind, final, rfl, outside, whole⟩ := induction clean inside means
      refine ⟨token :: (taken ++ behind), _, by simp, ?_, joins.together follows whole⟩
      simpa using joins.several spelled isWord outside

theorem Joins.reads (joins : Joins names word inner outer join formula)
    (repeats : Repeats names word inner next) {part : Parser (Logic String)}
    (reads : Reads names inner part) :
    Reads names outer (do
      let first ← part
      let others ← Parser.many next
      return join (first :: others)) := by
  intro tokens rest result plain accepted
  obtain ⟨first, middle, found, after⟩ := Parser.of_bind accepted
  obtain ⟨others, ending, more, done⟩ := Parser.of_bind after
  cases done
  obtain ⟨taken, item, rfl, spelled, follows⟩ := reads _ _ _ plain found
  have clean : HasNoSign middle := fun token member => plain token (by simp [member])
  obtain ⟨behind, final, rfl, whole, means⟩ := joins.of_many repeats clean more spelled follows
  exact ⟨taken ++ behind, final, by simp, by simpa using whole, means⟩

theorem repeats_of_take {part : Parser (Logic String)} {test : List Token → Bool}
    {stop : Parser (Option (Logic String))}
    (isWord : ∀ token rest, test (token :: rest) = true → IsWord word token.lexeme)
    (stops : ∀ tokens, stop tokens = .ok (none, tokens)) (reads : Reads names inner part) :
    Repeats names word inner (do
      if ← Parser.takeIf test then return some (← part) else stop) := by
  constructor
  · intro tokens rest result plain accepted
    obtain ⟨isTaken, middle, taken, after⟩ := Parser.of_bind accepted
    rcases Parser.of_take_if taken with ⟨rfl, passes, token, rfl⟩ | ⟨rfl, _, rfl⟩
    · rw [if_pos rfl] at after
      obtain ⟨_, _, found, done⟩ := Parser.of_bind after
      cases done
      have clean : HasNoSign middle := fun other member => plain other (by simp [member])
      exact ⟨token, middle, rfl, isWord token middle passes, reads _ _ _ clean found⟩
    · rw [if_neg Bool.false_ne_true, stops] at after
      cases after
  · intro tokens rest accepted
    obtain ⟨isTaken, middle, taken, after⟩ := Parser.of_bind accepted
    rcases Parser.of_take_if taken with ⟨rfl, _⟩ | ⟨rfl, _, rfl⟩
    · rw [if_pos rfl] at after
      obtain ⟨_, _, _, done⟩ := Parser.of_bind after
      cases done
    · rw [if_neg Bool.false_ne_true, stops] at after
      cases after
      rfl

end Chains

theorem reads_conjunction {stop : List Token → Bool} {part : Parser (Logic String)}
    (reads : Reads names .operand part) :
    Reads names .conjunction (Expression.conjunction connectives stop part) := by
  rw [Expression.conjunction_eq]
  refine joins_conjunction.reads (repeats_of_take (fun _ _ => is_word_of_keyword) ?_ reads) reads
  intro tokens
  rfl

theorem disjunction_eq (stop : List Token → Bool) (part : Parser (Logic String)) :
    Expression.disjunction connectives stop part = do
      let first ← Expression.conjunction connectives stop part
      let others ← Parser.many do
        if ← Parser.takeIf connectives.nextIsDisjunction then
          return some (← Expression.conjunction connectives stop part)
        else return none
      return Logic.disj (first :: others) := by
  simp only [Expression.disjunction, Parser.sepBy, bind_assoc, pure_bind]

theorem reads_disjunction {stop : List Token → Bool} {part : Parser (Logic String)}
    (reads : Reads names .operand part) :
    Reads names .disjunction (Expression.disjunction connectives stop part) := by
  have parts := @reads_conjunction _ stop _ reads
  rw [disjunction_eq]
  exact joins_disjunction.reads
    (repeats_of_take (fun _ _ => is_word_of_keyword) (fun _ => rfl) parts) parts

theorem is_word_of_negation {token : Token} (plain : token.lexeme ≠ .symbol "not")
    (next : connectives.nextIsNegation (token :: rest) = true) : IsWord "not" token.lexeme := by
  obtain ⟨lexeme, offset⟩ := token
  cases lexeme with
  | word found =>
      have same : Text.sameLetters found "not" = true := by
        simpa [Expression.Connectives.nextIsNegation, connectives, Expression.Connectives.nextIs]
          using next
      exact same
  | symbol sign =>
      have same : sign = "not" := by
        simpa [Expression.Connectives.nextIsNegation, connectives, Expression.Connectives.nextIs]
          using next
      exact absurd (congrArg Lexeme.symbol same) plain
  | _ => cases next

theorem follows_negate {item : Formula} (follows : Follows names item result) :
    Follows names (.not item) (Logic.negate result) := by
  intro holds
  rw [Logic.eval_negate, Formula.Holds, ← follows holds]
  simp

theorem reads_operand (names : List (String × Logic String)) (stop : List Token → Bool)
    (levels : Nat) :
    Reads names .operand (Expression.operand connectives stop (reference names) levels) := by
  -- By induction on the levels: a negation and parentheses each take one of them.
  induction levels with
  | zero => exact fun _ _ _ _ => nofun
  | succ levels induction =>
      intro tokens rest result plain accepted
      rw [Expression.operand] at accepted
      obtain ⟨isOver, _, ⟨⟩, begun⟩ := Parser.of_bind accepted
      split at begun
      · cases begun
      · obtain ⟨isNegated, middle, taken, negated⟩ := Parser.of_bind begun
        rcases Parser.of_take_if taken with ⟨rfl, passes, token, rfl⟩ | ⟨rfl, other, rfl⟩
        · rw [if_pos rfl] at negated
          obtain ⟨own, others⟩ := List.forall_mem_cons.mp plain
          obtain ⟨inner, left, found, done⟩ := Parser.of_bind negated
          cases done
          obtain ⟨behind, item, rfl, spelled, follows⟩ := induction _ _ _ others found
          exact ⟨token :: behind, _, rfl, .negation (is_word_of_negation own passes) spelled,
            follows_negate follows⟩
        · rw [if_neg Bool.false_ne_true] at negated
          obtain ⟨isGroup, inside, opened, grouped⟩ := Parser.of_bind negated
          rcases Parser.of_take_if opened with ⟨rfl, passes, token, rfl⟩ | ⟨rfl, _, rfl⟩
          · rw [if_pos rfl] at grouped
            obtain ⟨inner, left, found, closing⟩ := Parser.of_bind grouped
            obtain ⟨_, ending, closed, done⟩ := Parser.of_bind closing
            cases done
            obtain ⟨first, _, same⟩ := Parser.of_next_is_sign passes
            obtain ⟨rfl, rfl⟩ := List.cons.inj same
            have clean : HasNoSign inside := fun other member => plain other (by simp [member])
            obtain ⟨behind, item, rfl, spelled, follows⟩ :=
              reads_disjunction induction _ _ _ clean found
            obtain ⟨last, rfl⟩ := Parser.of_sign closed
            exact ⟨⟨.symbol "(", first⟩ :: behind ++ [⟨.symbol ")", last⟩], item, by simp,
              by simpa using Spelled.group spelled, follows⟩
          · rw [if_neg Bool.false_ne_true] at grouped
            refine of_reference grouped (other ?_)
            rintro rfl
            cases grouped

theorem Spelled.symbols {level : Level} {lexemes : List Lexeme} {formula : Formula}
    (spelled : Spelled level lexemes formula) {sign : String} (member : .symbol sign ∈ lexemes) :
    sign = "(" ∨ sign = ")" := by
  have other {word : String} {lexeme : Lexeme} (isWord : IsWord word lexeme) :
      .symbol sign ≠ lexeme := by
    rintro rfl
    exact isWord
  induction spelled with
  | name => simp at member
  | quantified _ joins => simp [other joins] at member
  | negation negates _ induction => exact induction (by simpa [other negates] using member)
  | group _ induction =>
      simp only [List.mem_append, List.mem_cons, Lexeme.symbol.injEq, List.not_mem_nil,
        or_false] at member
      rcases member with (opening | inside) | closing
      · exact .inl opening
      · exact induction inside
      · exact .inr closing
  | conjunct _ induction | disjunct _ induction => exact induction member
  | conjunction _ joins _ first second | disjunction _ joins _ first second =>
      simp only [List.mem_append, List.mem_cons, other joins, false_or] at member
      exact member.elim first second

/-- The text spells the formula, in front of an aggregation if it has one. -/
def Writes (text : String) (formula : Formula) : Prop :=
  ∃ tokens, Token.list {} text = .ok tokens ∧
    Spelled .disjunction ((tokens.map (·.lexeme)).takeWhile (· ≠ .symbol "|")) formula

theorem Writes.unique {text : String} {first second : Formula} (writes : Writes text first)
    (also : Writes text second) : first = second := by
  obtain ⟨tokens, listed, spelled⟩ := writes
  obtain ⟨others, relisted, again⟩ := also
  cases listed.symm.trans relisted
  exact spelled.unique again

theorem has_no_sign_of_list {text : String} (listed : Token.list {} text = .ok tokens) :
    HasNoSign tokens := by
  refine @Token.of_list {} (· ≠ .symbol "not") _ _ (fun c rest lexeme size scanned => ?_) listed
  rintro rfl
  rcases Token.of_scan scanned with ⟨_, ⟨⟩⟩ | ⟨_, _, _, ⟨⟩, _⟩ | ⟨sign, known, same⟩ | ⟨_, ⟨⟩⟩
  cases same
  revert known
  decide

theorem of_end {Result : Type} {result final : Result} {left : List Token}
    (accepted : (do
      if !(← Parser.atEnd) then Parser.expected "end of condition"
      return result : Parser Result) tokens = .ok (final, left)) : tokens = [] ∧ result = final := by
  obtain ⟨isOver, _, ⟨⟩, done⟩ := Parser.of_bind accepted
  cases tokens with
  | nil =>
      cases done
      exact ⟨rfl, rfl⟩
  | cons => cases done

theorem of_parsed_condition {detection : Detection} {condition : Logic String}
    {counted : Option Aggregation} {left : List Token}
    (accepted : conditionParser detection tokens = .ok ((condition, counted), left)) :
    ∃ rest, Expression.parse connectives (Parser.nextIsSign "|") (reference detection.names) tokens =
      .ok (condition, rest) ∧ ∀ token ∈ rest.head?, token.lexeme = .symbol "|" := by
  obtain ⟨found, rest, parsed, behind⟩ := Parser.of_bind accepted
  obtain ⟨isCounted, middle, opened, ending⟩ := Parser.of_bind behind
  rcases Parser.of_take_if opened with ⟨rfl, passes, token, rfl⟩ | ⟨rfl, _, rfl⟩
  · obtain ⟨_, _, _, ending⟩ := Parser.of_bind ending
    obtain ⟨_, same⟩ := of_end ending
    cases same
    obtain ⟨offset, others, same⟩ := Parser.of_next_is_sign passes
    refine ⟨_, parsed, ?_⟩
    rintro _ ⟨⟩
    rw [(List.cons.inj same).1]
  · obtain ⟨rfl, same⟩ := of_end ending
    cases same
    exact ⟨[], parsed, nofun⟩

/-- The condition that is read follows the one that is written. -/
theorem of_read_condition {detection : Detection} {text : String} {condition : Logic String}
    {counted : Option Aggregation}
    (accepted : readCondition detection text = .ok (condition, counted)) :
    ∃ formula, Writes text formula ∧ Follows detection.names formula condition := by
  obtain ⟨tokens, listed, accepted⟩ := Success.of_bind accepted
  obtain ⟨⟨_, left⟩, parsed, done⟩ := Success.of_bind accepted
  cases done
  obtain ⟨rest, parsed, behind⟩ := of_parsed_condition parsed
  obtain ⟨taken, formula, rfl, spelled, follows⟩ :=
    reads_disjunction (reads_operand _ _ _) _ _ _ (has_no_sign_of_list listed) parsed
  have plain : ∀ lexeme ∈ taken.map (·.lexeme), decide (lexeme ≠ .symbol "|") = true := by
    rintro lexeme member
    rw [decide_eq_true_iff]
    rintro rfl
    rcases spelled.symbols member with same | same <;> exact absurd same (by decide)
  have stops : ∀ lexeme ∈ (rest.map (·.lexeme)).head?, decide (lexeme ≠ .symbol "|") = false := by
    cases rest with
    | nil => simp
    | cons token others => simp [behind token rfl]
  refine ⟨formula, ⟨_, listed, ?_⟩, follows⟩
  rw [List.map_append, Text.take_while_front plain stops]
  exact spelled

end Sigma

end DetectionRules
