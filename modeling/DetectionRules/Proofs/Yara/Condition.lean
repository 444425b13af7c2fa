import DetectionRules.Dialect.Yara
import DetectionRules.Proofs.Dialect
import DetectionRules.Proofs.Named

/-!
Conditions of YARA rules. A condition over the names of the strings is read as
it is written; nothing that may follow a name makes the name say more than that
its string is there.
-/

namespace DetectionRules.Yara

open Expression (Delimiters Operands EndsConjunction EndsDisjunction FitsIn Wording operand
  wordingIn)
open DetectionRules.Parser (Reads)
open Token (Spells)

variable {quoting : Quoting}

def dollared (name : String) : String := "$" ++ name

def wording : Wording String where
  term := fun name => [.word (dollared name)]
  conjunction := [.word "and"]
  disjunction := [.word "or"]
  negation := fun inner => .word "not" :: inner

theorem spells_dollared {name : String} (known : Named.isIdentifier name = true) :
    Spells quoting (dollared name) [.word (dollared name)] := by
  have parts := (Named.plain_of_identifier known).2
  apply Token.spells_plain
  · simp [dollared]
  · intro c member
    rw [dollared, String.toList_append] at member
    rcases List.mem_append.mp member with dollar | part
    · obtain rfl : c = '$' := by simpa using dollar
      decide
    · exact parts c part

theorem spells_condition {condition : Logic String} {text : String} (normal : condition.Normal)
    (known : ∀ name ∈ condition.terms, Named.isIdentifier name = true)
    (rendered : Expression.render spelling condition = .ok text) :
    Spells quoting text (wordingIn wording .none condition) := by
  have names : ∀ name ∈ condition.terms, ∀ text, spelling.term name = .ok text →
      Spells quoting text (wording.term name) := by
    rintro name member _ ⟨⟩
    exact spells_dollared (known name member)
  exact Expression.spells_render normal.filled names Token.connects_and Token.connects_or
    (fun _ _ => Token.spells_not) rfl rendered

abbrev stop : List Token → Bool := Parser.nextIsSign "\x7d"

/-- What may follow the name of a string in a condition. -/
def Follows (next : List Lexeme) : Prop :=
  ∃ head ∈ next.head?, head ∈ [.word "and", .word "or", .symbol ")", .symbol "\x7d"]

theorem after_dollar (name : String) : afterDollar? (dollared name) = some name := by
  simp [afterDollar?, dollared]

theorem reads_reference {names : List String} {name : String} (known : name ∈ names)
    {next : List Lexeme} (follows : Follows next) :
    Reads (reference names) [.word (dollared name)] (.term name) next := by
  obtain ⟨head, start, known'⟩ := follows
  obtain ⟨tail, rfl⟩ := List.head?_eq_some_iff.mp start
  apply Parser.reads_cons
  intro offset
  apply Parser.reads_nil
  intro rest same
  obtain ⟨place, others, rfl, _⟩ := Parser.cons_of_lexemes same
  simp only [List.mem_cons, List.not_mem_nil, or_false] at known'
  rcases known' with rfl | rfl | rfl | rfl
  all_goals simp [reference, after_dollar, known, Text.sameLetters]

theorem ends_disjunction {next : List Lexeme} (noAnd : next.head? ≠ some (.word "and"))
    (noOr : next.head? ≠ some (.word "or")) : EndsDisjunction connectives stop next :=
  Expression.ends_disjunction_of_word rfl rfl noAnd noOr

theorem delimiters : Delimiters connectives stop [.word "or"] where
  filled := by simp
  disjoins := fun next => Expression.reads_disjunction_word fun offset rest => by
    simp [Expression.Connectives.nextIsDisjunction, Expression.Connectives.nextIs, connectives]
  divides := fun next => Expression.ends_conjunction_of_word rfl rfl (by simp [connectives])
  opening := fun offset rest => by
    simp [Expression.Connectives.nextIsNegation, Expression.Connectives.nextIs, connectives]
  closing := fun next => ends_disjunction (by simp) (by simp)

theorem begins_reference (name : String) :
    Expression.BeginsTerm connectives stop (.word (dollared name)) := by
  have other : dollared name ≠ "not" := by
    intro same
    have front := congrArg (fun text => text.toList.head?) same
    simp [dollared] at front
  refine ⟨by simp, fun offset rest => ⟨by simp, ?_⟩⟩
  simp [Expression.Connectives.nextIsNegation, Expression.Connectives.nextIs, connectives, other]

def Parses (names : List String) (levels : Nat) (parser : Parser (Logic String)) : Prop :=
  ∃ more, levels ≤ more ∧ parser = operand connectives stop (reference names) more

def fits (names : List String) (_ : Bool) (name : String) (next : List Lexeme) : Prop :=
  name ∈ names ∧ Follows next

theorem next_and (offset : Nat) (rest : List Token) :
    connectives.nextIsConjunction (⟨.word "and", offset⟩ :: rest) = true := by
  simp [Expression.Connectives.nextIsConjunction, Expression.Connectives.nextIs, connectives]

theorem next_not (offset : Nat) (rest : List Token) :
    stop (⟨.word "not", offset⟩ :: rest) = false ∧
      connectives.nextIsNegation (⟨.word "not", offset⟩ :: rest) = true := by
  simp [Expression.Connectives.nextIsNegation, Expression.Connectives.nextIs, connectives]

theorem operands (names : List String) :
    Operands connectives stop wording (fits names) Logic.term (Parses names) :=
  Operands.of_operand 0 "not" delimiters (fun _ => .term _)
    (fun {_ _ name _} ⟨known, follows⟩ =>
      Expression.reads_term ⟨_, rfl, begins_reference name⟩ (reads_reference known follows))
    ⟨rfl, fun _ => rfl⟩ next_not (fun _ _ reads => Expression.reads_conjunct next_and reads)
    (by simp [wording])

/-- A condition is read as it is written. -/
theorem reads_condition {names : List String} {condition : Logic String}
    (normal : condition.Normal) (shallow : condition.depth ≤ Expression.maxDepth)
    (known : ∀ name ∈ condition.terms, name ∈ names) (next : List Lexeme) :
    Reads (Expression.parse connectives stop (reference names)) (wordingIn wording .none condition)
      condition (.symbol "\x7d" :: next) := by
  have fit : FitsIn wording (fits names) .none false condition (.symbol "\x7d" :: next) := by
    refine @Expression.fits_of_follows _ _ _ Follows _ _ _ _ ?_ ?_ ?_ ?_ ?_
    · exact fun next => ⟨.symbol ")", rfl, by simp⟩
    · exact fun next => ⟨.word "and", rfl, by simp⟩
    · exact fun next => ⟨.word "or", rfl, by simp⟩
    · exact fun name member _ _ follows => ⟨known name member, follows⟩
    · exact ⟨.symbol "\x7d", rfl, by simp⟩
  have enough : Parses names Expression.maxDepth
      (operand connectives stop (reference names) (Expression.maxDepth + 1)) :=
    ⟨_, Nat.le_succ _, rfl⟩
  have whole := (operands names).reads_expression enough normal.flat shallow fit
    (ends_disjunction (by simp) (by simp))
  rwa [Logic.bind_term normal] at whole

end DetectionRules.Yara
