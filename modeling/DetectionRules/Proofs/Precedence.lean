import DetectionRules.Dialect.CrowdStrike
import DetectionRules.Dialect.QRadar
import DetectionRules.Dialect.Splunk
import DetectionRules.Dialect.YaraL
import DetectionRules.Proofs.Avoiding
import DetectionRules.Proofs.Dialect
import DetectionRules.Proofs.Lookahead

/-!
Writing and reading agree on precedence in the dialects that negate with a word
in front of the operand. What these dialects have in common is enough for it, as
long as their terms are read back, which is asked of the terms that come up.
-/

namespace DetectionRules.Expression

open DetectionRules.Parser (Reads)
open Token (Spells)

/-- How a dialect that negates with a word writes and reads expressions. -/
structure Prefixed where
  quoting : Quoting
  spelling : Spelling FieldTest
  negation : String
  connectives : Connectives
  stop : List Token → Bool
  Target : Type
  atom : Parser (Logic Target)
  read : FieldTest → Target

namespace Prefixed

/-- A lexeme that begins another operand where the one before it ends. -/
structure Opens (dialect : Prefixed) (head : Lexeme) : Prop where
  conjunction : ∀ offset rest,
    dialect.connectives.nextIsConjunction (⟨head, offset⟩ :: rest) = false
  disjunction : ∀ offset rest,
    dialect.connectives.nextIsDisjunction (⟨head, offset⟩ :: rest) = false
  stop : ∀ offset rest, dialect.stop (⟨head, offset⟩ :: rest) = false
  closing : head ≠ .symbol ")"

/-- A lexeme that is no connective, no negation, no parenthesis and no stop. -/
structure OpensTerm (dialect : Prefixed) (head : Lexeme) : Prop extends Opens dialect head where
  negation : ∀ offset rest, dialect.connectives.nextIsNegation (⟨head, offset⟩ :: rest) = false
  opening : head ≠ .symbol "("

/-- Lexemes that may follow a term. Terms side by side may be followed by anything. -/
def Admits (dialect : Prefixed) (next : List Lexeme) : Prop :=
  dialect.spelling.conjunction = " " ∨
    ∀ head ∈ next.head?, head = .symbol ")" ∨ head = .word dialect.connectives.conjunction ∨
      head = .word dialect.connectives.disjunction

/-- A test whose tokens are read as the test and nothing behind them is taken. -/
def ReadsBack (dialect : Prefixed) (test : FieldTest) : Prop :=
  ∃ text tokens, dialect.spelling.term test = .ok text ∧
    Token.list dialect.quoting text = .ok tokens ∧
    (∃ head ∈ tokens.head?, dialect.OpensTerm head.lexeme) ∧
    ∀ next, dialect.Admits next →
      Reads dialect.atom (tokens.map (·.lexeme)) (.term (dialect.read test)) next

/-- What the dialects have in common. -/
structure Lawful (dialect : Prefixed) : Prop where
  conjoins : dialect.spelling.conjunction = " " ∧ dialect.connectives.adjacency = true ∨
    dialect.spelling.conjunction = " " ++ dialect.connectives.conjunction ++ " "
  disjoins : dialect.spelling.disjunction = " " ++ dialect.connectives.disjunction ++ " "
  negates : dialect.spelling.negation = fun inner => dialect.negation ++ " " ++ inner
  noParentheses : dialect.spelling.negationEncloses = false
  plain : ∀ word ∈ [dialect.connectives.conjunction, dialect.connectives.disjunction,
    dialect.negation], word.toList ≠ [] ∧ ∀ c ∈ word.toList, Token.isPlain c = true
  apart : ∀ offset rest, dialect.connectives.nextIsConjunction
    (⟨.word dialect.connectives.disjunction, offset⟩ :: rest) = false
  negation : dialect.Opens (.word dialect.negation) ∧ ∀ offset rest,
    dialect.connectives.nextIsNegation (⟨.word dialect.negation, offset⟩ :: rest) = true
  opening : dialect.Opens (.symbol "(") ∧ ∀ offset rest,
    dialect.connectives.nextIsNegation (⟨.symbol "(", offset⟩ :: rest) = false

def splunk : Prefixed where
  quoting := {}
  spelling := Splunk.spelling
  negation := "NOT"
  connectives := Splunk.connectives
  stop := Splunk.atPipe
  Target := FieldTest
  atom := Splunk.term
  read := id

def qRadar : Prefixed where
  quoting := QRadar.quoting
  spelling := QRadar.spelling
  negation := "NOT"
  connectives := QRadar.connectives
  stop := QRadar.atClause
  Target := FieldTest
  atom := QRadar.term
  read := id

def crowdStrike : Prefixed where
  quoting := { slashes := true }
  spelling := CrowdStrike.spelling
  negation := "not"
  connectives := CrowdStrike.connectives
  stop := Parser.nextIsSign "|"
  Target := FieldTest
  atom := CrowdStrike.term
  read := id

def yaraL : Prefixed where
  quoting := { slashes := true, backticks := true }
  spelling := YaraL.spelling
  negation := "not"
  connectives := YaraL.eventConnectives
  stop := YaraL.atSection
  Target := YaraL.Predicate
  atom := YaraL.predicate
  read := .test YaraL.eventVariable

def dialects : List Prefixed := [splunk, qRadar, crowdStrike, yaraL]

theorem lawful {dialect : Prefixed} (known : dialect ∈ dialects) : dialect.Lawful := by
  -- The signs and words are known, so each test of them is a computation.
  have conjoins : dialect.spelling.conjunction = " " ∧ dialect.connectives.adjacency = true ∨
      dialect.spelling.conjunction = " " ++ dialect.connectives.conjunction ++ " " := by
    simp only [dialects, List.mem_cons, List.not_mem_nil, or_false] at known
    rcases known with rfl | rfl | rfl | rfl
    · exact .inl ⟨rfl, rfl⟩
    · exact .inr (by decide)
    · exact .inl ⟨rfl, rfl⟩
    · exact .inr (by decide)
  simp only [dialects, List.mem_cons, List.not_mem_nil, or_false] at known
  rcases known with rfl | rfl | rfl | rfl
  all_goals exact {
    conjoins
    disjoins := by decide
    negates := rfl
    noParentheses := rfl
    plain := by
      simp [splunk, qRadar, crowdStrike, yaraL, Splunk.connectives, QRadar.connectives,
        CrowdStrike.connectives, YaraL.eventConnectives, Token.isPlain]
    apart := fun _ _ => rfl
    negation := ⟨⟨fun _ _ => rfl, fun _ _ => rfl, fun _ _ => rfl, by simp⟩, fun _ _ => rfl⟩
    opening := ⟨⟨fun _ _ => rfl, fun _ _ => rfl, fun _ _ => rfl, by decide⟩, fun _ _ => rfl⟩ }

theorem next_is_own (connectives : Connectives) (word : String) (offset : Nat)
    (rest : List Token) : connectives.nextIs word (⟨.word word, offset⟩ :: rest) = true := by
  rw [Connectives.nextIs]
  split <;> simp

theorem spaced_ne (word : String) : " " ++ word ++ " " ≠ " " := by
  intro same
  have size := congrArg String.length same
  simp at size

section Laws

variable {dialect : Prefixed}

theorem ends_with_parenthesis (next : List Lexeme) :
    EndsDisjunction dialect.connectives dialect.stop (.symbol ")" :: next) where
  conjunction := by
    intro tokens same
    obtain ⟨offset, rest, rfl, _⟩ := Parser.cons_of_lexemes same
    exact next_is_sign _ offset rest
  adjacent := by
    intro tokens same
    obtain ⟨offset, rest, rfl, _⟩ := Parser.cons_of_lexemes same
    simp [Connectives.nextIsAdjacent]
  disjunction := by
    intro tokens same
    obtain ⟨offset, rest, rfl, _⟩ := Parser.cons_of_lexemes same
    exact next_is_sign _ offset rest

theorem Lawful.delimiters (lawful : dialect.Lawful) :
    Delimiters dialect.connectives dialect.stop [.word dialect.connectives.disjunction] where
  filled := by simp
  disjoins := fun _ => reads_disjunction_word fun offset rest => next_is_own _ _ offset rest
  divides := fun next => .of_front fun _ start offset rest => by
    cases start
    have own := next_is_own dialect.connectives dialect.connectives.disjunction offset rest
    exact ⟨lawful.apart offset rest,
      by simp [Connectives.nextIsAdjacent, Connectives.nextIsDisjunction, own]⟩
  opening := fun offset rest => ⟨lawful.opening.1.stop offset rest, lawful.opening.2 offset rest⟩
  closing := ends_with_parenthesis

theorem Opens.conjunct {head : Lexeme} (opens : dialect.Opens head)
    (adjacency : dialect.connectives.adjacency = true) :
    BeginsConjunct dialect.connectives dialect.stop head := by
  intro offset rest
  have noClosing : Parser.nextIsSign ")" (⟨head, offset⟩ :: rest) = false :=
    Parser.next_is_sign_of_head (by simpa using opens.closing)
  refine ⟨opens.conjunction offset rest, ?_⟩
  simp [Connectives.nextIsAdjacent, adjacency, opens.stop, noClosing, opens.disjunction]

end Laws

/-- The lexemes of a test as it is written. A test that is not written has one to stand for it. -/
def lexemes (dialect : Prefixed) (test : FieldTest) : List Lexeme :=
  let tokens := do
    let text ← (dialect.spelling.term test).toOption
    (Token.list dialect.quoting text).toOption
  match (tokens.getD []).map (·.lexeme) with
  | [] => [.quoted ""]
  | lexemes => lexemes

theorem lexemes_filled (dialect : Prefixed) (test : FieldTest) : dialect.lexemes test ≠ [] := by
  rw [lexemes]
  split
  · exact List.cons_ne_nil _ _
  · assumption

theorem lexemes_eq {dialect : Prefixed} {test : FieldTest} {text : String} {tokens : List Token}
    (written : dialect.spelling.term test = .ok text)
    (listed : Token.list dialect.quoting text = .ok tokens) (filled : tokens ≠ []) :
    dialect.lexemes test = tokens.map (·.lexeme) := by
  obtain ⟨token, others, rfl⟩ := List.exists_cons_of_ne_nil filled
  simp [lexemes, written, listed, Except.toOption]

def wording (dialect : Prefixed) : Wording FieldTest where
  term := dialect.lexemes
  conjunction := if dialect.spelling.conjunction = " " then []
    else [.word dialect.connectives.conjunction]
  disjunction := [.word dialect.connectives.disjunction]
  negation := fun lexemes => .word dialect.negation :: lexemes

def fits (dialect : Prefixed) (_ : Bool) (test : FieldTest) (next : List Lexeme) : Prop :=
  (∃ head ∈ (dialect.lexemes test).head?, dialect.OpensTerm head) ∧
    Reads dialect.atom (dialect.lexemes test) (.term (dialect.read test)) next

/-- A test that is read back can be read from its lexemes wherever something may follow it. -/
theorem ReadsBack.of_lexemes {dialect : Prefixed} {test : FieldTest}
    (readsBack : dialect.ReadsBack test) :
    ∃ text, dialect.spelling.term test = .ok text ∧
      Spells dialect.quoting text (dialect.lexemes test) ∧
      ∀ adjacent next, dialect.Admits next → dialect.fits adjacent test next := by
  obtain ⟨text, tokens, written, listed, ⟨head, start, opens⟩, reads⟩ := readsBack
  obtain ⟨others, rfl⟩ := List.head?_eq_some_iff.mp start
  rw [lexemes_eq written listed (List.cons_ne_nil _ _)]
  refine ⟨text, written, Token.spells_of_list listed, fun adjacent next admitted => ?_⟩
  rw [fits, lexemes_eq written listed (List.cons_ne_nil _ _)]
  exact ⟨⟨head.lexeme, rfl, opens⟩, reads next admitted⟩

def Parses (dialect : Prefixed) (levels : Nat) (parser : Parser (Logic dialect.Target)) : Prop :=
  ∃ more, levels < more ∧ parser = operand dialect.connectives dialect.stop dialect.atom more

theorem opens_operand {dialect : Prefixed} (lawful : dialect.Lawful) {item : Logic FieldTest}
    {adjacent : Bool} {next : List Lexeme} (single : item.isConjunction = false)
    (fit : FitsIn dialect.wording dialect.fits .conjunction adjacent item next) :
    ∃ head tail, wordingIn dialect.wording .conjunction item = head :: tail ∧
      dialect.Opens head := by
  cases item with
  | term test =>
      obtain ⟨⟨head, start, opens⟩, -⟩ := fit
      obtain ⟨tail, same⟩ := List.head?_eq_some_iff.mp start
      exact ⟨head, tail, same, opens.toOpens⟩
  | all items => cases single
  | any items => exact ⟨_, _, rfl, lawful.opening.1⟩
  | not item => exact ⟨_, _, rfl, lawful.negation.1⟩

theorem conjoins_operand {dialect : Prefixed} (lawful : dialect.Lawful)
    {inner : Parser (Logic dialect.Target)} {item : Logic FieldTest} {result : Logic dialect.Target}
    {adjacent : Bool} {next : List Lexeme} (single : item.isConjunction = false)
    (fit : FitsIn dialect.wording dialect.fits .conjunction adjacent item next)
    (reads : Reads inner (wordingIn dialect.wording .conjunction item) result next) :
    Reads (nextConjunct? dialect.connectives dialect.stop inner)
      (dialect.wording.conjunction ++ wordingIn dialect.wording .conjunction item) (some result)
      next := by
  rcases lawful.conjoins with ⟨blank, adjacency⟩ | word
  · obtain ⟨head, tail, same, opens⟩ := opens_operand lawful single fit
    rw [same] at reads ⊢
    have neighbour := reads_neighbour (opens.conjunct adjacency) reads
    simpa [wording, blank] using neighbour
  · have written : dialect.spelling.conjunction ≠ " " := word ▸ spaced_ne _
    have conjunct : Reads (nextConjunct? dialect.connectives dialect.stop inner)
        (.word dialect.connectives.conjunction :: wordingIn dialect.wording .conjunction item)
        (some result) next :=
      reads_conjunct (next_is_own dialect.connectives dialect.connectives.conjunction) reads
    simpa [wording, written] using conjunct

theorem operands {dialect : Prefixed} (lawful : dialect.Lawful) :
    Operands dialect.connectives dialect.stop dialect.wording dialect.fits
      (fun test => .term (dialect.read test)) dialect.Parses := by
  refine Operands.of_operand 1 _ lawful.delimiters (fun _ => .term _) ?_ ⟨rfl, fun _ => rfl⟩
    (fun offset rest => ⟨lawful.negation.1.stop offset rest, lawful.negation.2 offset rest⟩)
    (conjoins_operand lawful) fun {item} single => ?_
  · rintro levels adjacent test next ⟨⟨head, start, opens⟩, reads⟩
    refine reads_term ⟨head, start, opens.opening, fun offset rest => ?_⟩ reads
    exact ⟨opens.stop offset rest, opens.negation offset rest⟩
  · have part : wordingIn dialect.wording .conjunction item ≠ [] :=
      wording_in_ne_nil (lexemes_filled dialect) (by simp [wording]) single
    exact fun empty => part (List.append_eq_nil_iff.mp empty).2

theorem connects_conjunction {dialect : Prefixed} (lawful : dialect.Lawful) :
    Token.Connects dialect.quoting dialect.spelling.conjunction dialect.wording.conjunction := by
  rcases lawful.conjoins with ⟨blank, -⟩ | word
  · simp only [wording, blank, if_true]
    apply Token.connects_blank
  · have written : dialect.spelling.conjunction ≠ " " := word ▸ spaced_ne _
    have plain := lawful.plain dialect.connectives.conjunction (by simp)
    simp only [wording, written, if_false]
    apply Token.connects_plain word
    · exact plain.1
    · exact plain.2

theorem connects_disjunction {dialect : Prefixed} (lawful : dialect.Lawful) :
    Token.Connects dialect.quoting dialect.spelling.disjunction dialect.wording.disjunction := by
  have plain := lawful.plain dialect.connectives.disjunction (by simp)
  apply Token.connects_plain lawful.disjoins
  · exact plain.1
  · exact plain.2

/-- What the terms are read from and before, the whole expression is read from. -/
theorem reads_rendered {dialect : Prefixed} (lawful : dialect.Lawful) {expression : Logic FieldTest}
    (normal : expression.Normal) (shallow : expression.depth ≤ maxDepth)
    (terms : ∀ test ∈ expression.terms, dialect.ReadsBack test) :
    Reads (parse dialect.connectives dialect.stop dialect.atom)
      (wordingIn dialect.wording .none expression) (expression.map dialect.read) [] := by
  have tree : expression.bind (fun test => .term (dialect.read test)) =
      expression.map dialect.read := by
    have mapped := Logic.map_bind dialect.read Logic.term expression
    rw [Logic.bind_term normal] at mapped
    exact mapped.symm
  have fit : FitsIn dialect.wording dialect.fits .none false expression [] := by
    refine @fits_of_follows _ _ _ dialect.Admits _ _ _ _ ?_ ?_ ?_ ?_ ?_
    · exact fun next => .inr (by simp)
    · intro next
      by_cases blank : dialect.spelling.conjunction = " "
      · exact .inl blank
      · exact .inr (by simp [wording, blank])
    · exact fun next => .inr (by simp [wording])
    · intro test member adjacent next admitted
      obtain ⟨_, -, -, fit⟩ := (terms test member).of_lexemes
      exact fit adjacent next admitted
    · exact .inr (by simp)
  have whole := (operands lawful).reads_expression ⟨_, Nat.lt_succ_self _, rfl⟩ normal.flat shallow
    fit ends_with_text
  rwa [tree] at whole

/-- An expression whose terms are read back is read back. -/
theorem rendering_keeps_precedence {dialect : Prefixed} (known : dialect ∈ dialects)
    {expression : Logic FieldTest} (normal : expression.Normal)
    (shallow : expression.depth ≤ maxDepth)
    (terms : ∀ test ∈ expression.terms, dialect.ReadsBack test) :
    ∃ text tokens, render dialect.spelling expression = .ok text ∧
      Token.list dialect.quoting text = .ok tokens ∧
      parse dialect.connectives dialect.stop dialect.atom tokens =
        .ok (expression.map dialect.read, []) := by
  have lawful := lawful known
  obtain ⟨text, rendered⟩ := render_total (fun test member => by
    obtain ⟨text, _, written, _⟩ := terms test member
    exact ⟨text, written⟩) .none
  have spells : Spells dialect.quoting text (wordingIn dialect.wording .none expression) := by
    refine spells_render normal.filled ?_ (connects_conjunction lawful)
      (connects_disjunction lawful) ?_ lawful.noParentheses rendered
    · intro test member own rendered
      obtain ⟨text, written, spells, -⟩ := (terms test member).of_lexemes
      obtain rfl : text = own := by simpa using written.symm.trans rendered
      exact spells
    · intro text lexemes spells
      have plain := lawful.plain dialect.negation (by simp)
      rw [lawful.negates]
      exact Token.spells_behind_word rfl plain.1 plain.2 spells
  obtain ⟨tokens, listed, same⟩ := Token.list_of_spells spells
  have read := reads_rendered lawful normal shallow terms tokens [] same rfl
  rw [List.append_nil] at read
  exact ⟨text, tokens, rendered, listed, read⟩

def portTest : FieldTest := .single "port" .gt (.int 1024)

theorem reads_back_port : splunk.ReadsBack portTest := by
  refine ⟨"port>1024", [⟨.word "port", 0⟩, ⟨.symbol ">", 4⟩, ⟨.word "1024", 5⟩], ?_, ?_, ?_, ?_⟩
  · decide +kernel
  · cbv
  · refine ⟨_, rfl, ⟨fun _ _ => rfl, fun _ _ => rfl, fun _ _ => rfl, ?_⟩, fun _ _ => rfl, ?_⟩
    all_goals simp
  · intro next _ tokens rest same _
    obtain ⟨_, signed, rfl, behindField⟩ := Parser.cons_of_lexemes same
    obtain ⟨_, numbered, rfl, behindSign⟩ := Parser.cons_of_lexemes behindField
    obtain ⟨_, empty, rfl, behindNumber⟩ := Parser.cons_of_lexemes behindSign
    obtain rfl : empty = [] := by simpa using behindNumber
    have number : Value.ofLiteral "1024" = .int 1024 := by decide +kernel
    simp [splunk, Splunk.term, Splunk.comparisonOf, Splunk.nextIsList, Parser.next?, Parser.takeSign,
      Dialect.takeComparison?, Dialect.integer, Operator.ofSign?, number, portTest]

def portsTree : Logic FieldTest :=
  .any [.all [.term portTest, .not (.any [.term portTest, .term portTest])], .term portTest]

theorem rendering_keeps_precedence_of_ports :
    splunk ∈ dialects ∧ portsTree.Normal ∧ portsTree.depth ≤ maxDepth ∧
      (∀ test ∈ portsTree.terms, splunk.ReadsBack test) ∧
      ∃ text tokens, render Splunk.spelling portsTree = .ok text ∧ Token.list {} text = .ok tokens ∧
        parse Splunk.connectives Splunk.atPipe Splunk.term tokens =
          .ok (portsTree.map id, []) := by
  have known : splunk ∈ dialects := by simp [dialects]
  have port : (Logic.term portTest).Normal := .term _
  have either : (Logic.any [.term portTest, .term portTest]).Normal :=
    .any (by decide) (by simpa using port) (by simp [Logic.isDisjunction])
  have both : (Logic.all [.term portTest, .not (.any [.term portTest, .term portTest])]).Normal :=
    .all (by decide) (by simpa using ⟨port, .not either rfl⟩) (by simp [Logic.isConjunction])
  have normal : portsTree.Normal :=
    .any (by decide) (by simpa using ⟨both, port⟩) (by simp [Logic.isDisjunction])
  have shallow : portsTree.depth ≤ maxDepth := by decide
  have terms : ∀ test ∈ portsTree.terms, splunk.ReadsBack test := by
    intro test member
    obtain rfl : test = portTest := by
      simpa [portsTree, Logic.terms, Logic.termsOfAll] using member
    exact reads_back_port
  exact ⟨known, normal, shallow, terms, rendering_keeps_precedence known normal shallow terms⟩

end Prefixed

end DetectionRules.Expression
