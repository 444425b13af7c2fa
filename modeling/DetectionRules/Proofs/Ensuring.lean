import DetectionRules.Proofs.Grammar

/-!
What a parser ensures about its results. Some results depend on the kind of the
tokens that are read, so a parser is also said to keep a kind: from tokens of
the kind it gives a result with a property, and leaves tokens of the kind.
-/

namespace DetectionRules.Parser

variable {Result Next : Type} {kind : Token → Prop}

def Keeps (kind : Token → Prop) (parser : Parser Result) (property : Result → Prop) : Prop :=
  ∀ tokens result rest, (∀ token ∈ tokens, kind token) → parser tokens = .ok (result, rest) →
    property result ∧ ∀ token ∈ rest, kind token

/-- A parser whose result does not matter. -/
abbrev Leaves (kind : Token → Prop) (parser : Parser Result) : Prop :=
  Keeps kind parser fun _ => True

theorem keeps_pure {property : Result → Prop} {result : Result} (holds : property result) :
    Keeps kind (pure result) property := by
  intro tokens other rest all same
  cases same
  exact ⟨holds, all⟩

theorem keeps_bind {parser : Parser Result} {continued : Result → Parser Next}
    {middle : Result → Prop} {property : Next → Prop} (first : Keeps kind parser middle)
    (others : ∀ result, middle result → Keeps kind (continued result) property) :
    Keeps kind (parser >>= continued) property := by
  intro tokens final rest all same
  obtain ⟨result, left, found, same⟩ := of_bind same
  obtain ⟨holds, kept⟩ := first tokens result left all found
  exact others result holds left final rest kept same

theorem keeps_next {parser : Parser Result} {continued : Result → Parser Next}
    {property : Next → Prop} (first : Leaves kind parser)
    (others : ∀ result, Keeps kind (continued result) property) :
    Keeps kind (parser >>= continued) property :=
  keeps_bind first fun result _ => others result

theorem keeps_mono {parser : Parser Result} {property weaker : Result → Prop}
    (keeps : Keeps kind parser property) (implies : ∀ result, property result → weaker result) :
    Keeps kind parser weaker := by
  intro tokens result rest all same
  obtain ⟨holds, kept⟩ := keeps tokens result rest all same
  exact ⟨implies result holds, kept⟩

theorem leaves_of_keeps {parser : Parser Result} {property : Result → Prop}
    (keeps : Keeps kind parser property) : Leaves kind parser :=
  keeps_mono keeps fun _ _ => trivial

theorem keeps_map {parser : Parser Result} {change : Result → Next} {property : Next → Prop}
    (keeps : Keeps kind parser fun result => property (change result)) :
    Keeps kind (change <$> parser) property := by
  rw [← bind_pure_comp]
  exact keeps_bind keeps fun _ holds => keeps_pure holds

theorem keeps_ite {condition : Prop} [Decidable condition] {first second : Parser Result}
    {property : Result → Prop} (holds : Keeps kind first property)
    (fails : Keeps kind second property) :
    Keeps kind (if condition then first else second) property := by
  split
  · exact holds
  · exact fails

theorem keeps_fail_at (offset : Option Nat) (reason : String) {property : Result → Prop} :
    Keeps kind (failAt offset reason) property := by
  intro tokens result rest _ same
  cases same

theorem keeps_fail (reason : String) {property : Result → Prop} :
    Keeps kind (fail reason) property := by
  intro tokens result rest _ same
  cases same

theorem keeps_expected (what : String) {property : Result → Prop} :
    Keeps kind (expected what) property := by
  intro tokens result rest _ same
  cases same

theorem keeps_unsupported (construct : String) {property : Result → Prop} :
    Keeps kind (unsupported construct) property := by
  intro tokens result rest _ same
  cases same

theorem keeps_check {condition : Prop} [Decidable condition] {refusal : Parser Unit}
    {continued : Unit → Parser Next} {property : Next → Prop} (first : Leaves kind refusal)
    (others : ∀ done, Keeps kind (continued done) property) :
    Keeps kind (if condition then refusal >>= continued else continued ()) property :=
  keeps_ite (keeps_next first others) (others ())

theorem keeps_past {condition : Prop} [Decidable condition] {refusal : Parser Unit}
    {continued : Unit → Parser Next} {property : Next → Prop}
    (refuses : Keeps kind refusal fun _ => False)
    (others : ¬condition → Keeps kind (continued ()) property) :
    Keeps kind (if condition then refusal >>= continued else continued ()) property := by
  split
  · exact keeps_bind refuses nofun
  · rename_i passes
    exact others passes

theorem keeps_get : Keeps kind get fun tokens => ∀ token ∈ tokens, kind token := by
  intro tokens result rest all same
  cases same
  exact ⟨all, all⟩

theorem leaves_set {tokens : List Token} (all : ∀ token ∈ tokens, kind token) :
    Leaves kind (set tokens) := by
  intro _ result rest _ same
  cases same
  exact ⟨trivial, all⟩

theorem leaves_offset : Leaves kind offset := by
  intro tokens result rest all same
  cases same
  exact ⟨trivial, all⟩

theorem leaves_sees (test : List Token → Bool) : Leaves kind (sees test) := by
  intro tokens result rest all same
  cases same
  exact ⟨trivial, all⟩

theorem leaves_skip : Leaves kind skip := by
  intro tokens result rest all same
  cases same
  exact ⟨trivial, fun token member => all token (List.mem_of_mem_drop member)⟩

theorem leaves_skip_until (test : List Token → Bool) : Leaves kind (skipUntil test) := by
  have suffix : ∀ tokens : List Token, ∀ token ∈ skipUntil.dropUntil test tokens,
      token ∈ tokens := by
    intro tokens
    induction tokens with
    | nil => simp [skipUntil.dropUntil]
    | cons first rest induction =>
        rw [skipUntil.dropUntil]
        split
        · exact fun token member => member
        · exact fun token member => List.mem_cons_of_mem first (induction token member)
  intro tokens result rest all same
  cases same
  exact ⟨trivial, fun token member => all token (suffix tokens token member)⟩

theorem leaves_take_if (test : List Token → Bool) : Leaves kind (takeIf test) := by
  intro tokens result rest all same
  rcases of_take_if same with ⟨_, _, token, rfl⟩ | ⟨_, _, rfl⟩
  · exact ⟨trivial, fun other member => all other (List.mem_cons_of_mem token member)⟩
  · exact ⟨trivial, all⟩

theorem leaves_sign (sign : String) : Leaves kind (Parser.sign sign) := by
  refine keeps_next (leaves_take_if _) fun taken => ?_
  exact keeps_ite (keeps_expected _) (keeps_pure trivial)

theorem leaves_word_at (what : String) : Leaves kind (wordAt what) := by
  refine keeps_bind keeps_get fun tokens all => ?_
  split
  · exact keeps_next (leaves_set (List.forall_mem_cons.mp all).2) fun _ => keeps_pure trivial
  · exact keeps_expected _

theorem leaves_word (what : String) : Leaves kind (word what) :=
  keeps_next (leaves_word_at what) fun _ => keeps_pure trivial

theorem leaves_literal (what : String) : Leaves kind (literal what) := by
  refine keeps_bind keeps_get fun tokens all => ?_
  split
  · exact keeps_next (leaves_set (List.forall_mem_cons.mp all).2) fun _ => keeps_pure trivial
  · exact keeps_next (leaves_set (List.forall_mem_cons.mp all).2) fun _ => keeps_pure trivial
  · exact keeps_expected _

theorem leaves_number (what : String) : Leaves kind (number what) := by
  refine keeps_next (leaves_word_at what) fun read => ?_
  obtain ⟨text, offset⟩ := read
  simp only
  split
  · exact keeps_pure trivial
  · exact keeps_fail_at _ _

theorem keeps_integer : Keeps kind integer fun value => ∃ number, value = .int number := by
  refine keeps_next (leaves_word_at _) fun read => ?_
  obtain ⟨text, offset⟩ := read
  simp only
  split
  · exact keeps_pure ⟨_, rfl⟩
  · exact keeps_fail_at _ _

theorem keeps_iterate {step : Result → Parser (Option Result)} {invariant : Result → Prop}
    (keeps : ∀ result, invariant result →
      Keeps kind (step result) fun next => ∀ found ∈ next, invariant found)
    {start : Result} (holds : invariant start) : Keeps kind (iterate step start) invariant := by
  intro tokens result rest all success
  replace success := iterated_of_iterate success
  induction success with
  | ended found => exact ⟨holds, (keeps _ holds _ _ _ all found).2⟩
  | halted found _ =>
      obtain ⟨kept, leaves⟩ := keeps _ holds _ _ _ all found
      exact ⟨kept _ rfl, leaves⟩
  | turned found _ _ induction =>
      obtain ⟨kept, leaves⟩ := keeps _ holds _ _ _ all found
      exact induction (kept _ rfl) leaves

theorem keeps_many {step : Parser (Option Result)} {property : Result → Prop}
    (keeps : Keeps kind step fun next => ∀ found ∈ next, property found) :
    Keeps kind (many step) fun results => ∀ result ∈ results, property result := by
  intro tokens results rest all success
  rw [many_eq_ok_iff] at success
  induction success with
  | ended found => exact ⟨by simp, (keeps _ _ _ all found).2⟩
  | halted found _ =>
      obtain ⟨kept, leaves⟩ := keeps _ _ _ all found
      exact ⟨by simpa using kept _ rfl, leaves⟩
  | turned found _ _ induction =>
      obtain ⟨kept, leaves⟩ := keeps _ _ _ all found
      obtain ⟨holds, leaves⟩ := induction leaves
      exact ⟨List.forall_mem_cons.mpr ⟨kept _ rfl, holds⟩, leaves⟩

theorem keeps_sep_by {separator : Parser Bool} {element : Parser Result}
    {property : Result → Prop} (separates : Leaves kind separator)
    (keeps : Keeps kind element property) :
    Keeps kind (sepBy separator element) fun results =>
      results ≠ [] ∧ ∀ result ∈ results, property result := by
  refine keeps_bind keeps fun first holds => ?_
  refine keeps_bind (keeps_many (keeps_next separates fun more => ?_)) fun others all =>
    keeps_pure ⟨List.cons_ne_nil first others, List.forall_mem_cons.mpr ⟨holds, all⟩⟩
  refine keeps_ite (keeps_bind keeps fun result holds => keeps_pure ?_) (keeps_pure nofun)
  rintro _ ⟨⟩
  exact holds

/-- All results of a parser have a property. -/
def Ensures (parser : Parser Result) (property : Result → Prop) : Prop :=
  ∀ tokens result rest, parser tokens = .ok (result, rest) → property result

theorem ensures_pure {property : Result → Prop} {result : Result} (holds : property result) :
    Ensures (pure result) property := by
  intro tokens other rest same
  cases same
  exact holds

theorem ensures_bind {parser : Parser Result} {continued : Result → Parser Next}
    {middle : Result → Prop} {property : Next → Prop} (first : Ensures parser middle)
    (others : ∀ result, middle result → Ensures (continued result) property) :
    Ensures (parser >>= continued) property := by
  intro tokens final rest same
  obtain ⟨result, left, found, same⟩ := of_bind same
  exact others result (first tokens result left found) left final rest same

theorem ensures_last {parser : Parser Result} {continued : Result → Parser Next}
    {property : Next → Prop} (others : ∀ result, Ensures (continued result) property) :
    Ensures (parser >>= continued) property := by
  have first : Ensures parser fun _ => True := fun _ _ _ _ => trivial
  exact ensures_bind first fun result _ => others result

theorem ensures_fail_at (offset : Option Nat) (reason : String) {property : Result → Prop} :
    Ensures (failAt offset reason) property := by
  intro tokens result rest same
  cases same

theorem ensures_expected (what : String) {property : Result → Prop} :
    Ensures (expected what) property := by
  intro tokens result rest same
  cases same

theorem ensures_unsupported (construct : String) {property : Result → Prop} :
    Ensures (unsupported construct) property := by
  intro tokens result rest same
  cases same

theorem ensures_check {condition : Prop} [Decidable condition] {refusal : Parser Unit}
    {continued : Unit → Parser Next} {property : Next → Prop}
    (others : ∀ done, Ensures (continued done) property) :
    Ensures (if condition then refusal >>= continued else continued ()) property := by
  split
  · exact ensures_last others
  · exact others ()

theorem ensures_unless {condition : Prop} [Decidable condition] {refusal : Parser Unit}
    {continued : Unit → Parser Next} {property : Next → Prop}
    (others : ∀ done, Ensures (continued done) property) :
    Ensures (if condition then continued () else refusal >>= continued) property := by
  split
  · exact others ()
  · exact ensures_last others

theorem ensures_ite {condition : Prop} [Decidable condition] {first second : Parser Result}
    {property : Result → Prop} (holds : Ensures first property) (fails : Ensures second property) :
    Ensures (if condition then first else second) property := by
  split
  · exact holds
  · exact fails

theorem ensures_iff_keeps {parser : Parser Result} {property : Result → Prop} :
    Ensures parser property ↔ Keeps (fun _ => True) parser property := by
  constructor
  · intro ensures tokens result rest _ same
    exact ⟨ensures tokens result rest same, fun _ _ => trivial⟩
  · intro keeps tokens result rest same
    exact (keeps tokens result rest (fun _ _ => trivial) same).1

/-- A step that keeps an invariant keeps it however often it is repeated. -/
theorem ensures_iterate {step : Result → Parser (Option Result)} {invariant : Result → Prop}
    (keeps : ∀ result, invariant result →
      Ensures (step result) fun next => ∀ found ∈ next, invariant found)
    {start : Result} (holds : invariant start) : Ensures (iterate step start) invariant :=
  ensures_iff_keeps.mpr
    (keeps_iterate (fun result holds => ensures_iff_keeps.mp (keeps result holds)) holds)

end DetectionRules.Parser

namespace DetectionRules.Expression

open DetectionRules.Parser (Keeps keeps_pure keeps_bind keeps_next keeps_ite keeps_fail keeps_expected
  keeps_many keeps_sep_by leaves_take_if leaves_sees leaves_sign)

variable {Term : Type} {connectives : Connectives} {stop : List Token → Bool}
  {kind : Token → Prop} {property : Term → Prop}

/-- An expression all of whose terms have a property. -/
def HasAll (property : Term → Prop) (expression : Logic Term) : Prop :=
  ∀ term ∈ expression.terms, property term

theorem has_all_conj {items : List (Logic Term)} (all : ∀ item ∈ items, HasAll property item) :
    HasAll property (Logic.conj items) := by
  intro term member
  rw [Logic.terms_conj] at member
  obtain ⟨item, inside, place⟩ := List.mem_flatMap.mp member
  exact all item inside term place

theorem has_all_disj {items : List (Logic Term)} (all : ∀ item ∈ items, HasAll property item) :
    HasAll property (Logic.disj items) := by
  intro term member
  rw [Logic.terms_disj] at member
  obtain ⟨item, inside, place⟩ := List.mem_flatMap.mp member
  exact all item inside term place

theorem has_all_negate {item : Logic Term} (all : HasAll property item) :
    HasAll property (Logic.negate item) := by
  intro term member
  rw [Logic.terms_negate] at member
  exact all term member

/-- A property that the connectives hand on from the parts of an expression to the whole. -/
structure Inherited (property : Logic Term → Prop) : Prop where
  conj : ∀ {items : List (Logic Term)}, items ≠ [] → (∀ item ∈ items, property item) →
    property (Logic.conj items)
  disj : ∀ {items : List (Logic Term)}, items ≠ [] → (∀ item ∈ items, property item) →
    property (Logic.disj items)
  negate : ∀ {item : Logic Term}, property item → property (Logic.negate item)

theorem inherited_has_all : Inherited (HasAll property) :=
  ⟨fun _ => has_all_conj, fun _ => has_all_disj, has_all_negate⟩

theorem inherited_normal : Inherited (@Logic.Normal Term) :=
  ⟨Logic.Normal.conj, Logic.Normal.disj, Logic.Normal.negate⟩

section Inheriting

variable {property : Logic Term → Prop}

theorem keeps_conjunction (inherited : Inherited property) {operand : Parser (Logic Term)}
    (keeps : Keeps kind operand property) :
    Keeps kind (conjunction connectives stop operand) property := by
  have another : Keeps kind (some <$> operand) fun next => ∀ found ∈ next, property found := by
    apply Parser.keeps_map
    refine Parser.keeps_mono keeps fun result holds => ?_
    rintro _ ⟨⟩
    exact holds
  have next : Keeps kind (nextConjunct? connectives stop operand) fun next =>
      ∀ found ∈ next, property found := by
    refine keeps_next (leaves_take_if _) fun _ => keeps_ite another ?_
    exact keeps_next (leaves_sees _) fun _ => keeps_ite another (keeps_pure nofun)
  rw [conjunction_eq]
  refine keeps_bind keeps fun first holds => keeps_bind (keeps_many next) fun others all => ?_
  apply keeps_pure
  exact inherited.conj (List.cons_ne_nil first others) (List.forall_mem_cons.mpr ⟨holds, all⟩)

theorem keeps_disjunction (inherited : Inherited property) {operand : Parser (Logic Term)}
    (keeps : Keeps kind operand property) :
    Keeps kind (disjunction connectives stop operand) property := by
  have parts := keeps_sep_by (leaves_take_if connectives.nextIsDisjunction)
    (@keeps_conjunction _ connectives stop _ _ inherited _ keeps)
  exact keeps_bind parts fun parts all => keeps_pure (inherited.disj all.1 all.2)

theorem keeps_operand (inherited : Inherited property) {atom : Parser (Logic Term)}
    (keeps : Keeps kind atom property) (levels : Nat) :
    Keeps kind (operand connectives stop atom levels) property := by
  induction levels with
  | zero => exact keeps_fail _
  | succ levels induction =>
      refine keeps_next (leaves_sees _) fun _ => keeps_ite (keeps_expected _) ?_
      refine keeps_next (leaves_take_if _) fun _ => keeps_ite ?_ ?_
      · exact keeps_bind induction fun item holds => keeps_pure (inherited.negate holds)
      · refine keeps_next (leaves_take_if _) fun _ => keeps_ite ?_ keeps
        refine keeps_bind (keeps_disjunction inherited induction) fun inner holds => ?_
        exact keeps_next (leaves_sign _) fun _ => keeps_pure holds

theorem keeps_parse (inherited : Inherited property) {atom : Parser (Logic Term)}
    (keeps : Keeps kind atom property) : Keeps kind (parse connectives stop atom) property :=
  keeps_disjunction inherited (keeps_operand inherited keeps _)

end Inheriting

end DetectionRules.Expression
