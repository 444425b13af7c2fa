import DetectionRules.Expression.Spelling
import DetectionRules.Proofs.Logic
import DetectionRules.Proofs.Parsing
import DetectionRules.Proofs.Success

/-!
Reading a written expression. The lexemes of an expression mirror its text, with
parentheses at the same places. Whether a term can be read where it stands
depends on what follows it and on whether it stands side by side with the term
before it, so `FitsIn` follows the writer and asks this of every term.
-/

namespace DetectionRules.Expression

open DetectionRules.Parser (Reads Along reads_bind reads_pure)
open Token (Spells Connects behind joined)

/-- The lexemes of terms and connectives. -/
structure Wording (Term : Type) where
  term : Term → List Lexeme
  conjunction : List Lexeme
  disjunction : List Lexeme
  negation : List Lexeme → List Lexeme
  negationEncloses : Bool := false

def enclosed (needed : Bool) (lexemes : List Lexeme) : List Lexeme :=
  if needed then .symbol "(" :: lexemes ++ [.symbol ")"] else lexemes

/-- What follows an expression that may be between parentheses. -/
def closed (needed : Bool) (next : List Lexeme) : List Lexeme :=
  if needed then .symbol ")" :: next else next

variable {Term Target : Type}

def Wording.negated (wording : Wording Term) : Binding :=
  if wording.negationEncloses then .none else .negation

mutual

def wordingIn (wording : Wording Term) (surroundings : Binding) : Logic Term → List Lexeme
  | .term term => wording.term term
  | .all items => enclosed (Binding.conjunction.strength < surroundings.strength)
      (joined wording.conjunction id (wordingAll wording .conjunction items))
  | .any items => enclosed (Binding.disjunction.strength < surroundings.strength)
      (joined wording.disjunction id (wordingAll wording .disjunction items))
  | .not item => wording.negation (wordingIn wording wording.negated item)

def wordingAll (wording : Wording Term) (surroundings : Binding) :
    List (Logic Term) → List (List Lexeme)
  | [] => []
  | item :: rest => wordingIn wording surroundings item :: wordingAll wording surroundings rest

end

theorem wording_all (wording : Wording Term) (surroundings : Binding) (items : List (Logic Term)) :
    wordingAll wording surroundings items = items.map (wordingIn wording surroundings) := by
  induction items with
  | nil => rfl
  | cons item rest induction => rw [wordingAll, induction, List.map_cons]

theorem joined_wording_all (wording : Wording Term) (surroundings : Binding)
    (between : List Lexeme) (items : List (Logic Term)) :
    joined between id (wordingAll wording surroundings items) =
      joined between (wordingIn wording surroundings) items := by
  rw [wording_all]
  cases items with
  | nil => rfl
  | cons item rest => simp [joined, behind, List.flatMap_map]

theorem joined_flat_map {Item Element : Type} {between : List Lexeme}
    {lexemes : Element → List Lexeme} {parts : Item → List Element} {items : List Item}
    (filled : ∀ item ∈ items, parts item ≠ []) :
    joined between lexemes (items.flatMap parts) =
      joined between (fun item => joined between lexemes (parts item)) items := by
  have behindParts : ∀ items : List Item, (∀ item ∈ items, parts item ≠ []) →
      behind between lexemes (items.flatMap parts) =
        behind between (fun item => joined between lexemes (parts item)) items := by
    intro items filled
    rw [behind, behind, List.flatMap_assoc]
    refine List.flatMap_congr fun item member => ?_
    obtain ⟨first, others, same⟩ := List.exists_cons_of_ne_nil (filled item member)
    simp [same, joined, behind]
  cases items with
  | nil => rfl
  | cons item rest =>
      obtain ⟨first, others, same⟩ := List.exists_cons_of_ne_nil (filled item (by simp))
      have behindRest := behindParts rest fun other member => filled other (by simp [member])
      rw [List.flatMap_cons, same, List.cons_append, joined, behind, List.flatMap_append, ← behind,
        ← behind, behindRest, joined, same, joined, List.append_assoc]

theorem joined_conjuncts (wording : Wording Term) (tree : Logic Term) :
    joined wording.conjunction (wordingIn wording .conjunction) tree.conjuncts =
      wordingIn wording .conjunction tree := by
  cases tree with
  | all items => simp [Logic.conjuncts, wordingIn, joined_wording_all, enclosed]
  | term | any | not => simp [Logic.conjuncts, joined, behind]

theorem joined_disjuncts (wording : Wording Term) (tree : Logic Term) :
    joined wording.disjunction (wordingIn wording .disjunction) tree.disjuncts =
      wordingIn wording .disjunction tree := by
  cases tree with
  | any items => simp [Logic.disjuncts, wordingIn, joined_wording_all, enclosed]
  | term | all | not => simp [Logic.disjuncts, joined, behind]

/-- A group inside a group of its own kind is written like the members of both side by side. -/
theorem wording_spread (wording : Wording Term) {expression : Logic Term}
    (filled : expression.hasEmptyGroup = false) (surroundings : Binding) :
    wordingIn wording surroundings expression.spread =
      wordingIn wording surroundings expression := by
  have sameJoined {between : List Lexeme} {surroundings : Binding} {items : List (Logic Term)}
      {parts : Logic Term → List (Logic Term)}
      (some : ∀ item ∈ items, parts item.spread ≠ [])
      (own : ∀ tree, joined between (wordingIn wording surroundings) (parts tree) =
        wordingIn wording surroundings tree)
      (members : ∀ item ∈ items, wordingIn wording surroundings item.spread =
        wordingIn wording surroundings item) :
      joined between (wordingIn wording surroundings) ((items.map Logic.spread).flatMap parts) =
        joined between (wordingIn wording surroundings) items := by
    rw [List.flatMap_map, joined_flat_map some]
    simp only [own]
    cases items with
    | nil => rfl
    | cons first others =>
        rw [joined, joined, members first (by simp), behind, behind]
        congr 1
        refine List.flatMap_congr fun item member => ?_
        rw [members item (by simp [member])]
  induction expression using Logic.induct generalizing surroundings with
  | term value => rfl
  | all items members =>
      obtain ⟨_, parts⟩ := Logic.filled_group_iff.mp filled
      rw [Logic.spread, Logic.spread_all, wordingIn, wordingIn, joined_wording_all,
        joined_wording_all, sameJoined _ (joined_conjuncts wording)]
      · exact fun item member => members item member (parts item member) _
      · exact fun item member => (Logic.flat_spread (parts item member)).conjuncts.1
  | any items members =>
      obtain ⟨_, parts⟩ := Logic.filled_group_iff.mp filled
      rw [Logic.spread, Logic.spread_all, wordingIn, wordingIn, joined_wording_all,
        joined_wording_all, sameJoined _ (joined_disjuncts wording)]
      · exact fun item member => members item member (parts item member) _
      · exact fun item member => (Logic.flat_spread (parts item member)).disjuncts.1
  | not item inner => rw [Logic.spread, wordingIn, wordingIn, inner filled]

theorem mem_joined {Element : Type} {between : List Lexeme} {lexemes : Element → List Lexeme}
    {elements : List Element} {lexeme : Lexeme} (member : lexeme ∈ joined between lexemes elements) :
    lexeme ∈ between ∨ ∃ element ∈ elements, lexeme ∈ lexemes element := by
  cases elements with
  | nil => cases member
  | cons first others =>
      rcases List.mem_append.mp member with member | member
      · exact .inr ⟨first, by simp, member⟩
      · obtain ⟨element, inside, place⟩ := List.mem_flatMap.mp member
        rcases List.mem_append.mp place with place | place
        · exact .inl place
        · exact .inr ⟨element, List.mem_cons_of_mem first inside, place⟩

/-- What holds of parentheses, of connectives and of the lexemes of all terms holds of every lexeme
of an expression. -/
theorem wording_forall {wording : Wording Term} {property : Lexeme → Prop}
    (parentheses : property (.symbol "(") ∧ property (.symbol ")"))
    (conjunction : ∀ lexeme ∈ wording.conjunction, property lexeme)
    (disjunction : ∀ lexeme ∈ wording.disjunction, property lexeme)
    (negation : ∀ lexemes, (∀ lexeme ∈ lexemes, property lexeme) →
      ∀ lexeme ∈ wording.negation lexemes, property lexeme)
    (terms : ∀ term, ∀ lexeme ∈ wording.term term, property lexeme)
    (expression : Logic Term) (surroundings : Binding) :
    ∀ lexeme ∈ wordingIn wording surroundings expression, property lexeme := by
  have inside {needed : Bool} {lexemes : List Lexeme}
      (all : ∀ lexeme ∈ lexemes, property lexeme) :
      ∀ lexeme ∈ enclosed needed lexemes, property lexeme := by
    cases needed with
    | false => exact all
    | true =>
        intro lexeme member
        rcases List.mem_append.mp member with member | member
        · rcases List.mem_cons.mp member with rfl | member
          · exact parentheses.1
          · exact all lexeme member
        · rw [List.mem_singleton.mp member]
          exact parentheses.2
  induction expression using Logic.induct generalizing surroundings with
  | term value => exact terms value
  | all items members =>
      rw [wordingIn, joined_wording_all]
      apply inside
      intro lexeme member
      rcases mem_joined member with member | ⟨item, place, member⟩
      · exact conjunction lexeme member
      · exact members item place _ lexeme member
  | any items members =>
      rw [wordingIn, joined_wording_all]
      apply inside
      intro lexeme member
      rcases mem_joined member with member | ⟨item, place, member⟩
      · exact disjunction lexeme member
      · exact members item place _ lexeme member
  | not item inner => exact negation _ (inner _)

theorem subset_joined {Element : Type} {between : List Lexeme} {lexemes : Element → List Lexeme}
    {elements : List Element} {element : Element} (member : element ∈ elements) :
    lexemes element ⊆ joined between lexemes elements := by
  intro lexeme place
  cases elements with
  | nil => cases member
  | cons first others =>
      rcases List.mem_cons.mp member with rfl | later
      · exact List.mem_append_left _ place
      · exact List.mem_append_right _
          (List.mem_flatMap.mpr ⟨element, later, List.mem_append_right _ place⟩)

theorem wording_of_term {wording : Wording Term} {expression : Logic Term} {term : Term}
    (negation : ∀ lexemes, lexemes ⊆ wording.negation lexemes) (member : term ∈ expression.terms)
    (surroundings : Binding) :
    wording.term term ⊆ wordingIn wording surroundings expression := by
  have inside (needed : Bool) (lexemes : List Lexeme) : lexemes ⊆ enclosed needed lexemes := by
    cases needed with
    | false => exact List.Subset.refl lexemes
    | true =>
        exact fun lexeme place => List.mem_cons_of_mem _ (List.mem_append_left _ place)
  induction expression using Logic.induct generalizing surroundings with
  | term value =>
      rw [Logic.terms, List.mem_singleton] at member
      subst member
      exact List.Subset.refl _
  | all items members =>
      rw [Logic.terms, Logic.terms_of_all] at member
      obtain ⟨item, place, own⟩ := List.mem_flatMap.mp member
      rw [wordingIn, joined_wording_all]
      exact List.Subset.trans (members item place own _)
        (List.Subset.trans (subset_joined place) (inside _ _))
  | any items members =>
      rw [Logic.terms, Logic.terms_of_all] at member
      obtain ⟨item, place, own⟩ := List.mem_flatMap.mp member
      rw [wordingIn, joined_wording_all]
      exact List.Subset.trans (members item place own _)
        (List.Subset.trans (subset_joined place) (inside _ _))
  | not item inner => exact List.Subset.trans (inner member _) (negation _)

/-- What an expression begins with, if parentheses, negations and all of its terms begin with it. -/
theorem wording_head {wording : Wording Term} {property : Lexeme → Prop} {expression : Logic Term}
    {surroundings : Binding} (parenthesis : property (.symbol "("))
    (negation : ∀ lexemes, ∃ head ∈ (wording.negation lexemes).head?, property head)
    (terms : ∀ term ∈ expression.terms, ∃ head ∈ (wording.term term).head?, property head)
    (filled : expression.hasEmptyGroup = false) :
    ∃ head ∈ (wordingIn wording surroundings expression).head?, property head := by
  have group {needed : Bool} {between : List Lexeme} {surroundings : Binding}
      {items : List (Logic Term)} (some : items ≠ []) (members : ∀ item ∈ items,
        ∃ head ∈ (wordingIn wording surroundings item).head?, property head) :
      ∃ head ∈ (enclosed needed (joined between id (wordingAll wording surroundings items))).head?,
        property head := by
    obtain ⟨first, others, rfl⟩ := List.exists_cons_of_ne_nil some
    cases needed with
    | true => exact ⟨_, rfl, parenthesis⟩
    | false =>
        obtain ⟨head, start, holds⟩ := members first (by simp)
        obtain ⟨tail, same⟩ := List.head?_eq_some_iff.mp start
        exact ⟨head, by simp [enclosed, joined, wordingAll, same], holds⟩
  induction expression using Logic.induct generalizing surroundings with
  | term value => exact terms value (by simp [Logic.terms])
  | all items members =>
      obtain ⟨some, parts⟩ := Logic.filled_group_iff.mp filled
      refine group some fun item member => members item member (fun term place => ?_)
        (parts item member)
      apply terms term
      rw [Logic.terms, Logic.terms_of_all]
      exact List.mem_flatMap.mpr ⟨item, member, place⟩
  | any items members =>
      obtain ⟨some, parts⟩ := Logic.filled_group_iff.mp filled
      refine group some fun item member => members item member (fun term place => ?_)
        (parts item member)
      apply terms term
      rw [Logic.terms, Logic.terms_of_all]
      exact List.mem_flatMap.mpr ⟨item, member, place⟩
  | not item inner => exact negation _

section Writing

variable {spelling : Spelling Term} {wording : Wording Term} {quoting : Quoting}

theorem spells_enclose {needed : Bool} {text : String} {lexemes : List Lexeme}
    (spells : Spells quoting text lexemes) :
    Spells quoting (encloseIf needed text) (enclosed needed lexemes) := by
  cases needed with
  | false => exact spells
  | true =>
      intro rest others _ scans
      have closing := Token.scans_closing scans
      have inner := spells _ _ (Token.breaks_closing rest) closing
      simpa [encloseIf, enclosed] using Token.scans_opening inner

theorem render_all_eq (surroundings : Binding) (items : List (Logic Term)) :
    renderAll spelling surroundings items = items.mapM (renderIn spelling surroundings) := by
  induction items with
  | nil => rfl
  | cons item rest induction => rw [renderAll, induction, List.mapM_cons]

theorem spells_group {needed : Bool} {inner : Binding} {separator text : String}
    {between : List Lexeme} {items : List (Logic Term)} (some : items ≠ [])
    (connects : Connects quoting separator between)
    (members : ∀ item ∈ items, ∀ text, renderIn spelling inner item = .ok text →
      Spells quoting text (wordingIn wording inner item))
    (rendered : (do
      let parts ← renderAll spelling inner items
      return encloseIf needed (String.intercalate separator parts)) = .ok text) :
    Spells quoting text (enclosed needed (joined between (wordingIn wording inner) items)) := by
  obtain ⟨parts, partsRendered, rendered⟩ := Success.of_bind rendered
  cases rendered
  rw [render_all_eq] at partsRendered
  exact spells_enclose
    (Token.spells_intercalate connects (Success.of_map_m members partsRendered) some)

theorem spells_render {surroundings : Binding} {expression : Logic Term} {text : String}
    (filled : expression.hasEmptyGroup = false)
    (terms : ∀ term ∈ expression.terms, ∀ text, spelling.term term = .ok text →
      Spells quoting text (wording.term term))
    (conjunction : Connects quoting spelling.conjunction wording.conjunction)
    (disjunction : Connects quoting spelling.disjunction wording.disjunction)
    (negation : ∀ text lexemes, Spells quoting text lexemes →
      Spells quoting (spelling.negation text) (wording.negation lexemes))
    (encloses : spelling.negationEncloses = wording.negationEncloses)
    (rendered : renderIn spelling surroundings expression = .ok text) :
    Spells quoting text (wordingIn wording surroundings expression) := by
  induction expression using Logic.induct generalizing surroundings text with
  | term value => exact terms value (by simp [Logic.terms]) text rendered
  | all items members =>
      obtain ⟨some, parts⟩ := Logic.filled_group_iff.mp filled
      rw [renderIn] at rendered
      rw [wordingIn, joined_wording_all]
      refine spells_group some conjunction (fun item member text rendered => ?_) rendered
      exact members item member (parts item member)
        (fun term place => terms term (Logic.mem_terms_of_all.mpr ⟨item, member, place⟩)) rendered
  | any items members =>
      obtain ⟨some, parts⟩ := Logic.filled_group_iff.mp filled
      rw [renderIn] at rendered
      rw [wordingIn, joined_wording_all]
      refine spells_group some disjunction (fun item member text rendered => ?_) rendered
      exact members item member (parts item member)
        (fun term place => terms term (Logic.mem_terms_of_all.mpr ⟨item, member, place⟩)) rendered
  | not item inner =>
      rw [renderIn] at rendered
      obtain ⟨innerText, innerRendered, rendered⟩ := Success.of_bind rendered
      cases rendered
      rw [wordingIn, Wording.negated, ← encloses]
      apply negation
      exact inner (by simpa only [Logic.hasEmptyGroup] using filled)
        (by simpa only [Logic.terms] using terms) innerRendered

theorem render_all_total {surroundings : Binding} {items : List (Logic Term)}
    (members : ∀ item ∈ items, ∃ text, renderIn spelling surroundings item = .ok text) :
    ∃ texts, renderAll spelling surroundings items = .ok texts := by
  rw [render_all_eq]
  exact Success.exists_map_m members

/-- An expression is written if all of its terms are. -/
theorem render_total {expression : Logic Term}
    (terms : ∀ term ∈ expression.terms, ∃ text, spelling.term term = .ok text)
    (surroundings : Binding) : ∃ text, renderIn spelling surroundings expression = .ok text := by
  induction expression using Logic.induct generalizing surroundings with
  | term value => exact terms value (by simp [Logic.terms])
  | all items members =>
      obtain ⟨texts, written⟩ := render_all_total fun item member => members item member
        (fun term place => terms term (Logic.mem_terms_of_all.mpr ⟨item, member, place⟩))
        .conjunction
      exact ⟨_, by rw [renderIn, written]; rfl⟩
  | any items members =>
      obtain ⟨texts, written⟩ := render_all_total fun item member => members item member
        (fun term place => terms term (Logic.mem_terms_of_all.mpr ⟨item, member, place⟩))
        .disjunction
      exact ⟨_, by rw [renderIn, written]; rfl⟩
  | not item inner =>
      obtain ⟨text, written⟩ := inner (by simpa only [Logic.terms] using terms)
        (if spelling.negationEncloses then .none else .negation)
      exact ⟨_, by rw [renderIn, written]; rfl⟩

theorem of_mem_render_all {surroundings : Binding} {items : List (Logic Term)}
    {texts : List String} (rendered : renderAll spelling surroundings items = .ok texts)
    {item : Logic Term} (member : item ∈ items) :
    ∃ text, renderIn spelling surroundings item = .ok text := by
  rw [render_all_eq] at rendered
  exact Success.of_mem_map_m rendered member

/-- All terms of an expression that is written are written. -/
theorem render_terms {surroundings : Binding} {expression : Logic Term} {text : String}
    (rendered : renderIn spelling surroundings expression = .ok text) :
    ∀ term ∈ expression.terms, ∃ text, spelling.term term = .ok text := by
  induction expression using Logic.induct generalizing surroundings text with
  | term value =>
      intro term place
      obtain rfl : term = value := by simpa [Logic.terms] using place
      exact ⟨text, rendered⟩
  | all items members | any items members =>
      intro term place
      rw [renderIn] at rendered
      obtain ⟨texts, textsRendered, _⟩ := Success.of_bind rendered
      obtain ⟨item, member, place⟩ := Logic.mem_terms_of_all.mp place
      obtain ⟨text, itemRendered⟩ := of_mem_render_all textsRendered member
      exact members item member itemRendered term place
  | not item inner =>
      rw [renderIn] at rendered
      obtain ⟨text, innerRendered, _⟩ := Success.of_bind rendered
      rw [Logic.terms]
      exact inner innerRendered

end Writing

mutual

/-- Whether every term can be read where it stands, given the lexemes behind the expression and
whether it stands side by side with what is before it. -/
def FitsIn (wording : Wording Term) (fits : Bool → Term → List Lexeme → Prop)
    (surroundings : Binding) (adjacent : Bool) : Logic Term → List Lexeme → Prop
  | .term term, next => fits adjacent term next
  | .all items, next =>
      let needed : Bool := Binding.conjunction.strength < surroundings.strength
      FitsAll wording fits wording.conjunction .conjunction (adjacent && !needed)
        wording.conjunction.isEmpty items (closed needed next)
  | .any items, next =>
      let needed : Bool := Binding.disjunction.strength < surroundings.strength
      FitsAll wording fits wording.disjunction .disjunction (adjacent && !needed) false items
        (closed needed next)
  | .not item, next =>
      FitsIn wording fits wording.negated false item (closed wording.negationEncloses next)

def FitsAll (wording : Wording Term) (fits : Bool → Term → List Lexeme → Prop)
    (between : List Lexeme) (surroundings : Binding) (first later : Bool) :
    List (Logic Term) → List Lexeme → Prop
  | [], _ => True
  | item :: rest, next =>
      FitsIn wording fits surroundings first item
          (behind between id (wordingAll wording surroundings rest) ++ next) ∧
        FitsAll wording fits between surroundings later later rest next

end

section Deciding

variable {wording : Wording Term} {fits : Bool → Term → List Lexeme → Prop}
  [∀ adjacent term next, Decidable (fits adjacent term next)]

mutual

def decideFits (surroundings : Binding) (adjacent : Bool) :
    ∀ expression next, Decidable (FitsIn wording fits surroundings adjacent expression next)
  | .term term, next => inferInstanceAs (Decidable (fits adjacent term next))
  | .all items, next =>
      let needed : Bool := Binding.conjunction.strength < surroundings.strength
      decideFitsAll wording.conjunction .conjunction (adjacent && !needed)
        wording.conjunction.isEmpty items (closed needed next)
  | .any items, next =>
      let needed : Bool := Binding.disjunction.strength < surroundings.strength
      decideFitsAll wording.disjunction .disjunction (adjacent && !needed) false items
        (closed needed next)
  | .not item, next => decideFits wording.negated false item (closed wording.negationEncloses next)

def decideFitsAll (between : List Lexeme) (surroundings : Binding) (first later : Bool) :
    ∀ items next, Decidable (FitsAll wording fits between surroundings first later items next)
  | [], _ => isTrue trivial
  | item :: rest, next =>
      have := decideFits surroundings first item
        (behind between id (wordingAll wording surroundings rest) ++ next)
      have := decideFitsAll between surroundings later later rest next
      inferInstanceAs (Decidable (_ ∧ _))

end

instance {surroundings : Binding} {adjacent : Bool} {expression : Logic Term} {next : List Lexeme} :
    Decidable (FitsIn wording fits surroundings adjacent expression next) :=
  decideFits surroundings adjacent expression next

end Deciding

section Reading

variable {wording : Wording Term} {fits : Bool → Term → List Lexeme → Prop}

theorem fits_all {between next : List Lexeme} {surroundings : Binding} {later : Bool}
    {items : List (Logic Term)} :
    FitsAll wording fits between surroundings later later items next ↔
      Along between (wordingIn wording surroundings)
        (FitsIn wording fits surroundings later) items next := by
  induction items with
  | nil => exact Iff.rfl
  | cons item rest induction =>
      rw [FitsAll, Along, induction, wording_all]
      simp [behind, List.flatMap_map]

theorem wording_conjunct {item : Logic Term} (single : item.isConjunction = false) :
    wordingIn wording .conjunction item = wordingIn wording .negation item := by
  cases item <;> simp_all [wordingIn, Logic.isConjunction, Binding.strength]

theorem fits_conjunct {item : Logic Term} {adjacent : Bool} {next : List Lexeme}
    (single : item.isConjunction = false) :
    FitsIn wording fits .conjunction adjacent item next ↔
      FitsIn wording fits .negation adjacent item next := by
  cases item <;> simp_all [FitsIn, Logic.isConjunction, Binding.strength]

theorem wording_disjunct {item : Logic Term} (single : item.isConjunction = false)
    (part : item.isDisjunction = false) :
    wordingIn wording .disjunction item = wordingIn wording .negation item := by
  cases item <;> simp_all [wordingIn, Logic.isConjunction, Logic.isDisjunction]

theorem fits_disjunct {item : Logic Term} {adjacent : Bool} {next : List Lexeme}
    (single : item.isConjunction = false) (part : item.isDisjunction = false) :
    FitsIn wording fits .disjunction adjacent item next ↔
      FitsIn wording fits .negation adjacent item next := by
  cases item <;> simp_all [FitsIn, Logic.isConjunction, Logic.isDisjunction]

theorem wording_whole {item : Logic Term} (part : item.isDisjunction = false) :
    wordingIn wording .none item = wordingIn wording .disjunction item := by
  cases item <;> simp_all [wordingIn, Logic.isDisjunction, Binding.strength]

theorem fits_whole {item : Logic Term} {adjacent : Bool} {next : List Lexeme}
    (part : item.isDisjunction = false) :
    FitsIn wording fits .none adjacent item next ↔
      FitsIn wording fits .disjunction adjacent item next := by
  cases item <;> simp_all [FitsIn, Logic.isDisjunction, Binding.strength]

theorem fits_all_of_follows {follows : List Lexeme → Prop} {between next : List Lexeme}
    {surroundings : Binding} {first later : Bool} {items : List (Logic Term)}
    (divides : ∀ next, follows (between ++ next))
    (members : ∀ item ∈ items, ∀ adjacent next, follows next →
      FitsIn wording fits surroundings adjacent item next)
    (admitted : follows next) :
    FitsAll wording fits between surroundings first later items next := by
  cases items with
  | nil => trivial
  | cons item rest =>
      have all := @Parser.along_of_follows _ _ _ (wordingIn wording surroundings)
        _ (item :: rest) divides admitted
      refine ⟨members item (by simp) _ _ ?_, fits_all.mpr ?_⟩
      · simpa [behind, wording_all, List.flatMap_map] using all.1
      · apply Parser.along_mono all.2
        intro other member following admitted
        exact members other (List.mem_cons_of_mem item member) _ _ admitted

/-- Every term fits where it stands if it fits before parentheses that close, before connectives
and before what follows the expression. -/
theorem fits_of_follows {follows : List Lexeme → Prop} {expression : Logic Term}
    {surroundings : Binding} {adjacent : Bool} {next : List Lexeme}
    (closing : ∀ next, follows (.symbol ")" :: next))
    (conjunction : ∀ next, follows (wording.conjunction ++ next))
    (disjunction : ∀ next, follows (wording.disjunction ++ next))
    (terms : ∀ term ∈ expression.terms, ∀ adjacent next, follows next → fits adjacent term next)
    (admitted : follows next) :
    FitsIn wording fits surroundings adjacent expression next := by
  have closedFollows : ∀ needed next, follows next → follows (closed needed next) := by
    intro needed next admitted
    cases needed with
    | false => exact admitted
    | true => exact closing next
  induction expression using Logic.induct generalizing surroundings adjacent next with
  | term value => exact terms value (by simp [Logic.terms]) adjacent next admitted
  | all items members =>
      refine fits_all_of_follows conjunction (fun item member adjacent next admitted => ?_)
        (closedFollows _ _ admitted)
      exact members item member
        (fun term place => terms term (Logic.mem_terms_of_all.mpr ⟨item, member, place⟩)) admitted
  | any items members =>
      refine fits_all_of_follows disjunction (fun item member adjacent next admitted => ?_)
        (closedFollows _ _ admitted)
      exact members item member
        (fun term place => terms term (Logic.mem_terms_of_all.mpr ⟨item, member, place⟩)) admitted
  | not item inner =>
      exact inner (by simpa only [Logic.terms] using terms) (closedFollows _ _ admitted)

theorem fits_of_mem_all {between : List Lexeme} {surroundings : Binding} {first later : Bool}
    {items : List (Logic Term)} {next : List Lexeme}
    (fit : FitsAll wording fits between surroundings first later items next) {item : Logic Term}
    (member : item ∈ items) : ∃ adjacent next, FitsIn wording fits surroundings adjacent item next := by
  induction items generalizing first with
  | nil => cases member
  | cons other rest induction =>
      rcases List.mem_cons.mp member with rfl | member
      · exact ⟨_, _, fit.1⟩
      · exact induction fit.2 member

theorem fits_terms {expression : Logic Term} {surroundings : Binding} {adjacent : Bool}
    {next : List Lexeme} (fit : FitsIn wording fits surroundings adjacent expression next) :
    ∀ term ∈ expression.terms, ∃ adjacent next, fits adjacent term next := by
  induction expression using Logic.induct generalizing surroundings adjacent next with
  | term value =>
      intro term place
      obtain rfl : term = value := by simpa [Logic.terms] using place
      exact ⟨adjacent, next, fit⟩
  | all items members | any items members =>
      intro term place
      obtain ⟨item, member, place⟩ := Logic.mem_terms_of_all.mp place
      obtain ⟨_, _, itemFit⟩ := fits_of_mem_all fit member
      exact members item member itemFit term place
  | not item inner =>
      rw [Logic.terms]
      exact inner fit

theorem fits_all_mono {weaker : Bool → Term → List Lexeme → Prop} {between : List Lexeme}
    {surroundings : Binding} {first later : Bool} {items : List (Logic Term)} {next : List Lexeme}
    (members : ∀ item ∈ items, ∀ {adjacent next}, FitsIn wording fits surroundings adjacent item next →
      FitsIn wording weaker surroundings adjacent item next)
    (fit : FitsAll wording fits between surroundings first later items next) :
    FitsAll wording weaker between surroundings first later items next := by
  induction items generalizing first with
  | nil => trivial
  | cons item rest induction =>
      refine ⟨members item (by simp) fit.1, induction ?_ fit.2⟩
      intro other member
      exact members other (List.mem_cons_of_mem item member)

theorem fits_mono {weaker : Bool → Term → List Lexeme → Prop} {expression : Logic Term}
    {surroundings : Binding} {adjacent : Bool} {next : List Lexeme}
    (implies : ∀ term ∈ expression.terms, ∀ adjacent next, fits adjacent term next →
      weaker adjacent term next)
    (fit : FitsIn wording fits surroundings adjacent expression next) :
    FitsIn wording weaker surroundings adjacent expression next := by
  induction expression using Logic.induct generalizing surroundings adjacent next with
  | term value => exact implies value (by simp [Logic.terms]) adjacent next fit
  | all items members | any items members =>
      refine fits_all_mono (fun item member _ _ itemFit => ?_) fit
      exact members item member
        (fun term place => implies term (Logic.mem_terms_of_all.mpr ⟨item, member, place⟩)) itemFit
  | not item inner => exact inner (by simpa only [Logic.terms] using implies) fit

end Reading

end DetectionRules.Expression
