import DetectionRules.Proofs.Glob
import DetectionRules.Proofs.Rule

/-!
Events, and the tests that hold for them. A row of pieces stands for the texts
that it covers: a glob is such a row, and so is what a regular expression looks
for if it was made from literal text. What is asked of regular expressions is
asked of those only.
-/

namespace DetectionRules

/-- A character that stands for itself, or any run of characters within a line. -/
inductive Piece where
  | literal (c : Char)
  | run

namespace Piece

def Cover : List Piece → List Char → Prop
  | [], text => text = []
  | literal c :: pieces, text => ∃ rest, text = c :: rest ∧ Cover pieces rest
  | run :: pieces, text => ∃ front rest, text = front ++ rest ∧ '\n' ∉ front ∧ Cover pieces rest

theorem cover_literals (characters text : List Char) :
    Cover (characters.map literal) text ↔ text = characters := by
  induction characters generalizing text with
  | nil => rfl
  | cons c rest induction => simp [Cover, induction]

theorem cover_append (first second : List Piece) (text : List Char) :
    Cover (first ++ second) text ↔
      ∃ front back, text = front ++ back ∧ Cover first front ∧ Cover second back := by
  induction first generalizing text with
  | nil => simp [Cover]
  | cons piece rest induction =>
      cases piece with
      | literal c =>
          simp only [List.cons_append, Cover, induction]
          constructor
          · rintro ⟨_, rfl, front, back, rfl, covered, others⟩
            exact ⟨c :: front, back, rfl, ⟨front, rfl, covered⟩, others⟩
          · rintro ⟨_, back, rfl, ⟨front, rfl, covered⟩, others⟩
            exact ⟨front ++ back, rfl, front, back, rfl, covered, others⟩
      | run =>
          simp only [List.cons_append, Cover, induction]
          constructor
          · rintro ⟨run, _, rfl, line, front, back, rfl, covered, others⟩
            exact ⟨run ++ front, back, by simp, ⟨run, front, rfl, line, covered⟩, others⟩
          · rintro ⟨_, back, rfl, ⟨run, front, rfl, line, covered⟩, others⟩
            exact ⟨run, front ++ back, by simp, line, front, back, rfl, covered, others⟩

theorem cover_run (text : List Char) : Cover [run] text ↔ '\n' ∉ text := by
  constructor
  · rintro ⟨front, _, rfl, line, rfl⟩
    simpa using line
  · exact fun line => ⟨text, [], by simp, line, rfl⟩

def regex : Piece → List Char
  | literal c => Regex.escapeChars [c]
  | run => ['.', '*']

def front? : List Char → Option (Piece × List Char)
  | '\\' :: c :: rest => some (literal c, rest)
  | '.' :: '*' :: rest => some (run, rest)
  | c :: rest => if Regex.isMeta c then none else some (literal c, rest)
  | [] => none

theorem front_regex (piece : Piece) (rest : List Char) :
    front? (piece.regex ++ rest) = some (piece, rest) := by
  cases piece with
  | run => rfl
  | literal c =>
      by_cases special : Regex.isMeta c = true
      · simp [regex, Regex.escapeChars, special, front?]
      · have noSlash : c ≠ '\\' := by
          rintro rfl
          exact special (by decide)
        have noPoint : c ≠ '.' := by
          rintro rfl
          exact special (by decide)
        simp [regex, Regex.escapeChars, special, front?, noSlash, noPoint]

end Piece

namespace Glob

variable {wildcard : Char}

def pieces (wildcard : Char) (glob : List Char) : List Piece :=
  glob.map fun c => if c = wildcard then .run else .literal c

theorem pieces_plain {glob : List Char} (plain : wildcard ∉ glob) :
    pieces wildcard glob = glob.map .literal :=
  List.map_congr_left fun c member => if_neg fun same : c = wildcard => plain (same ▸ member)

theorem pieces_append (first second : List Char) :
    pieces wildcard (first ++ second) = pieces wildcard first ++ pieces wildcard second :=
  List.map_append

theorem body_eq (glob : List Char) :
    toRegex.body wildcard glob = (pieces wildcard glob).flatMap Piece.regex := by
  induction glob with
  | nil => rfl
  | cons c rest induction =>
      have first : pieces wildcard (c :: rest) =
          (if c = wildcard then .run else .literal c) :: pieces wildcard rest := rfl
      rw [toRegex.body, induction, first, List.flatMap_cons]
      split <;> rfl

end Glob

namespace Regex

/-- A regular expression of pieces, which may be tied to the start and to the end of a text. -/
structure Simple where
  pieces : List Piece
  fromStart : Bool := false
  toEnd : Bool := false

namespace Simple

def characters (expression : Simple) : List Char :=
  (if expression.fromStart then ['^'] else []) ++ expression.pieces.flatMap Piece.regex ++
    if expression.toEnd then ['$'] else []

def text (expression : Simple) : String := String.ofList expression.characters

/-- Some part of the text is covered. -/
def Finds (expression : Simple) (text : List Char) : Prop :=
  ∃ front middle back, text = front ++ middle ++ back ∧
    (expression.fromStart = true → front = []) ∧ (expression.toEnd = true → back = []) ∧
    Piece.Cover expression.pieces middle

end Simple

namespace Simple

theorem pieces_unique {first second : List Piece} {ends alsoEnds : Bool}
    (same : first.flatMap Piece.regex ++ (if ends then ['$'] else []) =
      second.flatMap Piece.regex ++ if alsoEnds then ['$'] else []) :
    first = second ∧ ends = alsoEnds := by
  have none (ends : Bool) : Piece.front? (if ends then ['$'] else []) = none := by
    cases ends <;> rfl
  induction first generalizing second with
  | nil =>
      cases second with
      | nil => cases ends <;> cases alsoEnds <;> simp_all
      | cons piece rest =>
          have front := congrArg Piece.front? same
          rw [List.flatMap_nil, List.nil_append, none, List.flatMap_cons, List.append_assoc,
            Piece.front_regex] at front
          cases front
  | cons piece rest induction =>
      have front := congrArg Piece.front? same
      rw [List.flatMap_cons, List.append_assoc, Piece.front_regex] at front
      cases second with
      | nil =>
          rw [List.flatMap_nil, List.nil_append, none] at front
          cases front
      | cons other others =>
          rw [List.flatMap_cons, List.append_assoc, Piece.front_regex] at front
          obtain ⟨rfl, behind⟩ := Prod.mk.inj (Option.some.inj front)
          obtain ⟨rfl, rfl⟩ := induction behind
          exact ⟨rfl, rfl⟩

theorem text_injective : Function.Injective text := by
  rintro ⟨pieces, fromStart, toEnd⟩ ⟨others, alsoStart, alsoEnd⟩ same
  have same : characters ⟨pieces, fromStart, toEnd⟩ = characters ⟨others, alsoStart, alsoEnd⟩ := by
    simpa [text] using congrArg String.toList same
  have inner (pieces : List Piece) (toEnd : Bool) (rest : List Char) :
      pieces.flatMap Piece.regex ++ (if toEnd then ['$'] else []) ≠ '^' :: rest := by
    intro tied
    have front := congrArg Piece.front? tied
    cases pieces with
    | nil => cases toEnd <;> simp at tied
    | cons piece rest =>
        rw [List.flatMap_cons, List.append_assoc, Piece.front_regex] at front
        cases front
  cases fromStart <;> cases alsoStart
  · obtain ⟨rfl, rfl⟩ := pieces_unique same
    rfl
  · exact absurd same (inner _ _ _)
  · exact absurd same.symm (inner _ _ _)
  · obtain ⟨rfl, rfl⟩ := pieces_unique (List.cons.inj same).2
    rfl

end Simple

theorem escape_chars_eq (characters : List Char) :
    escapeChars characters = (characters.map Piece.literal).flatMap Piece.regex := by
  rw [escapeChars, List.flatMap_map]
  exact List.flatMap_congr fun c _ => by simp [Piece.regex, escapeChars]

end Regex

/-- Whether a regular expression, which comes first, is found in a text. -/
abbrev Search := String → String → Bool

/-- An escaped text is found where it stands, `^` and `$` tie to the start and to the end, and `.*`
is any run within a line. -/
def Search.IsRegex (search : Search) : Prop :=
  ∀ (expression : Regex.Simple) (text : String),
    search expression.text text = true ↔ expression.Finds text.toList

/-- The search that finds simple expressions and no others. -/
noncomputable def Search.simple : Search := fun pattern text =>
  @decide (∃ expression : Regex.Simple, expression.text = pattern ∧ expression.Finds text.toList)
    (Classical.propDecidable _)

theorem Search.simple_is_regex : Search.simple.IsRegex := by
  intro expression text
  simp only [simple, decide_eq_true_eq]
  constructor
  · rintro ⟨other, same, found⟩
    rwa [← Regex.Simple.text_injective same]
  · exact fun found => ⟨expression, rfl, found⟩

/-- The texts that an event has for a field. -/
abbrev Event := String → List String

namespace Event

/-- No text of the event has more than one line. -/
def IsLinear (event : Event) : Prop := ∀ field, ∀ text ∈ event field, '\n' ∉ text.toList

end Event

/-- Whether a text passes a test for a value. -/
def Operator.accepts (search : Search) (op : Operator) (value text : String) : Bool :=
  match op with
  | equals => text == value
  | contains => decide (value.toList <:+: text.toList)
  | startsWith => value.toList.isPrefixOf text.toList
  | endsWith => value.toList.isSuffixOf text.toList
  | regex => search value text
  | gt => compares fun number bound => bound < number
  | gte => compares fun number bound => bound ≤ number
  | lt => compares fun number bound => number < bound
  | lte => compares fun number bound => number ≤ bound
where
  compares (holds : Int → Int → Bool) : Bool :=
    match Value.canonicalInt? text.toList, Value.canonicalInt? value.toList with
    | some number, some bound => holds number bound
    | _, _ => false

/-- The tests that hold for an event. -/
def Event.truth (search : Search) (event : Event) : Truth :=
  fun field op value => (event field).any (op.accepts search value)

namespace Search.IsRegex

variable {search : Search}

theorem simple_apply (isRegex : search.IsRegex) {pattern : String} (expression : Regex.Simple)
    (same : pattern.toList = expression.characters) (text : String) :
    search pattern text = true ↔ expression.Finds text.toList := by
  rw [← isRegex, Regex.Simple.text, ← same, String.ofList_toList]

theorem literal_apply (isRegex : search.IsRegex) {pattern literal : String} (fromStart toEnd : Bool)
    (same : pattern.toList = (if fromStart then ['^'] else []) ++ Regex.escapeChars literal.toList ++
      if toEnd then ['$'] else []) (text : String) :
    search pattern text = true ↔ ∃ front back, text.toList = front ++ literal.toList ++ back ∧
      (fromStart = true → front = []) ∧ (toEnd = true → back = []) := by
  rw [isRegex.simple_apply ⟨literal.toList.map .literal, fromStart, toEnd⟩]
  · constructor
    · rintro ⟨front, middle, back, whole, start, ending, covered⟩
      obtain rfl := (Piece.cover_literals _ _).mp covered
      exact ⟨front, back, whole, start, ending⟩
    · rintro ⟨front, back, whole, start, ending⟩
      exact ⟨front, _, back, whole, start, ending, (Piece.cover_literals _ _).mpr rfl⟩
  · rw [same, Regex.Simple.characters, ← Regex.escape_chars_eq]

theorem glob_apply (isRegex : search.IsRegex) {wildcard : Char} (glob : List Char) (text : String) :
    search (String.ofList (Glob.toRegex wildcard glob)) text = true ↔
      Piece.Cover (Glob.pieces wildcard glob) text.toList := by
  rw [isRegex.simple_apply ⟨Glob.pieces wildcard glob, true, true⟩]
  · constructor
    · rintro ⟨front, middle, back, whole, start, ending, covered⟩
      rwa [whole, start rfl, ending rfl, List.nil_append, List.append_nil]
    · exact fun covered => ⟨[], text.toList, [], by simp, fun _ => rfl, fun _ => rfl, covered⟩
  · rw [String.toList_ofList, Glob.toRegex, Glob.body_eq]
    rfl

end Search.IsRegex

namespace Glob

variable {wildcard : Char} {search : Search} {text : String}

theorem cover_between (line : '\n' ∉ text.toList) (inner : List Char) (before after : Bool) :
    Piece.Cover ((if before then [.run] else []) ++ inner.map .literal ++
      if after then [.run] else []) text.toList ↔
    ∃ front back, text.toList = front ++ inner ++ back ∧
      (before = false → front = []) ∧ (after = false → back = []) := by
  have ends (some : Bool) (part : List Char) (clean : '\n' ∉ part) :
      Piece.Cover (if some then [.run] else []) part ↔ (some = false → part = []) := by
    cases some with
    | false => simp [Piece.Cover]
    | true => simp [Piece.cover_run, clean]
  rw [Piece.cover_append]
  constructor
  · rintro ⟨middle, back, whole, covered, last⟩
    obtain ⟨front, own, rfl, first, same⟩ := (Piece.cover_append _ _ _).mp covered
    obtain rfl := (Piece.cover_literals _ _).mp same
    rw [whole] at line
    simp only [List.mem_append, not_or] at line
    exact ⟨front, back, whole, (ends _ _ line.1.1).mp first, (ends _ _ line.2).mp last⟩
  · rintro ⟨front, back, whole, first, last⟩
    rw [whole] at line
    simp only [List.mem_append, not_or] at line
    exact ⟨front ++ inner, back, whole, (Piece.cover_append _ _ _).mpr
      ⟨front, inner, rfl, (ends _ _ line.1.1).mpr first, (Piece.cover_literals _ _).mpr rfl⟩,
      (ends _ _ line.2).mpr last⟩

/-- The operator for a text with wildcards before it, after it or on both sides. -/
def partOperator (before after : Bool) : Operator :=
  if before then if after then .contains else .endsWith else .startsWith

/-- What a glob is that is classified: a plain text, one with wildcards at its ends, or one that
only an expression stands for. -/
theorem shape_of_classify {op : Operator} {glob inner : List Char}
    (classified : classify wildcard glob = (op, inner)) :
    op = .equals ∧ wildcard ∉ glob ∧ inner = glob ∨
      op = .regex ∧ inner = toRegex wildcard glob ∨
      ∃ before after, op = partOperator before after ∧ wildcard ∉ inner ∧
        (before || after) = true ∧ glob =
          (if before then [wildcard] else []) ++ inner ++ if after then [wildcard] else [] := by
  rw [classify] at classified
  split at classified
  · rename_i plain
    cases classified
    exact .inl ⟨rfl, by simpa using plain, rfl⟩
  · rename_i has
    have has : wildcard ∈ glob := by simpa using has
    extract_lets leading trailing afterFirst middle at classified
    split at classified
    · cases classified
      exact .inr (.inl ⟨rfl, rfl⟩)
    · rename_i other
      obtain ⟨filled, plain⟩ : middle ≠ [] ∧ wildcard ∉ middle := by simpa using other
      have first : glob = (if leading then [wildcard] else []) ++ afterFirst := by
        by_cases starts : leading = true
        · have head : glob.head? = some wildcard := by simpa [leading] using starts
          obtain ⟨rest, rfl⟩ := List.head?_eq_some_iff.mp head
          simp [afterFirst, starts]
        · simp [afterFirst, starts]
      have last : afterFirst = middle ++ if trailing then [wildcard] else [] := by
        by_cases ends : trailing = true
        · obtain ⟨long, final⟩ : 1 < glob.length ∧ glob.getLast? = some wildcard := by
            simpa [trailing] using ends
          have filled : afterFirst ≠ [] := by
            intro empty
            rw [first, empty] at long
            split at long <;> simp at long
          rw [first, List.getLast?_append_of_ne_nil _ filled] at final
          obtain ⟨front, whole⟩ := List.getLast?_eq_some_iff.mp final
          simp [middle, ends, whole]
        · simp [middle, ends]
      rw [last, ← List.append_assoc] at first
      clear_value middle afterFirst leading trailing
      cases leading <;> cases trailing <;> cases classified
      · rw [first] at has
        exact absurd (by simpa using has) plain
      all_goals exact .inr (.inr ⟨_, _, rfl, plain, rfl, first⟩)

theorem accepts_part (line : '\n' ∉ text.toList) (inner : List Char) {before after : Bool}
    (some : (before || after) = true) :
    (partOperator before after).accepts search (String.ofList inner) text = true ↔
      Piece.Cover ((if before then [.run] else []) ++ inner.map .literal ++
        if after then [.run] else []) text.toList := by
  rw [cover_between line]
  cases before <;> cases after
  · cases some
  · change (String.ofList inner).toList.isPrefixOf text.toList = true ↔ _
    rw [String.toList_ofList, List.isPrefixOf_iff_prefix]
    constructor
    · rintro ⟨back, whole⟩
      exact ⟨[], back, by simp [whole], fun _ => rfl, nofun⟩
    · rintro ⟨front, back, whole, first, _⟩
      exact ⟨back, by rw [whole, first rfl, List.nil_append]⟩
  · change (String.ofList inner).toList.isSuffixOf text.toList = true ↔ _
    rw [String.toList_ofList, List.isSuffixOf_iff_suffix]
    constructor
    · rintro ⟨front, whole⟩
      exact ⟨front, [], by simp [whole], nofun, fun _ => rfl⟩
    · rintro ⟨front, back, whole, _, last⟩
      exact ⟨front, by rw [whole, last rfl, List.append_nil]⟩
  · change decide ((String.ofList inner).toList <:+: text.toList) = true ↔ _
    rw [String.toList_ofList, decide_eq_true_iff]
    constructor
    · rintro ⟨front, back, whole⟩
      exact ⟨front, back, whole.symm, nofun, nofun⟩
    · rintro ⟨front, back, whole, _⟩
      exact ⟨front, back, whole.symm⟩

/-- The operator of a glob accepts what the glob covers. -/
theorem accepts_classified (isRegex : search.IsRegex) (line : '\n' ∉ text.toList)
    {op : Operator} {glob inner : List Char} (classified : classify wildcard glob = (op, inner)) :
    op.accepts search (String.ofList inner) text = true ↔
      Piece.Cover (pieces wildcard glob) text.toList := by
  rcases shape_of_classify classified with
    ⟨rfl, plain, rfl⟩ | ⟨rfl, rfl⟩ | ⟨before, after, rfl, plain, some, rfl⟩
  · rw [pieces_plain plain, Piece.cover_literals, Operator.accepts, beq_iff_eq,
      ← String.toList_inj, String.toList_ofList]
  · exact isRegex.glob_apply glob text
  · rw [accepts_part line inner some, pieces_append, pieces_append, pieces_plain plain]
    cases before <;> cases after <;> simp [pieces]

/-- The texts that a glob matches: the wildcard stands for any run of characters, and any other
character for itself. -/
inductive Matches (wildcard : Char) : List Char → List Char → Prop
  | nil : Matches wildcard [] []
  | letter {c : Char} {glob text : List Char} (other : c ≠ wildcard)
      (rest : Matches wildcard glob text) : Matches wildcard (c :: glob) (c :: text)
  | run (front : List Char) {glob text : List Char} (rest : Matches wildcard glob text) :
      Matches wildcard (wildcard :: glob) (front ++ text)

/-- Within a line any run of characters is one that the pieces of a glob cover. -/
theorem matches_iff_cover {glob text : List Char} (line : '\n' ∉ text) :
    Matches wildcard glob text ↔ Piece.Cover (pieces wildcard glob) text := by
  have first (c : Char) (glob : List Char) : pieces wildcard (c :: glob) =
      (if c = wildcard then .run else .literal c) :: pieces wildcard glob := rfl
  constructor
  · intro matched
    induction matched with
    | nil => rfl
    | letter other _ induction =>
        rw [first, if_neg other]
        exact ⟨_, rfl, induction fun member => line (List.mem_cons_of_mem _ member)⟩
    | run front _ induction =>
        rw [List.mem_append, not_or] at line
        rw [first, if_pos rfl]
        exact ⟨front, _, rfl, line.1, induction line.2⟩
  · intro covered
    induction glob generalizing text with
    | nil =>
        obtain rfl : text = [] := covered
        exact .nil
    | cons c glob induction =>
        rw [first] at covered
        split at covered
        · rename_i same
          obtain ⟨front, rest, rfl, _, covered⟩ := covered
          rw [List.mem_append, not_or] at line
          rw [same]
          exact .run front (induction line.2 covered)
        · rename_i other
          obtain ⟨rest, rfl, covered⟩ := covered
          exact .letter other (induction (fun member => line (List.mem_cons_of_mem c member)) covered)

theorem operator_of_classify {op : Operator} {glob inner : List Char}
    (classified : classify wildcard glob = (op, inner)) (other : op ≠ .regex) :
    ofOperator? wildcard inner op = some glob := by
  rcases shape_of_classify classified with
    ⟨rfl, _, rfl⟩ | ⟨rfl, _⟩ | ⟨before, after, rfl, _, some, rfl⟩
  · rfl
  · exact absurd rfl other
  · cases before <;> cases after
    · cases some
    · simp [partOperator, ofOperator?]
    · simp [partOperator, ofOperator?]
    · simp [partOperator, ofOperator?]

/-- What a glob is classified as accepts what the glob matches and stands for no other glob, and
each operator that has globs is found in its own. -/
theorem classify_exact (isRegex : search.IsRegex) (wildcard : Char) :
    (∀ op glob inner, classify wildcard glob = (op, inner) →
      (∀ text : String, '\n' ∉ text.toList →
        (op.accepts search (String.ofList inner) text = true ↔
          Matches wildcard glob text.toList)) ∧
      (op ≠ .regex → ofOperator? wildcard inner op = some glob)) ∧
    ∀ op ∈ [Operator.equals, .contains, .startsWith, .endsWith], ∀ text ≠ [], wildcard ∉ text →
      ∃ glob, ofOperator? wildcard text op = some glob ∧ classify wildcard glob = (op, text) := by
  refine ⟨fun op glob inner classified => ⟨fun text line => ?_, operator_of_classify classified⟩,
    fun op member text filled plain => ?_⟩
  · rw [accepts_classified isRegex line classified, matches_iff_cover line]
  · have written : ∃ glob, ofOperator? wildcard text op = some glob := by
      simp only [List.mem_cons, List.not_mem_nil, or_false] at member
      rcases member with rfl | rfl | rfl | rfl <;> exact ⟨_, rfl⟩
    obtain ⟨glob, written⟩ := written
    exact ⟨glob, written, classify_of_operator plain (fun _ => filled) written⟩

theorem inner_wildcard_exact : Search.simple.IsRegex ∧
    classify '*' "a*b".toList = (.regex, "^a.*b$".toList) ∧
    ∀ text : String, '\n' ∉ text.toList →
      (Search.simple (String.ofList "^a.*b$".toList) text = true ↔
        Matches '*' "a*b".toList text.toList) :=
  ⟨Search.simple_is_regex, by decide,
    ((classify_exact Search.simple_is_regex '*').1 .regex _ _ (by decide)).1⟩

end Glob

end DetectionRules
