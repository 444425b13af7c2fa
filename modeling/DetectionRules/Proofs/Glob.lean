import DetectionRules.Regex.Validity
import DetectionRules.Rule.FieldTest
import Mathlib.Data.List.Basic

/-!
Globs. An operator with a text that has no wildcard is read back from its glob,
and a glob that no operator stands for becomes a valid regular expression.
-/

namespace DetectionRules

def Operator.isPart : Operator → Bool
  | .contains | .startsWith | .endsWith => true
  | _ => false

namespace Glob

variable {wildcard : Char}

theorem classify_of_operator {op : Operator} {text glob : List Char}
    (plain : wildcard ∉ text) (filled : op ≠ .equals → text ≠ [])
    (written : ofOperator? wildcard text op = some glob) : classify wildcard glob = (op, text) := by
  cases op with
  | equals =>
      cases written
      simp [classify, plain]
  | contains =>
      cases written
      have some := filled (by simp)
      simp [classify, List.getLast?_cons, some, plain]
  | startsWith =>
      cases written
      obtain ⟨c, rest, rfl⟩ := List.exists_cons_of_ne_nil (filled (by simp))
      have first : (c == wildcard) = false := by
        rw [beq_eq_false_iff_ne]
        rintro rfl
        exact plain (by simp)
      have last : (c :: (rest ++ [wildcard])).getLast? = some wildcard := by
        rw [← List.cons_append, List.getLast?_concat]
      have front : (c :: (rest ++ [wildcard])).dropLast = c :: rest := by
        rw [← List.cons_append, List.dropLast_concat]
      simp [classify, first, last, front, plain]
  | endsWith =>
      cases written
      obtain ⟨front, last, rfl⟩ := (List.eq_nil_or_concat text).resolve_left (filled (by simp))
      have other : (last == wildcard) = false := by
        rw [beq_eq_false_iff_ne]
        rintro rfl
        exact plain (by simp)
      have text : wildcard ∉ front ++ [last] := by simpa using plain
      have final : (wildcard :: (front ++ [last])).getLast? = some last := by
        rw [← List.cons_append, List.getLast?_concat]
      rw [List.concat_eq_append]
      simp only [classify]
      simp [other, final, text]
  | _ => cases written

/-- A test is read back from its glob, and only a plain text may be read as a number. -/
theorem test_of_glob {op : Operator} {text : String} {glob : List Char}
    (plain : wildcard ∉ text.toList) (filled : op ≠ .equals → text ≠ "")
    (written : ofOperator? wildcard text.toList op = some glob) (field : String) :
    FieldTest.ofGlob field wildcard (String.ofList glob) = .single field op
      (if op = .equals then Value.ofLiteral text else .str text) := by
  have classified := classify_of_operator plain (fun other => by simpa using filled other) written
  rw [FieldTest.ofGlob, String.toList_ofList, classified]
  cases op <;> simp

/-- A glob stands for a text, for a text with something before or after it, or for an expression. -/
theorem of_classify {op : Operator} {glob text : List Char}
    (classified : classify wildcard glob = (op, text)) :
    op = .equals ∨ op = .regex ∧ text = toRegex wildcard glob ∨
      (op = .contains ∨ op = .startsWith ∨ op = .endsWith) ∧ text ≠ [] := by
  rw [classify] at classified
  split at classified
  · cases classified
    exact .inl rfl
  · extract_lets leading trailing afterFirst inner at classified
    split at classified
    · cases classified
      exact .inr (.inl ⟨rfl, rfl⟩)
    · rename_i other
      have filled : inner ≠ [] := by
        rintro empty
        simp [empty] at other
      clear_value inner afterFirst leading trailing
      cases leading with
      | true =>
          cases trailing with
          | true =>
              cases classified
              exact .inr (.inr ⟨.inl rfl, filled⟩)
          | false =>
              cases classified
              exact .inr (.inr ⟨.inr (.inr rfl), filled⟩)
      | false =>
          cases trailing with
          | true =>
              cases classified
              exact .inr (.inr ⟨.inr (.inl rfl), filled⟩)
          | false =>
              cases classified
              exact .inl rfl

end Glob

namespace Regex

def startMode : Mode := ⟨false, true⟩

/-- What has been read of an expression without groups and branches, whose parts are characters
and repeated characters. -/
structure IsFlat (reading : Reading) : Prop where
  mode : reading.mode = startMode
  outer : reading.outer = []
  branches : reading.group.branches = []
  parts : ∀ part ∈ reading.group.parts, part.height ≤ 1

theorem IsFlat.add {reading : Reading} {height : Nat} (flat : IsFlat reading)
    (small : height ≤ 1) : IsFlat (reading.add height) := by
  refine ⟨flat.mode, flat.outer, flat.branches, fun part member => ?_⟩
  rcases List.mem_cons.mp member with rfl | member
  · exact small
  · exact flat.parts part member

theorem height_over_le {heights : List Nat} {bound : Nat} (all : ∀ height ∈ heights, height ≤ bound) :
    heightOver heights ≤ bound + 1 := by
  have fold : ∀ start ≤ bound, heights.foldl max start ≤ bound := by
    induction heights with
    | nil => exact fun start small => small
    | cons height rest induction =>
        intro start small
        have inner := induction fun other member => all other (List.mem_cons_of_mem height member)
        exact inner _ (Nat.max_le.mpr ⟨small, all height (by simp)⟩)
  exact Nat.succ_le_succ (fold 0 (Nat.zero_le bound))

theorem height_of_le {heights : List Nat} {bound : Nat} (all : ∀ height ∈ heights, height ≤ bound) :
    heightOf heights ≤ bound + 1 := by
  match heights with
  | [] => exact Nat.zero_le _
  | [height] => exact Nat.le_succ_of_le (all height (by simp))
  | first :: second :: others => exact height_over_le all

theorem IsFlat.height_le {reading : Reading} (flat : IsFlat reading) :
    reading.group.height ≤ 2 := by
  rw [OpenGroup.height, flat.branches]
  change heightOf (reading.group.parts.map (·.height)) ≤ 2
  apply height_of_le
  intro height member
  obtain ⟨part, inside, rfl⟩ := List.mem_map.mp member
  exact flat.parts part inside

theorem height_step {reading next : Reading} {c : Char} {rest left : List Char}
    (mode : reading.mode = startMode) (step : reading.step? c rest = some (next, left))
    (shorter : left.length ≤ rest.length) : height? reading (c :: rest) = height? next left := by
  have whole : reading.mode.skip (c :: rest) = c :: rest := by rw [mode]; rfl
  rw [height?, whole]
  simp only [step]
  rw [if_pos (by simpa using Nat.lt_succ_of_le shorter)]

theorem step_literal {reading : Reading} {c : Char} {rest : List Char} (flat : IsFlat reading)
    (plain : isMeta c = false) : reading.step? c rest = some (reading.add 0, rest) := by
  have other : ∀ d, isMeta d = true → c ≠ d := by
    rintro d isMeta rfl
    rw [plain] at isMeta
    cases isMeta
  unfold Reading.step?
  split
  all_goals first
    | exact absurd rfl (other _ (by decide))
    | simp [Reading.atom?, Atom.isLegal, flat.mode, startMode]

theorem step_escaped {reading : Reading} {c : Char} {rest : List Char} (flat : IsFlat reading)
    (special : isMeta c = true) : reading.step? '\\' (c :: rest) = some (reading.add 0, rest) := by
  have escaped : escape? startMode (c :: rest) = some (.literal c false, rest) := by
    have cases : c ∈ "\\.+*?()|[]\x7b\x7d^$#&-~".toList := by
      simpa [isMeta] using special
    simp at cases
    rcases cases with rfl | rfl | rfl | rfl | rfl | rfl | rfl | rfl | rfl | rfl | rfl | rfl | rfl |
      rfl | rfl | rfl | rfl | rfl
    all_goals rfl
  simp only [Reading.step?, flat.mode, escaped]
  simp [Reading.atom?, Atom.isLegal, flat.mode, startMode]

theorem steps_wildcard {reading : Reading} {rest : List Char} (flat : IsFlat reading)
    (front : rest.head? ≠ some '?') :
    ∃ next, IsFlat next ∧ height? reading ('.' :: '*' :: rest) = height? next rest := by
  have dot : reading.step? '.' ('*' :: rest) = some (reading.add 0, '*' :: rest) := by
    simp [Reading.step?, Reading.atom?, Atom.isLegal, flat.mode, startMode]
  have eager : skipLazy rest = rest := by
    cases rest with
    | nil => rfl
    | cons c rest =>
        have other : c ≠ '?' := by simpa using front
        simp [skipLazy, other]
  have star : (reading.add 0).step? '*' rest = some (reading.add 1, rest) := by
    simp [Reading.step?, Reading.add, OpenGroup.add, OpenGroup.repeatLast?, eager]
  have steps := (height_step flat.mode dot (Nat.le_refl _)).trans
    (height_step flat.mode star (Nat.le_refl _))
  exact ⟨reading.add 1, flat.add (Nat.le_refl 1), steps⟩

end Regex

namespace Glob

theorem front_of_body (glob tail : List Char) (front : tail.head? ≠ some '?') :
    (toRegex.body wildcard glob ++ tail).head? ≠ some '?' := by
  cases glob with
  | nil => simpa [toRegex.body] using front
  | cons c rest =>
      rw [toRegex.body]
      split
      · simp
      · simp only [Regex.escapeChars, List.flatMap_cons, List.flatMap_nil, List.append_nil]
        by_cases special : Regex.isMeta c = true
        · simp [special]
        · have other : c ≠ '?' := by
            rintro rfl
            exact special (by decide)
          simp [special, other]

open Regex in
theorem height_of_body (glob : List Char) {reading : Reading} (flat : IsFlat reading) :
    ∃ height ≤ 2, height? reading (toRegex.body wildcard glob ++ ['$']) = some height := by
  induction glob generalizing reading with
  | nil =>
      have ends : reading.step? '$' [] = some (reading.add 0, []) := by
        simp [Reading.step?, Reading.atom?, Atom.isLegal]
      have next := flat.add (Nat.zero_le 1)
      refine ⟨_, next.height_le, (height_step flat.mode ends (Nat.le_refl _)).trans ?_⟩
      have nothing : (reading.add 0).mode.skip [] = [] := by rw [next.mode]; rfl
      rw [height?, nothing, next.outer]
      rfl
  | cons c rest induction =>
      rw [toRegex.body]
      by_cases wild : c = wildcard
      · rw [if_pos wild]
        obtain ⟨next, nextFlat, same⟩ := steps_wildcard flat
          (@front_of_body wildcard rest ['$'] (by simp))
        rw [List.cons_append, List.cons_append, same]
        exact induction nextFlat
      · rw [if_neg wild]
        simp only [escapeChars, List.flatMap_cons, List.flatMap_nil, List.append_nil]
        by_cases special : isMeta c = true
        · simp only [if_pos special, List.cons_append, List.nil_append]
          rw [height_step flat.mode (step_escaped flat special) (Nat.le_succ _)]
          exact induction (flat.add (Nat.zero_le 1))
        · simp only [if_neg special, List.cons_append, List.nil_append]
          rw [height_step flat.mode (step_literal flat (by simpa using special)) (Nat.le_refl _)]
          exact induction (flat.add (Nat.zero_le 1))

/-- The expression of a glob is valid, whatever the glob is. -/
theorem valid_to_regex (glob : List Char) :
    Regex.isValid (String.ofList (toRegex wildcard glob)) = true := by
  have flat : Regex.IsFlat { group := { outerMode := Regex.startMode }, mode := Regex.startMode } :=
    ⟨rfl, rfl, rfl, by simp⟩
  have start (rest : List Char) (reading : Regex.Reading) :
      reading.step? '^' rest = some (reading.add 0, rest) := by
    simp [Regex.Reading.step?, Regex.Reading.atom?, Regex.Atom.isLegal]
  obtain ⟨height, small, read⟩ := @height_of_body wildcard glob _ (flat.add (Nat.zero_le 1))
  have whole := (Regex.height_step flat.mode (start _ _) (Nat.le_refl _)).trans read
  have bound : height ≤ Regex.maxHeight := Nat.le_trans small (by decide)
  rw [Regex.isValid, String.toList_ofList, toRegex, List.cons_append]
  exact (congrArg (Option.any (· ≤ Regex.maxHeight)) whole).trans (by simpa using bound)

end Glob

end DetectionRules
