import DetectionRules.Text.Basic
import Mathlib

/-!
Characters by their code, texts without blanks at their ends, the runs between
separators, and lists in which no text occurs twice.
-/

namespace DetectionRules.Text

theorem is_alphanum_iff {c : Char} : c.isAlphanum = true ↔
    ((65 ≤ c.toNat ∧ c.toNat ≤ 90) ∨ (97 ≤ c.toNat ∧ c.toNat ≤ 122)) ∨
      (48 ≤ c.toNat ∧ c.toNat ≤ 57) := by
  simp only [Char.isAlphanum, Char.isAlpha, Char.isUpper, Char.isLower, Char.isDigit,
    Bool.or_eq_true, Bool.and_eq_true, decide_eq_true_eq, UInt32.le_iff_toNat_le, ge_iff_le]
  exact Iff.rfl

theorem is_blank_of_is_alphanum {c : Char} (part : c.isAlphanum = true) : isBlank c = false := by
  rw [is_alphanum_iff] at part
  simp only [isBlank, Bool.or_eq_false_iff, Bool.and_eq_false_iff, decide_eq_false_iff_not,
    beq_eq_false_iff_ne]
  omega

theorem drop_blanks_of_ink {c : Char} (ink : isBlank c = false) (rest : List Char) :
    dropBlanks (c :: rest) = c :: rest := by
  rw [dropBlanks, List.dropWhile_cons_of_neg (by simp [ink])]

theorem trim_blanks_of_ends {first last : Char} {characters middle : List Char}
    (front : characters = first :: middle) (back : characters.getLast? = some last)
    (firstInk : isBlank first = false) (lastInk : isBlank last = false) :
    trimBlanks characters = characters := by
  obtain ⟨others, split⟩ := List.getLast?_eq_some_iff.mp back
  have dropped : dropBlanks characters = characters := by
    rw [front, drop_blanks_of_ink firstInk]
  rw [trimBlanks, dropped, trimBlanksEnd, split, List.reverse_append, List.reverse_singleton,
    List.singleton_append, List.dropWhile_cons_of_neg (by simp [lastInk])]
  simp

theorem take_while_front {Item : Type} {property : Item → Bool} {front rest : List Item}
    (inside : ∀ item ∈ front, property item = true)
    (ends : ∀ item ∈ rest.head?, property item = false) :
    (front ++ rest).takeWhile property = front := by
  rw [List.takeWhile_append_of_pos inside]
  cases rest with
  | nil => simp
  | cons item rest => simp [ends item rfl]

section Runs

variable {separates : Char → Bool}

theorem split_when_ne_nil (characters : List Char) : splitWhen separates characters ≠ [] := by
  cases characters with
  | nil => simp [splitWhen]
  | cons c rest =>
      rw [splitWhen]
      split
      · simp
      · split <;> simp

example : splitWhen (· == '/') ['a', '/', '/', 'b'] = [['a'], [], ['b']] := by cbv

theorem clean_of_split_when {characters part : List Char}
    (member : part ∈ splitWhen separates characters) : ∀ c ∈ part, separates c = false := by
  induction characters generalizing part with
  | nil => simp_all [splitWhen]
  | cons c rest induction =>
      rw [splitWhen] at member
      cases split : splitWhen separates rest with
      | nil => exact absurd split (split_when_ne_nil rest)
      | cons first others =>
          rw [split] at member induction
          dsimp only at member
          by_cases separated : separates c = true
          · rw [if_pos separated, List.mem_cons] at member
            rcases member with rfl | known
            · exact nofun
            · exact induction known
          · rw [if_neg separated, List.mem_cons] at member
            rcases member with rfl | known
            · exact List.forall_mem_cons.mpr
                ⟨by simpa using separated, induction List.mem_cons_self⟩
            · exact induction (List.mem_cons_of_mem _ known)

theorem split_when_clean {characters : List Char} (clean : ∀ c ∈ characters, separates c = false) :
    splitWhen separates characters = [characters] := by
  induction characters with
  | nil => rfl
  | cons c rest induction =>
      obtain ⟨ink, others⟩ := List.forall_mem_cons.mp clean
      simp [splitWhen, induction others, ink]

/-- Behind a separator the runs begin anew. -/
theorem split_when_append (front back : List Char) {separator : Char}
    (separated : separates separator = true) :
    splitWhen separates (front ++ separator :: back) =
      splitWhen separates front ++ splitWhen separates back := by
  induction front with
  | nil =>
      cases split : splitWhen separates back with
      | nil => exact absurd split (split_when_ne_nil back)
      | cons part parts => simp [splitWhen, split, separated]
  | cons c rest induction =>
      rw [List.cons_append, splitWhen, induction, splitWhen]
      cases split : splitWhen separates rest with
      | nil => exact absurd split (split_when_ne_nil rest)
      | cons part parts => cases separates c <;> simp

end Runs

theorem nodup_erase_dups (texts : List String) : texts.eraseDups.Nodup := by
  induction length : texts.length using Nat.strong_induction_on generalizing texts with
  | _ size induction =>
      cases texts with
      | nil => exact List.nodup_nil
      | cons text rest =>
          rw [List.eraseDups_cons, List.nodup_cons]
          refine ⟨by simp [List.mem_eraseDups], induction _ ?_ _ rfl⟩
          rw [← length, List.length_cons, Nat.lt_succ_iff]
          exact List.length_filter_le _ _

end DetectionRules.Text
