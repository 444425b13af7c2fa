import DetectionRules.Proofs.Text
import DetectionRules.Rule.Aggregation
import DetectionRules.Rule.FieldTest

/-!
Numbers and time windows are read back from the text they are printed as. A time window is printed
in the longest unit that divides it, and no amount of a unit makes a window of fewer seconds than
it has.
-/

namespace DetectionRules

namespace Text

theorem nat_of_digits_to_digits (number : Nat) : natOfDigits (Nat.toDigits 10 number) = number := by
  have fold := Nat.ofDigitChars_ten_toDigits (n := number)
  rw [Nat.ofDigitChars_eq_foldl] at fold
  simpa only [natOfDigits, Nat.mul_comm] using fold

theorem is_digits_to_digits (number : Nat) : isDigits (Nat.toDigits 10 number) = true := by
  rw [isDigits, Bool.and_eq_true, List.all_eq_true]
  refine ⟨by simp [Nat.toDigits_ne_nil], fun c member => ?_⟩
  exact Nat.isDigit_of_mem_toDigits (by omega) (by omega) member

theorem digits_ne_sign {number : Nat} {c : Char} {rest : List Char}
    (digits : Nat.toDigits 10 number = c :: rest) : c.isDigit = true :=
  Nat.isDigit_of_mem_toDigits (by omega) (by omega) (digits ▸ List.mem_cons_self)

theorem leading_zero_to_digits (number : Nat) :
    (decide (1 < (Nat.toDigits 10 number).length) &&
      (Nat.toDigits 10 number).head? == some '0') = false := by
  induction number using Nat.strongRecOn with
  | ind number induction =>
      by_cases small : number < 10
      · simp [Nat.toDigits_of_lt_base small]
      · have split := Nat.toDigits_of_base_le (b := 10) (by omega) (Nat.le_of_not_lt small)
        have inner := induction (number / 10) (by omega)
        rw [split]
        match found : Nat.toDigits 10 (number / 10) with
        | [] => exact absurd found Nat.toDigits_ne_nil
        | [c] =>
            have value := nat_of_digits_to_digits (number / 10)
            rw [found] at value
            have positive : 0 < number / 10 := by omega
            simp only [List.cons_append, List.head?_cons, Bool.and_eq_false_iff]
            refine .inr ?_
            rw [beq_eq_false_iff_ne]
            rintro same
            cases same
            simp [natOfDigits] at value
            omega
        | c :: d :: rest =>
            rw [found] at inner
            simp only [List.length_cons, List.head?_cons, Bool.and_eq_false_iff,
              decide_eq_false_iff_not] at inner
            simp only [List.cons_append, List.head?_cons, Bool.and_eq_false_iff]
            exact .inr (inner.resolve_left (by omega))

theorem digit_char_of_digit {c : Char} (digit : c.isDigit = true) :
    c.toNat - '0'.toNat < 10 ∧ Nat.digitChar (c.toNat - '0'.toNat) = c := by
  have bounds : 48 ≤ c.toNat ∧ c.toNat ≤ 57 := by
    simpa [Char.isDigit, UInt32.le_iff_toNat_le] using digit
  have zero : '0'.toNat = 48 := rfl
  have small : c.toNat - 48 < 10 := by omega
  have code := Nat.toNat_digitChar_of_lt_ten small
  refine ⟨small, Char.toNat_inj.mp ?_⟩
  rw [zero, code]
  omega

/-- Digits with no zero in front are the digits of their number. -/
theorem to_digits_nat_of_digits {digits : List Char} (filled : digits ≠ [])
    (all : ∀ c ∈ digits, c.isDigit = true)
    (front : (decide (1 < digits.length) && digits.head? == some '0') = false) :
    Nat.toDigits 10 (natOfDigits digits) = digits := by
  induction digits using List.reverseRecOn with
  | nil => exact absurd rfl filled
  | append_singleton others last induction =>
      obtain ⟨small, same⟩ := digit_char_of_digit (all last (by simp))
      have value : natOfDigits (others ++ [last]) =
          10 * natOfDigits others + (last.toNat - '0'.toNat) := by
        simp [natOfDigits, Nat.mul_comm]
      by_cases alone : others = []
      · subst alone
        rw [value, natOfDigits, List.foldl_nil, Nat.mul_zero, Nat.zero_add,
          Nat.toDigits_of_lt_base small, same, List.nil_append]
      · have noZero : others.head? ≠ some '0' := by
          intro zero
          have long : 1 < (others ++ [last]).length := by
            have positive := List.length_pos_iff.mpr alone
            simp only [List.length_append, List.length_singleton]
            omega
          simp [List.head?_append, zero, alone] at front
        have inner := induction alone (fun c member => all c (by simp [member])) (by simp [noZero])
        have positive : 0 < natOfDigits others := by
          apply Nat.pos_of_ne_zero
          intro zero
          rw [zero] at inner
          apply noZero
          rw [← inner]
          rfl
        rw [value, ← Nat.toDigits_append_toDigits (by omega) positive small, inner,
          Nat.toDigits_of_lt_base small, same]

/-- Printed integers are digits, after a minus sign if they are negative. -/
theorem to_list_int (number : Int) :
    (∃ amount : Nat, number = amount ∧ (toString number).toList = Nat.toDigits 10 amount) ∨
      ∃ amount : Nat, number = -(amount : Int) ∧
        (toString number).toList = '-' :: Nat.toDigits 10 amount := by
  rw [Int.toString_eq_repr, Int.repr_eq_if]
  split
  · rename_i positive
    exact .inl ⟨number.toNat, by omega, Nat.toList_repr⟩
  · exact .inr ⟨(-number).toNat, by omega, by rw [String.toList_append, Nat.toList_repr]; rfl⟩

theorem int64_of_to_int (number : Int64) : int64? number.toInt = some number := by
  rw [int64?, if_pos ⟨Int64.minValue_le_toInt number, Int64.toInt_le number⟩, Int64.ofInt_toInt]

theorem to_int_of_int64 {number : Int} {small : Int64} (fits : int64? number = some small) :
    small.toInt = number := by
  rw [int64?] at fits
  split at fits
  · rename_i bounds
    cases fits
    exact Int64.toInt_ofInt_of_le bounds.1 (Int.lt_of_le_of_lt bounds.2 (by decide))
  · cases fits

theorem uint64_of_to_nat (number : UInt64) : uint64? number.toNat = some number := by
  rw [uint64?, if_pos (UInt64.toNat_lt_size number), UInt64.ofNat_toNat]

theorem to_list_uint64 (number : UInt64) :
    (toString number).toList = Nat.toDigits 10 number.toNat := Nat.toList_repr

theorem uint64_of_digits_to_digits (number : UInt64) :
    uint64OfDigits? (Nat.toDigits 10 number.toNat) = some number := by
  rw [uint64OfDigits?, is_digits_to_digits, if_pos rfl, nat_of_digits_to_digits, uint64_of_to_nat]

theorem uint64_of_text (number : UInt64) : uint64OfText? (toString number) = some number := by
  have digits := uint64_of_digits_to_digits number
  rw [uint64OfText?, to_list_uint64]
  split
  · rename_i rest found
    exact absurd (digits_ne_sign found) (by decide)
  · exact digits

theorem int64_of_text (number : Int64) : int64OfText? (toString number.toInt) = some number := by
  rw [int64OfText?]
  rcases to_list_int number.toInt with ⟨amount, same, text⟩ | ⟨amount, same, text⟩
  · rw [text]
    split
    · rename_i found
      split at found
      · exact absurd (digits_ne_sign (by assumption)) (by decide)
      · exact absurd (digits_ne_sign (by assumption)) (by decide)
      · cases found
        rw [is_digits_to_digits, if_pos rfl, nat_of_digits_to_digits]
        simpa [same] using int64_of_to_int number
  · rw [text]
    simp only [is_digits_to_digits, if_true, nat_of_digits_to_digits, ← same, int64_of_to_int]

end Text

namespace Value

theorem canonical_int_to_string (number : Int) :
    canonicalInt? (toString number).toList = some number := by
  have canonical (amount : Nat) : ((Nat.toDigits 10 amount).isEmpty ||
      !(Nat.toDigits 10 amount).all Char.isDigit ||
      (decide (1 < (Nat.toDigits 10 amount).length) &&
        (Nat.toDigits 10 amount).head? == some '0')) = false := by
    have digits := Text.is_digits_to_digits amount
    rw [Text.isDigits, Bool.and_eq_true, Bool.not_eq_true'] at digits
    rw [Text.leading_zero_to_digits, digits.1, digits.2]
    rfl
  unfold canonicalInt?
  rcases Text.to_list_int number with ⟨amount, same, text⟩ | ⟨amount, same, text⟩
  · rw [text]
    split
    rename_i found
    split at found
    · rename_i start
      exact absurd (Text.digits_ne_sign start) (by decide)
    · cases found
      simp only [canonical, Text.nat_of_digits_to_digits, Bool.false_eq_true, if_false, same]
  · rw [text]
    simp only [canonical, Text.nat_of_digits_to_digits, Bool.false_eq_true, if_false, if_true, same]

theorem of_literal_int (number : Int64) : ofLiteral (Value.int number).text = .int number := by
  rw [ofLiteral, text, canonical_int_to_string, Option.bind_some, Text.int64_of_to_int]

theorem of_mem_int_text {number : Int64} {c : Char} (member : c ∈ (Value.int number).text.toList) :
    c.isDigit = true ∨ c = '-' := by
  have digit {amount : Nat} (inside : c ∈ Nat.toDigits 10 amount) : c.isDigit = true :=
    Nat.isDigit_of_mem_toDigits (by omega) (by omega) inside
  rcases Text.to_list_int number.toInt with ⟨amount, _, text⟩ | ⟨amount, _, text⟩
  · rw [Value.text, text] at member
    exact .inl (digit member)
  · rw [Value.text, text] at member
    rcases List.mem_cons.mp member with minus | member
    · exact .inr minus
    · exact .inl (digit member)

theorem int_text_filled (number : Int64) : (Value.int number).text.toList ≠ [] := by
  rcases Text.to_list_int number.toInt with ⟨amount, _, text⟩ | ⟨amount, _, text⟩
  · rw [Value.text, text]
    exact Nat.toDigits_ne_nil
  · rw [Value.text, text]
    simp

/-- A number is printed as the literal that stands for it, unless that is zero with a sign. -/
theorem to_list_of_canonical {literal : List Char} {number : Int}
    (canonical : canonicalInt? literal = some number) (other : literal ≠ ['-', '0']) :
    (toString number).toList = literal := by
  have printed {digits : List Char} (known : ¬(digits.isEmpty || !digits.all Char.isDigit ||
      (decide (1 < digits.length) && digits.head? == some '0')) = true) :
      Nat.toDigits 10 (Text.natOfDigits digits) = digits := by
    simp only [Bool.or_eq_true, not_or, Bool.not_eq_true, Bool.not_eq_false',
      List.all_eq_true] at known
    exact Text.to_digits_nat_of_digits (by simpa using known.1.1) known.1.2 known.2
  rw [Int.toString_eq_repr, Int.repr_eq_if]
  unfold canonicalInt? at canonical
  split at canonical
  rename_i found
  split at found
  · cases found
    simp only at canonical
    split at canonical
    · cases canonical
    · rename_i digits _ known
      cases canonical
      have whole := printed known
      have positive : Text.natOfDigits digits ≠ 0 := by
        intro zero
        rw [zero] at whole
        exact other (by rw [← whole]; rfl)
      simp [positive, Nat.toList_repr, whole]
  · cases found
    simp only at canonical
    split at canonical
    · cases canonical
    · rename_i known
      cases canonical
      simp [Nat.toList_repr, printed known]

/-- A literal is the text of the value it stands for, unless it is zero with a sign. -/
theorem text_of_literal {literal : String} (other : literal ≠ "-0") :
    (ofLiteral literal).text = literal := by
  rw [ofLiteral]
  cases found : (canonicalInt? literal.toList).bind Text.int64? with
  | none => rfl
  | some number =>
      obtain ⟨whole, canonical, fits⟩ := Option.bind_eq_some_iff.mp found
      have value : number.toInt = whole := Text.to_int_of_int64 fits
      have signed : literal.toList ≠ ['-', '0'] := fun zero => other (String.toList_inj.mp zero)
      have printed := to_list_of_canonical canonical signed
      rw [← value] at printed
      exact String.toList_inj.mp printed

end Value

namespace TimeUnit

theorem of_name_letter (timeUnit : TimeUnit) :
    ofName? (Text.trim (String.ofList [timeUnit.letter])) = some timeUnit := by
  cases timeUnit <;> decide

theorem letter_is_alpha (timeUnit : TimeUnit) : timeUnit.letter.isAlpha = true := by
  cases timeUnit <;> decide

end TimeUnit

namespace TimeWindow

theorem amount_spec {window : TimeWindow} {amount : UInt64} {timeUnit : TimeUnit}
    (found : window.amount = (amount, timeUnit)) :
    amount.toNat * timeUnit.seconds = window.seconds.toNat := by
  have bound := UInt64.toNat_lt_size window.seconds
  rw [TimeWindow.amount] at found
  split at found
  · rename_i choice
    have divides := List.find?_some choice
    simp only [beq_iff_eq] at divides
    cases found
    have quotient : (UInt64.ofNat (window.seconds.toNat / timeUnit.seconds)).toNat =
        window.seconds.toNat / timeUnit.seconds :=
      UInt64.toNat_ofNat_of_lt ((Nat.div_le_self _ _).trans_lt bound)
    rw [quotient]
    exact Nat.div_mul_cancel (Nat.dvd_of_mod_eq_zero divides)
  · cases found
    simp [TimeUnit.seconds]

theorem to_list_text (window : TimeWindow) :
    window.text.toList = Nat.toDigits 10 window.amount.1.toNat ++ [window.amount.2.letter] := by
  rw [text, String.toList_append, Text.to_list_uint64]
  simp [Char.toString]

/-- The seconds of a window are those of the amount, and did not wrap around. -/
theorem of_amount_eq_some_iff {amount : UInt64} {timeUnit : TimeUnit} {window : TimeWindow} :
    ofAmount? amount timeUnit = some window ↔
      window.seconds ≠ 0 ∧ amount.toNat * timeUnit.seconds = window.seconds.toNat := by
  rw [ofAmount?]
  constructor
  · intro made
    split at made
    · rename_i fits
      cases made
      have kept : (UInt64.ofNat (amount.toNat * timeUnit.seconds)).toNat =
          amount.toNat * timeUnit.seconds := UInt64.toNat_ofNat_of_lt fits.2
      refine ⟨fun zero => ?_, kept.symm⟩
      rw [show UInt64.ofNat _ = 0 from zero] at kept
      exact fits.1.ne kept
    · cases made
  · rintro ⟨positive, same⟩
    have seconds : 0 < window.seconds.toNat := Nat.pos_of_ne_zero fun zero =>
      positive (UInt64.toNat_inj.mp zero)
    have bound := UInt64.toNat_lt_size window.seconds
    simp only [same, seconds, bound, and_self, if_true, UInt64.ofNat_toNat]

theorem of_amount_amount {window : TimeWindow} {amount : UInt64} {timeUnit : TimeUnit}
    (found : window.amount = (amount, timeUnit)) (positive : window.seconds ≠ 0) :
    ofAmount? amount timeUnit = some window :=
  of_amount_eq_some_iff.mpr ⟨positive, amount_spec found⟩

/-- A positive window is read back from its text. -/
theorem of_text_text {window : TimeWindow} (positive : window.seconds ≠ 0) :
    ofText? window.text = some window := by
  obtain ⟨amount, timeUnit, pair⟩ : ∃ amount timeUnit, window.amount = (amount, timeUnit) :=
    ⟨_, _, rfl⟩
  have read := of_amount_amount pair positive
  have written := to_list_text window
  rw [pair] at written
  have digits : ∀ c ∈ Nat.toDigits 10 amount.toNat, c.isDigit = true := fun c member =>
    Nat.isDigit_of_mem_toDigits (by omega) (by omega) member
  have letter : timeUnit.letter.isDigit = false := by cases timeUnit <;> decide
  have trimmed : (Text.trim window.text).toList = Nat.toDigits 10 amount.toNat ++ [timeUnit.letter] := by
    rw [Text.trim, String.toList_ofList, written]
    obtain ⟨first, rest, start⟩ := List.exists_cons_of_ne_nil
      (Nat.toDigits_ne_nil (n := amount.toNat) (b := 10))
    have front : Nat.toDigits 10 amount.toNat ++ [timeUnit.letter] =
        first :: (rest ++ [timeUnit.letter]) := by rw [start]; rfl
    refine Text.trim_blanks_of_ends front List.getLast?_concat ?_ ?_
    · exact Text.is_blank_of_is_alphanum (by simp [Char.isAlphanum, Text.digits_ne_sign start])
    · exact Text.is_blank_of_is_alphanum (by simp [Char.isAlphanum, TimeUnit.letter_is_alpha])
  have taken : (Nat.toDigits 10 amount.toNat ++ [timeUnit.letter]).takeWhile Char.isDigit =
      Nat.toDigits 10 amount.toNat := Text.take_while_front digits (by simpa using letter)
  have dropped : (Nat.toDigits 10 amount.toNat ++ [timeUnit.letter]).dropWhile Char.isDigit =
      [timeUnit.letter] := by
    rw [List.dropWhile_append_of_pos digits]
    simp [letter]
  rw [ofText?, trimmed, taken, dropped, if_neg (by simp), Text.uint64_of_digits_to_digits]
  simp only [Option.bind_eq_bind, Option.bind_some, TimeUnit.of_name_letter, read]

theorem unit_of_amount (window : TimeWindow) :
    window.amount.2 =
      if TimeUnit.day.seconds ∣ window.seconds.toNat then .day
      else if TimeUnit.hour.seconds ∣ window.seconds.toNat then .hour
      else if TimeUnit.minute.seconds ∣ window.seconds.toNat then .minute
      else .second := by
  simp only [amount, List.find?_cons, List.find?_nil, Nat.dvd_iff_mod_eq_zero]
  split_ifs with days hours minutes
  · rw [days]
    rfl
  · rw [beq_eq_false_iff_ne.mpr days, hours]
    rfl
  · rw [beq_eq_false_iff_ne.mpr days, beq_eq_false_iff_ne.mpr hours, minutes]
    rfl
  · rw [beq_eq_false_iff_ne.mpr days, beq_eq_false_iff_ne.mpr hours,
      beq_eq_false_iff_ne.mpr minutes]

theorem le_unit_of_amount {window : TimeWindow} {timeUnit : TimeUnit}
    (divides : timeUnit.seconds ∣ window.seconds.toNat) :
    timeUnit.seconds ≤ window.amount.2.seconds := by
  rw [unit_of_amount]
  split_ifs with days hours minutes
  · cases timeUnit <;> decide
  · cases timeUnit with
    | day => exact absurd divides days
    | second | minute | hour => decide
  · cases timeUnit with
    | day => exact absurd divides days
    | hour => exact absurd divides hours
    | second | minute => decide
  · cases timeUnit with
    | day => exact absurd divides days
    | hour => exact absurd divides hours
    | minute => exact absurd divides minutes
    | second => exact Nat.le_refl _

theorem exists_of_amount_iff {amount : UInt64} {timeUnit : TimeUnit} :
    (∃ window, ofAmount? amount timeUnit = some window) ↔
      0 < amount ∧ amount.toNat * timeUnit.seconds < UInt64.size := by
  have unitPositive : 0 < timeUnit.seconds := by cases timeUnit <;> decide
  rw [UInt64.lt_iff_toNat_lt, UInt64.toNat_zero]
  constructor
  · rintro ⟨window, made⟩
    obtain ⟨positive, same⟩ := of_amount_eq_some_iff.mp made
    have bound := UInt64.toNat_lt_size window.seconds
    refine ⟨Nat.pos_of_ne_zero fun zero => positive (UInt64.toNat_inj.mp ?_), same ▸ bound⟩
    rw [← same, zero, Nat.zero_mul, UInt64.toNat_zero]
  · rintro ⟨positive, fits⟩
    exact ⟨_, if_pos ⟨Nat.mul_pos positive unitPositive, fits⟩⟩

/-- A window that is not empty comes back from its text, and from its amount in the longest unit
that divides it. An amount makes a window exactly if there is any and its seconds fit 64 bits, and
of as many seconds. -/
theorem told_and_read_exactly :
    (∀ window : TimeWindow, 0 < window.seconds →
      ofText? window.text = some window ∧
      ofAmount? window.amount.1 window.amount.2 = some window ∧
      ∀ timeUnit : TimeUnit, window.amount.2.seconds < timeUnit.seconds →
        ¬timeUnit.seconds ∣ window.seconds.toNat) ∧
    ∀ (amount : UInt64) (timeUnit : TimeUnit),
      ((∃ window, ofAmount? amount timeUnit = some window) ↔
        0 < amount ∧ amount.toNat * timeUnit.seconds < UInt64.size) ∧
      ∀ window, ofAmount? amount timeUnit = some window →
        window.seconds.toNat = amount.toNat * timeUnit.seconds := by
  refine ⟨fun window positive => ?_, fun amount timeUnit => ?_⟩
  · have filled : window.seconds ≠ 0 := UInt64.pos_iff_ne_zero.mp positive
    refine ⟨of_text_text filled, of_amount_amount rfl filled, fun timeUnit larger divides => ?_⟩
    exact Nat.not_le_of_lt larger (le_unit_of_amount divides)
  · refine ⟨exists_of_amount_iff, fun window made => ?_⟩
    exact (of_amount_eq_some_iff.mp made).2.symm

/-- The most days that fit, and one more. -/
theorem most_days_told_and_read :
    let window : TimeWindow := ⟨18446744073709526400⟩
    0 < window.seconds ∧ ofText? window.text = some window ∧
      ofAmount? 213503982334601 .day = some window ∧
      ¬∃ longer, ofAmount? 213503982334602 .day = some longer := by
  intro window
  have positive : 0 < window.seconds := by decide
  obtain ⟨text, amount, -⟩ := told_and_read_exactly.1 window positive
  have days : window.amount = (213503982334601, .day) := by decide
  rw [days] at amount
  refine ⟨positive, text, amount, fun fits => ?_⟩
  exact absurd ((told_and_read_exactly.2 _ _).1.mp fits).2 (by decide)

end TimeWindow

end DetectionRules
