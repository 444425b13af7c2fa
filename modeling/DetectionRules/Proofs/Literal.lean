import DetectionRules.Dialect.Kql
import DetectionRules.Dialect.QRadar
import DetectionRules.Dialect.Splunk
import DetectionRules.Dialect.YaraL
import DetectionRules.Proofs.Glob
import DetectionRules.Proofs.Number
import DetectionRules.Proofs.Success

/-!
Literals without quotes. Those that are read as numbers are the decimal numbers
of 64 bits with no zero in front. A literal is the text of the value it is read
as, except for zero behind a minus sign, which comes out without the sign.
-/

namespace DetectionRules.Value

/-- Decimal digits, with a zero in front only if there is no other digit. -/
structure IsNumeral (digits : List Char) : Prop where
  filled : digits ≠ []
  decimal : ∀ c ∈ digits, c.isDigit = true
  front : digits.head? = some '0' → digits.length = 1

/-- A whole number in decimal notation, and what it stands for. -/
inductive IsDecimal : List Char → Int → Prop
  | unsigned {digits : List Char} (numeral : IsNumeral digits) :
      IsDecimal digits (Text.natOfDigits digits)
  | negative {digits : List Char} (numeral : IsNumeral digits) :
      IsDecimal ('-' :: digits) (-(Text.natOfDigits digits : Int))

theorem is_numeral_iff (digits : List Char) : IsNumeral digits ↔
    ¬(digits.isEmpty || !digits.all Char.isDigit ||
      (decide (1 < digits.length) && digits.head? == some '0')) = true := by
  simp only [Bool.or_eq_true, Bool.and_eq_true, not_or, not_and, List.isEmpty_iff,
    Bool.not_eq_true', Bool.not_eq_false, List.all_eq_true, decide_eq_true_eq, beq_iff_eq]
  constructor
  · rintro ⟨filled, decimal, front⟩
    refine ⟨⟨filled, decimal⟩, fun long zero => ?_⟩
    have single := front zero
    omega
  · rintro ⟨⟨filled, decimal⟩, front⟩
    refine ⟨filled, decimal, fun zero => ?_⟩
    have positive := List.length_pos_iff.mpr filled
    have short : ¬1 < digits.length := fun long => front long zero
    omega

theorem IsNumeral.no_sign {digits rest : List Char} (numeral : IsNumeral digits) :
    digits ≠ '-' :: rest := by
  rintro rfl
  have sign := numeral.decimal '-' (by simp)
  revert sign
  decide

theorem canonical_int_iff (literal : List Char) (number : Int) :
    canonicalInt? literal = some number ↔ IsDecimal literal number := by
  constructor
  · intro canonical
    unfold canonicalInt? at canonical
    split at canonical
    rename_i found
    split at found
    · cases found
      simp only at canonical
      split at canonical
      · cases canonical
      · rename_i known
        cases canonical
        exact .negative ((is_numeral_iff _).mpr known)
    · cases found
      simp only at canonical
      split at canonical
      · cases canonical
      · rename_i known
        cases canonical
        exact .unsigned ((is_numeral_iff _).mpr known)
  · rintro (⟨numeral⟩ | ⟨numeral⟩)
    · unfold canonicalInt?
      split
      rename_i found
      split at found
      · exact absurd rfl numeral.no_sign
      · cases found
        simp only
        rw [if_neg ((is_numeral_iff _).mp numeral)]
        rfl
    · unfold canonicalInt?
      simp only
      rw [if_neg ((is_numeral_iff _).mp numeral)]
      rfl

theorem of_literal_eq_int_iff (literal : String) (number : Int64) :
    ofLiteral literal = .int number ↔ IsDecimal literal.toList number.toInt := by
  rw [← canonical_int_iff, ofLiteral]
  constructor
  · intro read
    split at read
    · rename_i found
      cases read
      obtain ⟨whole, canonical, fits⟩ := Option.bind_eq_some_iff.mp found
      rw [canonical, Text.to_int_of_int64 fits]
    · cases read
  · intro canonical
    rw [canonical, Option.bind_some, Text.int64_of_to_int]

theorem text_of_literal_iff (literal : String) :
    (ofLiteral literal).text = literal ↔ literal ≠ "-0" := by
  refine ⟨?_, text_of_literal⟩
  rintro kept rfl
  revert kept
  decide

theorem of_plain_glob (field : String) {wildcard : Char} {literal : String}
    (plain : wildcard ∉ literal.toList) :
    FieldTest.ofGlob field wildcard literal = .single field .equals (ofLiteral literal) := by
  have read := @Glob.test_of_glob wildcard .equals literal literal.toList plain (by simp) rfl field
  simpa using read

/-- Numbers in YARA-L may have a plus sign or zeros in front, which their values have not. -/
theorem word_value_kept_iff {word : String} {offset : Option Nat} {value : Value}
    {tokens rest : List Token} (read : YaraL.wordValue word offset tokens = .ok (value, rest)) :
    value.text = word ↔ ofLiteral word = value ∧ word ≠ "-0" := by
  have kept : ofLiteral word = value ∧ word ≠ "-0" → value.text = word := by
    rintro ⟨rfl, other⟩
    exact text_of_literal other
  refine ⟨fun same => ?_, kept⟩
  unfold YaraL.wordValue at read
  cases found : Text.int64OfText? word with
  | some number =>
      simp only [found] at read
      cases read
      refine ⟨same ▸ of_literal_int number, ?_⟩
      rintro rfl
      have printed := congrArg ofLiteral same
      rw [of_literal_int] at printed
      cases printed
      revert same
      decide
  | none =>
      simp only [found] at read
      split at read
      · rename_i truth
        cases read
        rw [Bool.or_eq_true, beq_iff_eq, beq_iff_eq] at truth
        rcases truth with rfl | rfl <;> decide
      · cases read

/-- Zero behind a minus sign is the only literal that is not kept, and all readers of literals
agree in that. -/
theorem literal_kept_iff (literal : String) :
    (∀ number, ofLiteral literal = .int number ↔ IsDecimal literal.toList number.toInt) ∧
    ((ofLiteral literal).text = literal ↔ literal ≠ "-0") ∧
    (∀ offset, Kql.valueOf ⟨literal, false, offset⟩ = ofLiteral literal ∧
      QRadar.valueOf ⟨literal, false, offset⟩ = ofLiteral literal) ∧
    (∀ field wildcard, wildcard ∉ literal.toList →
      FieldTest.ofGlob field wildcard literal = .single field .equals (ofLiteral literal)) ∧
    ∀ offset tokens value rest, YaraL.wordValue literal offset tokens = .ok (value, rest) →
      (value.text = literal ↔ ofLiteral literal = value ∧ literal ≠ "-0") := by
  refine ⟨of_literal_eq_int_iff literal, text_of_literal_iff literal, fun offset => ⟨rfl, rfl⟩,
    fun field wildcard plain => of_plain_glob field plain, ?_⟩
  intro offset tokens value rest read
  exact word_value_kept_iff read

/-- The smallest number of 64 bits is a number and is kept, and the number before it is a text. -/
theorem smallest_number_kept :
    (ofLiteral "-9223372036854775808" = .int Int64.minValue ∧
      (ofLiteral "-9223372036854775808").text = "-9223372036854775808") ∧
    ('*' ∉ "-9223372036854775809".toList ∧
      FieldTest.ofGlob "x" '*' "-9223372036854775809" =
        .single "x" .equals (.str "-9223372036854775809")) ∧
    YaraL.wordValue "-9223372036854775808" none [] = .ok (.int Int64.minValue, []) ∧
      (Value.int Int64.minValue).text = "-9223372036854775808" := by
  have smallest := literal_kept_iff "-9223372036854775808"
  have below := literal_kept_iff "-9223372036854775809"
  have plain : '*' ∉ "-9223372036854775809".toList := by decide
  have number : ofLiteral "-9223372036854775808" = .int Int64.minValue := by decide +kernel
  have text : ofLiteral "-9223372036854775809" = .str "-9223372036854775809" := by decide +kernel
  have read : YaraL.wordValue "-9223372036854775808" none [] = .ok (.int Int64.minValue, []) := by
    decide +kernel
  refine ⟨⟨number, smallest.2.1.mpr (by decide)⟩, ⟨plain, ?_⟩, read,
    (smallest.2.2.2.2 _ _ _ _ read).mpr ⟨number, by decide⟩⟩
  rw [below.2.2.2.1 "x" '*' plain, text]

/-- The sign of zero is lost, also where a query is read. -/
theorem negative_zero_changed : ofLiteral "-0" = .int 0 ∧ (ofLiteral "-0").text = "0" ∧
    ∃ rule, Splunk.read "x=-0" = .ok rule ∧ rule.tests = [.single "x" .equals (.int 0)] := by
  have read : ((Splunk.read "x=-0").map fun rule =>
      decide (rule.tests = [.single "x" .equals (.int 0)])) = .ok true := by
    decide +kernel
  obtain ⟨rule, accepted, known⟩ := Success.of_map read
  exact ⟨by decide, by decide, rule, accepted, of_decide_eq_true known⟩

end DetectionRules.Value
