/-
Numbers as they are written: their digits in a radix, the most significant one first, with letters
of either case as the digits from ten on. Such digits are read as the number that they write, up to
the limit of the reader.
-/

import Mathlib.Data.Nat.Digits.Defs
import SourceCapture.Literal
import SourceCapture.Proofs.Locations

namespace SourceCapture.Number

/-- Whether a character is the digit of that value, in either case. -/
def IsDigit (radix : Nat) (char : Char) (value : Nat) : Prop :=
  value < radix ∧ (char = Nat.digitChar value ∨ char = (Nat.digitChar value).toUpper)

/-- Whether digits write a number. -/
def Writes (radix : Nat) (digits : List Char) (number : Nat) : Prop :=
  ∃ values, List.Forall₂ (IsDigit radix) digits values ∧
    Nat.ofDigits radix values.reverse = number

instance (radix : Nat) (char : Char) (value : Nat) : Decidable (IsDigit radix char value) :=
  inferInstanceAs (Decidable (_ ∧ _))

variable {radix limit value number : Nat} {char : Char} {digits : List Char} {values : List Nat}

/-! ### Digits -/

theorem digitValue?_digitChar_upTo : ∀ radix ≤ 16, ∀ value < radix,
    digitValue? radix (Nat.digitChar value) = some value ∧
      digitValue? radix (Nat.digitChar value).toUpper = some value := by
  decide

theorem IsDigit.digitValue? (small : radix ≤ 16) (isDigit : IsDigit radix char value) :
    digitValue? radix char = some value := by
  obtain ⟨below, rfl | rfl⟩ := isDigit
  · exact (digitValue?_digitChar_upTo radix small value below).1
  · exact (digitValue?_digitChar_upTo radix small value below).2

/-- A digit is one of few characters. -/
theorem IsDigit.holds (test : Char → Bool) (holds : "0123456789abcdefABCDEF".toList.all test = true)
    (small : radix ≤ 16) (isDigit : IsDigit radix char value) : test char = true := by
  have known : ∀ value < 16, Nat.digitChar value ∈ "0123456789abcdefABCDEF".toList ∧
      (Nat.digitChar value).toUpper ∈ "0123456789abcdefABCDEF".toList := by
    decide
  have member := known value (Nat.lt_of_lt_of_le isDigit.1 small)
  rw [List.all_eq_true] at holds
  rcases isDigit.2 with rfl | rfl
  · exact holds _ member.1
  · exact holds _ member.2

theorem Writes.exists_isDigit (writes : Writes radix digits number) (member : char ∈ digits) :
    ∃ value, IsDigit radix char value := by
  obtain ⟨values, written, -⟩ := writes
  induction written with
  | nil => cases member
  | cons isDigit _ inductionHypothesis =>
    rcases List.mem_cons.mp member with rfl | behind
    · exact ⟨_, isDigit⟩
    · exact inductionHypothesis behind

theorem Writes.holds (test : Char → Bool) (holds : "0123456789abcdefABCDEF".toList.all test = true)
    (small : radix ≤ 16) (writes : Writes radix digits number) :
    ∀ char ∈ digits, test char = true := by
  intro char member
  obtain ⟨value, isDigit⟩ := writes.exists_isDigit member
  exact isDigit.holds test holds small

theorem Writes.not_mem (small : radix ≤ 16) (writes : Writes radix digits number)
    (unknown : Number.digitValue? radix char = none) : char ∉ digits := by
  intro member
  obtain ⟨value, isDigit⟩ := writes.exists_isDigit member
  rw [isDigit.digitValue? small] at unknown
  cases unknown

/-! ### Reading -/

theorem ofDigits_reverse (radix : Nat) (values : List Nat) :
    Nat.ofDigits radix values.reverse =
      values.foldl (fun number value => number * radix + value) 0 := by
  rw [Nat.ofDigits_eq_foldr, List.foldr_reverse]
  congr 1
  funext number value
  rw [Nat.cast_id, Nat.add_comm, Nat.mul_comm]

theorem le_foldl_digits (positive : 0 < radix) (values : List Nat) (number : Nat) :
    number ≤ values.foldl (fun number value => number * radix + value) number := by
  induction values generalizing number with
  | nil => exact Nat.le_refl number
  | cons value rest inductionHypothesis =>
    exact Nat.le_trans (Nat.le_add_right_of_le (Nat.le_mul_of_pos_right number positive))
      (inductionHypothesis _)

/-- Digits are read in turn, and reading stops where the limit is passed. -/
theorem readDigits_of_forall₂ (small : radix ≤ 16)
    (written : List.Forall₂ (IsDigit radix) digits values) (within : number ≤ limit) :
    readDigits radix limit number digits =
      if values.foldl (fun number value => number * radix + value) number ≤ limit then
        .ok (values.foldl (fun number value => number * radix + value) number)
      else .error .tooLarge := by
  induction written generalizing number with
  | nil => exact (if_pos within).symm
  | @cons char value _ rest isDigit _ inductionHypothesis =>
    rw [readDigits, isDigit.digitValue? small, List.foldl_cons]
    dsimp only
    split
    case isTrue past =>
      have grown := le_foldl_digits (Nat.zero_lt_of_lt isDigit.1) rest (number * radix + value)
      rw [if_neg (Nat.not_le.mpr (Nat.lt_of_lt_of_le past grown))]
    case isFalse fits => exact inductionHypothesis (Nat.not_lt.mp fits)

theorem Writes.readDigits (small : radix ≤ 16) (writes : Writes radix digits number) :
    readDigits radix limit 0 digits =
      if number ≤ limit then .ok number else .error .tooLarge := by
  obtain ⟨values, written, rfl⟩ := writes
  rw [ofDigits_reverse]
  exact readDigits_of_forall₂ small written (Nat.zero_le limit)

theorem Writes.readUnsigned (limit : Nat) (small : radix ≤ 16) (nonempty : digits ≠ [])
    (writes : Writes radix digits number) :
    readUnsigned radix limit digits =
      if number ≤ limit then .ok number else .error .tooLarge := by
  rw [readUnsigned_of_head?_ne nonempty, writes.readDigits small]
  intro sign
  have noSign := writes.holds (· ≠ '+') (by decide) small '+' (List.mem_of_head? sign)
  cases noSign

theorem Writes.readSigned? (small : radix ≤ 16) (nonempty : digits ≠ [])
    (writes : Writes radix digits number) :
    readSigned? radix digits = if number < signedEnd then some (number : Int) else none := by
  have noSign := writes.holds (· ≠ '-') (by decide) small
  have bound : number ≤ signedEnd - 1 ↔ number < signedEnd :=
    Nat.le_sub_one_iff_lt (by decide)
  unfold Number.readSigned?
  split
  case h_1 digits => cases noSign '-' List.mem_cons_self
  case h_2 =>
    rw [writes.readUnsigned _ small nonempty]
    by_cases fits : number < signedEnd
    · rw [if_pos (bound.mpr fits), if_pos fits]
    · rw [if_neg (mt bound.mp fits), if_neg fits]

end SourceCapture.Number

namespace SourceCapture.Literal

open Number

/-- Digits that write the code of a character are read as the character. -/
theorem readCode?_of_writes {digits : List Char} {char : Char} (nonempty : digits ≠ [])
    (writes : Writes 16 digits char.toNat) : readCode? digits = some char := by
  have fits : char.toNat ≤ Nat.pow 2 32 - 1 := Nat.le_sub_one_of_lt char.val.toNat_lt
  have valid : char.toNat.isValidChar := char.valid
  rw [readCode?, writes.readUnsigned _ (by decide) nonempty, if_pos fits]
  dsimp only
  rw [if_pos valid, Char.ofNat_toNat]

end SourceCapture.Literal
