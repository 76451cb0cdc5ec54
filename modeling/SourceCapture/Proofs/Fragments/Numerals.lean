/-
Numbers in radix 32. The name of a text of bytes spells the number that the bytes are as a two's
complement: read back digit by digit, with the letter x for the minus sign, it gives that number
again. It is the only way to write the number, since no digit is a zero at the start, and so bytes
of one length have one name only if they are the same bytes. Since digests are of one length, two
texts have one hash just when they have one digest.
-/

import Mathlib.Data.List.Basic
import Mathlib.Data.List.DropRight
import Mathlib.Data.Set.Function
import SourceCapture.Digest

namespace SourceCapture

namespace Radix

/-! ### Numbers as bytes -/

theorem unsigned_lt (bytes : List UInt8) : unsigned bytes < weight bytes.length := by
  induction bytes with
  | nil => exact Nat.one_pos
  | cons byte rest inductionHypothesis =>
    have short : byte.toNat + 1 ≤ 256 := byte.toNat_lt
    have bound := Nat.mul_le_mul_left (weight rest.length) short
    rw [Nat.mul_succ] at bound
    rw [unsigned_cons, List.length_cons, weight_succ]
    omega

theorem unsigned_injOn {left right : List UInt8} (long : left.length = right.length)
    (same : unsigned left = unsigned right) : left = right := by
  induction left generalizing right with
  | nil => exact (List.length_eq_zero_iff.mp long.symm).symm
  | cons first rest inductionHypothesis =>
    obtain ⟨other, others, rfl⟩ := List.exists_cons_of_length_eq_add_one long.symm
    have restLong : rest.length = others.length := Nat.succ.inj long
    have positive : 0 < weight rest.length := weight_pos _
    rw [unsigned_cons, unsigned_cons, ← restLong] at same
    have restLt := unsigned_lt rest
    have othersLt := restLong ▸ unsigned_lt others
    obtain ⟨firsts, rests⟩ := (Nat.div_mod_unique positive).mpr
      ⟨(Nat.add_comm _ _).trans same, restLt⟩
    rw [Nat.mul_add_div positive, Nat.div_eq_of_lt othersLt, Nat.add_zero] at firsts
    rw [Nat.mul_add_mod, Nat.mod_eq_of_lt othersLt] at rests
    rw [UInt8.toNat_inj.mp firsts, inductionHypothesis restLong rests.symm]

theorem unsigned_pos_of_isNegative {bytes : List UInt8} (negative : isNegative bytes = true) :
    0 < unsigned bytes := by
  cases bytes with
  | nil => cases negative
  | cons byte rest =>
    have nonzero : 0 < byte.toNat := by
      refine Nat.pos_of_ne_zero fun zero => ?_
      rw [UInt8.toNat_inj.mp (zero.trans UInt8.toNat_zero.symm)] at negative
      exact absurd negative Bool.false_ne_true
    rw [unsigned_cons]
    exact Nat.add_pos_left (Nat.mul_pos (weight_pos _) nonzero) _

/-- One more, but for what is carried out of the first byte. -/
theorem unsigned_increment (bytes : List UInt8) :
    unsigned (increment bytes).1 + (if (increment bytes).2 then weight bytes.length else 0) =
        unsigned bytes + 1 ∧ (increment bytes).1.length = bytes.length := by
  induction bytes with
  | nil => exact ⟨rfl, rfl⟩
  | cons byte rest inductionHypothesis =>
    unfold increment
    generalize increment rest = later at inductionHypothesis
    obtain ⟨bytes, carries⟩ := later
    obtain ⟨sum, long⟩ := inductionHypothesis
    cases carries with
    | false =>
      simp only [Bool.false_eq_true, if_false] at sum ⊢
      refine ⟨?_, congrArg (· + 1) long⟩
      rw [unsigned_cons, unsigned_cons, long]
      omega
    | true =>
      simp only [if_true] at sum ⊢
      refine ⟨?_, congrArg (· + 1) long⟩
      rw [unsigned_cons, unsigned_cons, long, List.length_cons, weight_succ]
      by_cases full : byte = 255
      · rw [full]
        simp
        omega
      · have room : (byte + 1).toNat = byte.toNat + 1 := by
          have short : byte.toNat < 256 := byte.toNat_lt
          have other : byte.toNat ≠ 255 := fun same => full (UInt8.toNat_inj.mp same)
          rw [UInt8.toNat_add]
          change (byte.toNat + 1) % 256 = _
          omega
        rw [room, decide_eq_false full, Nat.mul_add]
        simp
        omega

theorem unsigned_map_not (bytes : List UInt8) :
    unsigned (bytes.map (~~~ ·)) + unsigned bytes + 1 = weight bytes.length := by
  induction bytes with
  | nil => rfl
  | cons byte rest inductionHypothesis =>
    have turned : (~~~ byte).toNat + byte.toNat = 255 := by
      have short : byte.toNat < 256 := byte.toNat_lt
      rw [UInt8.toNat_not]
      change 256 - 1 - byte.toNat + byte.toNat = 255
      omega
    rw [List.map_cons, unsigned_cons, unsigned_cons, List.length_map, List.length_cons,
      weight_succ]
    have both : weight rest.length * (~~~ byte).toNat + weight rest.length * byte.toNat =
        weight rest.length * 255 := by rw [← Nat.mul_add, turned]
    omega

/-- A negative number and its two's complement make up a power. -/
theorem unsigned_negate {bytes : List UInt8} (positive : 0 < unsigned bytes) :
    unsigned (negate bytes) + unsigned bytes = weight bytes.length := by
  have sum := (unsigned_increment (bytes.map (~~~ ·))).1
  have parts := unsigned_map_not bytes
  rw [List.length_map] at sum
  unfold negate
  split at sum
  · omega
  · omega

theorem signed_of_isNegative {bytes : List UInt8} (negative : isNegative bytes = true) :
    signed bytes = -(unsigned (negate bytes) : Int) := by
  have whole := unsigned_negate (unsigned_pos_of_isNegative negative)
  rw [signed, if_pos negative]
  change (unsigned bytes : Int) - (weight bytes.length : Int) = _
  omega

theorem signed_of_not_isNegative {bytes : List UInt8} (other : isNegative bytes = false) :
    signed bytes = unsigned bytes := by
  rw [signed, if_neg (by rw [other]; exact Bool.false_ne_true)]

theorem signed_lt_zero_iff (bytes : List UInt8) : signed bytes < 0 ↔ isNegative bytes = true := by
  cases negative : isNegative bytes with
  | false =>
    rw [signed_of_not_isNegative negative]
    simp
  | true =>
    have small := unsigned_lt bytes
    rw [signed, if_pos negative]
    change (unsigned bytes : Int) - (weight bytes.length : Int) < 0 ↔ _
    simp only [iff_true]
    omega

/-- Bytes of one length are the same if they stand for the same number. -/
theorem signed_injOn (length : Nat) :
    Set.InjOn signed {bytes : List UInt8 | bytes.length = length} := by
  intro left leftLong right rightLong same
  have long : left.length = right.length := leftLong.trans rightLong.symm
  have sign : isNegative left = isNegative right := by
    rw [Bool.eq_iff_iff, ← signed_lt_zero_iff, ← signed_lt_zero_iff, same]
  refine unsigned_injOn long ?_
  rw [signed, signed, sign, long] at same
  split at same
  · omega
  · omega

/-! ### Reading numbers in radix 32 -/

/-- The digits in the order of their values. -/
def digits : List Char := "0123456789abcdefghijklmnopqrstuv".toList

/-- The number that a digit is read as behind a number. -/
def readDigit? (before : Nat) (char : Char) : Option Nat :=
  (digits.idxOf? char).map (32 * before + ·)

/-- The number that digits are read as, the first one the highest. -/
def readUnsigned? (text : List Char) : Option Nat := text.foldlM readDigit? 0

/-- The number that digits are read as, with the letter x in front of a negative one. -/
def read? : List Char → Option Int
  | 'x' :: text => (readUnsigned? text).map fun value => -(value : Int)
  | text => (readUnsigned? text).map Int.ofNat

/-- Whether a text writes a number: digits, at least one and without a zero in front of others,
behind the letter x if the number is negative, and read back as the number. -/
structure Writes (text : List Char) (value : Int) : Prop where
  spelled : ∃ number, text = (if value < 0 then ['x'] else []) ++ number ∧ number ≠ [] ∧
    (∀ char ∈ number, char ∈ digits) ∧ (number.head? = some '0' → number = ['0'])
  read : read? text = some value

/-- A number is written in one way. -/
theorem Writes.eq_of_eq {text : List Char} {value other : Int} (writes : Writes text value)
    (others : Writes text other) : value = other := by
  have same := writes.read.symm.trans others.read
  exact Option.some.inj same

/-! ### Writing digits -/

theorem idxOf?_digit {value : Nat} (small : value < 32) :
    digits.idxOf? (digit value) = some value := by
  revert value
  decide

theorem digit_mem {value : Nat} (small : value < 32) : digit value ∈ digits := by
  revert value
  decide

theorem digit_ne_zero {value : Nat} (small : value < 32) (nonzero : value ≠ 0) :
    digit value ≠ '0' := by
  revert value
  decide

theorem toNat_remainder_lt (number : List UInt8) : (divide 0 number).2.toNat < 32 := by
  rw [(unsigned_divide number).2]
  exact Nat.mod_lt _ (by decide)

theorem foldlM_digitsBefore (number : List UInt8) (following : List Char) :
    (digitsBefore number following).foldlM readDigit? 0 =
      following.foldlM readDigit? (unsigned number) := by
  induction number, following using digitsBefore.induct with
  | case1 following =>
    rw [digitsBefore]
    rfl
  | case2 following byte rest inductionHypothesis =>
    have parts := unsigned_divide (byte :: rest)
    have whole := Nat.div_add_mod (unsigned (byte :: rest)) 32
    rw [digitsBefore, inductionHypothesis, unsigned_dropZeros, List.foldlM_cons, readDigit?,
      idxOf?_digit (toNat_remainder_lt _), parts.1, parts.2, Option.map_some, whole]
    rfl

theorem mem_digits_of_mem_digitsBefore (number : List UInt8) {following : List Char}
    (fine : ∀ char ∈ following, char ∈ digits) :
    ∀ char ∈ digitsBefore number following, char ∈ digits := by
  induction number, following using digitsBefore.induct with
  | case1 following => rwa [digitsBefore]
  | case2 following byte rest inductionHypothesis =>
    rw [digitsBefore]
    exact inductionHypothesis (List.forall_mem_cons.mpr ⟨digit_mem (toNat_remainder_lt _), fine⟩)

theorem dropZeros_dropZeros (bytes : List UInt8) : dropZeros (dropZeros bytes) = dropZeros bytes :=
  List.dropWhile_idempotent _ bytes

/-- A number without zeros at its start is not zero, and neither is its first digit. -/
theorem exists_digitsBefore_eq_cons (number : List UInt8) (following : List Char)
    (normal : dropZeros number = number) (nonempty : number ≠ []) :
    ∃ first rest, digitsBefore number following = first :: rest ∧ first ≠ '0' := by
  induction number, following using digitsBefore.induct with
  | case1 following => exact absurd rfl nonempty
  | case2 following byte rest inductionHypothesis =>
    rw [digitsBefore]
    by_cases last : dropZeros (divide 0 (byte :: rest)).1 = []
    · have parts := unsigned_divide (byte :: rest)
      have nothing : unsigned (divide 0 (byte :: rest)).1 = 0 := by
        rw [← unsigned_dropZeros, last]
        rfl
      have nonzero : unsigned (byte :: rest) ≠ 0 := fun zero =>
        nonempty (normal.symm.trans (dropZeros_eq_nil zero))
      refine ⟨_, following, ?_, digit_ne_zero (toNat_remainder_lt (byte :: rest)) ?_⟩
      · rw [last, digitsBefore]
      · omega
    · exact inductionHypothesis (dropZeros_dropZeros _) last

theorem readUnsigned?_encodeUnsigned (bytes : List UInt8) :
    readUnsigned? (encodeUnsigned bytes) = some (unsigned bytes) := by
  rw [readUnsigned?, encodeUnsigned, ← unsigned_dropZeros bytes]
  split
  case isTrue zero =>
    rw [List.isEmpty_iff.mp zero]
    decide
  case isFalse => rw [foldlM_digitsBefore, List.foldlM_nil]; rfl

theorem encodeUnsigned_spelled (bytes : List UInt8) :
    encodeUnsigned bytes ≠ [] ∧ (∀ char ∈ encodeUnsigned bytes, char ∈ digits) ∧
      ((encodeUnsigned bytes).head? = some '0' → encodeUnsigned bytes = ['0']) := by
  unfold encodeUnsigned
  split
  case isTrue => exact ⟨List.cons_ne_nil _ _, List.forall_mem_singleton.mpr (by decide), fun _ => rfl⟩
  case isFalse nonempty =>
    obtain ⟨first, rest, same, nonzero⟩ := exists_digitsBefore_eq_cons (dropZeros bytes) []
      (dropZeros_dropZeros bytes) fun empty => nonempty (List.isEmpty_iff.mpr empty)
    refine ⟨?_, mem_digits_of_mem_digitsBefore _ (List.forall_mem_nil _), ?_⟩
    · rw [same]
      exact List.cons_ne_nil _ _
    · rw [same, List.head?_cons]
      exact fun zero => absurd (Option.some.inj zero) nonzero

/-- The name of bytes writes the number that they stand for. -/
theorem writes_encode (bytes : List UInt8) : Writes (encode bytes) (signed bytes) := by
  have sign := signed_lt_zero_iff bytes
  cases negative : isNegative bytes with
  | true =>
    have below := sign.mpr negative
    rw [encode, if_pos negative]
    refine ⟨⟨_, ?_, encodeUnsigned_spelled (negate bytes)⟩, ?_⟩
    · rw [if_pos below]
      rfl
    · rw [read?, readUnsigned?_encodeUnsigned, signed_of_isNegative negative]
      rfl
  | false =>
    have notBelow : ¬signed bytes < 0 := fun below => by
      rw [sign.mp below] at negative
      cases negative
    have spelled := encodeUnsigned_spelled bytes
    rw [encode, if_neg (by rw [negative]; exact Bool.false_ne_true)]
    refine ⟨⟨_, ?_, spelled⟩, ?_⟩
    · rw [if_neg notBelow]
      rfl
    · unfold read?
      split
      case h_1 text same =>
        rw [same] at spelled
        exact absurd (spelled.2.1 'x' List.mem_cons_self) (by decide)
      case h_2 =>
        rw [readUnsigned?_encodeUnsigned, signed_of_not_isNegative negative]
        rfl

/-- The lowest number of one byte is its own two's complement. -/
example : encode [0x80] = ['x', '4', '0'] := by cbv

theorem encode_injOn (length : Nat) :
    Set.InjOn encode {bytes : List UInt8 | bytes.length = length} := by
  intro left leftLong right rightLong same
  refine signed_injOn length leftLong rightLong ((writes_encode left).eq_of_eq ?_)
  rw [same]
  exact writes_encode right

end Radix

/-- The name of every text of bytes writes the number that the bytes stand for. So bytes of one
length have different names unless they are the same, and texts have one hash just when they have
one digest. -/
theorem Radix.writes_signed_and_fragmentHash_eq_iff :
    (∀ bytes, Radix.Writes (Radix.encode bytes) (Radix.signed bytes)) ∧
      (∀ length, Set.InjOn Radix.encode {bytes : List UInt8 | bytes.length = length}) ∧
      ∀ text other : String, fragmentHash text = fragmentHash other ↔
        Sha256.digest text.toUTF8.toList = Sha256.digest other.toUTF8.toList := by
  refine ⟨writes_encode, encode_injOn, fun text other => ⟨fun same => ?_, fun same => ?_⟩⟩
  · exact encode_injOn 32 (Sha256.length_digest _) (Sha256.length_digest _)
      (String.ofList_injective same)
  · rw [fragmentHash, fragmentHash, same]

end SourceCapture
