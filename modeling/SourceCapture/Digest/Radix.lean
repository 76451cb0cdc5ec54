/-
Names for digests. The bytes of a digest are read as a signed number, highest byte first
and negative when its top bit is set; the number is written in radix 32 with the digits 0
to 9 and a to v, and a letter that is no digit stands for the minus sign. The result is
safe in the name of a file. A number of so many bytes fits no machine word, so it is negated
and divided byte by byte; every division gives one digit, the last one first.
-/

namespace SourceCapture.Radix

/-! ### Numbers as bytes -/

/-- The number that bytes stand for, highest byte first. -/
def unsigned (bytes : List UInt8) : Nat :=
  bytes.foldl (fun value byte => 256 * value + byte.toNat) 0

/-- Whether the top bit of the first byte is set. -/
def isNegative : List UInt8 → Bool
  | [] => false
  | byte :: _ => byte &&& 0x80 ≠ 0

/-- The number that bytes stand for as a two's complement. -/
def signed (bytes : List UInt8) : Int :=
  if isNegative bytes then (unsigned bytes : Int) - Nat.pow 256 bytes.length else unsigned bytes

/-- The bytes with one added, from the last one on for as long as one is carried, and whether
one is carried out of the first. -/
def increment : List UInt8 → List UInt8 × Bool
  | [] => ([], true)
  | byte :: rest =>
    match increment rest with
    | (later, true) => ((byte + 1) :: later, byte = 255)
    | (later, false) => (byte :: later, false)

/-- The two's complement: every bit turned, and one added. -/
def negate (bytes : List UInt8) : List UInt8 := (increment (bytes.map (~~~ ·))).1

/-- The bytes without the zeros at the start. -/
def dropZeros (bytes : List UInt8) : List UInt8 := bytes.dropWhile (· = 0)

/-! ### Division by 32 -/

/-- The byte of the quotient for what is left of the bytes before and one more byte. A quotient
that fits no byte is cut to the largest one. -/
def quotientByte (value : UInt16) : UInt8 :=
  if value / 32 ≤ 255 then (value / 32).toUInt8 else 255

/-- The quotient and the remainder of the bytes, given the remainder of the bytes before. -/
def divide (remainder : UInt16) : List UInt8 → List UInt8 × UInt16
  | [] => ([], remainder)
  | byte :: rest =>
    let value := (remainder <<< 8) ||| byte.toUInt16
    let (quotient, last) := divide (value % 32) rest
    (quotientByte value :: quotient, last)

/-- What a byte counts for in front of so many others. -/
def weight (length : Nat) : Nat := Nat.pow 256 length

theorem weight_zero : weight 0 = 1 := rfl

theorem weight_succ (length : Nat) : weight (length + 1) = weight length * 256 := rfl

theorem weight_pos (length : Nat) : 0 < weight length := Nat.pow_pos (by decide)

theorem unsigned_foldl (bytes : List UInt8) (value : Nat) :
    bytes.foldl (fun value byte => 256 * value + byte.toNat) value =
      weight bytes.length * value + unsigned bytes := by
  induction bytes generalizing value with
  | nil => simp [unsigned, weight_zero]
  | cons byte rest inductionHypothesis =>
    unfold unsigned
    rw [List.foldl_cons, List.foldl_cons, inductionHypothesis, inductionHypothesis (256 * 0 + _),
      List.length_cons, weight_succ, Nat.mul_add, Nat.mul_add, Nat.mul_assoc]
    omega

theorem unsigned_cons (byte : UInt8) (rest : List UInt8) :
    unsigned (byte :: rest) = weight rest.length * byte.toNat + unsigned rest := by
  rw [unsigned, List.foldl_cons, unsigned_foldl, Nat.mul_zero, Nat.zero_add]

theorem unsigned_dropZeros (bytes : List UInt8) : unsigned (dropZeros bytes) = unsigned bytes := by
  induction bytes with
  | nil => rfl
  | cons byte rest inductionHypothesis =>
    unfold dropZeros at inductionHypothesis ⊢
    by_cases zero : byte = 0
    · rw [List.dropWhile_cons_of_pos (by simp [zero]), inductionHypothesis, unsigned_cons, zero]
      simp
    · rw [List.dropWhile_cons_of_neg (by simp [zero])]

theorem dropZeros_eq_nil {bytes : List UInt8} (zero : unsigned bytes = 0) :
    dropZeros bytes = [] := by
  induction bytes with
  | nil => rfl
  | cons byte rest inductionHypothesis =>
    rw [unsigned_cons, Nat.add_eq_zero_iff, Nat.mul_eq_zero] at zero
    have first : byte = 0 := UInt8.toNat_inj.mp (zero.1.resolve_left (Nat.ne_of_gt (weight_pos _)))
    unfold dropZeros at inductionHypothesis ⊢
    rw [List.dropWhile_cons_of_pos (by simp [first]), inductionHypothesis zero.2]

theorem length_dropZeros_le (bytes : List UInt8) : (dropZeros bytes).length ≤ bytes.length :=
  (bytes.dropWhile_sublist _).length_le

theorem toNat_shiftLeft_or {remainder : UInt16} (small : remainder.toNat < 32) (byte : UInt8) :
    ((remainder <<< 8) ||| byte.toUInt16).toNat = 256 * remainder.toNat + byte.toNat := by
  have short : byte.toNat < 2 ^ 8 := byte.toNat_lt
  have fits : remainder.toNat <<< 8 < 2 ^ 16 := by
    rw [Nat.shiftLeft_eq]
    omega
  rw [UInt16.toNat_or, UInt16.toNat_shiftLeft, UInt8.toNat_toUInt16]
  change (remainder.toNat <<< 8) % 2 ^ 16 ||| byte.toNat = _
  rw [Nat.mod_eq_of_lt fits, ← Nat.shiftLeft_add_eq_or_of_lt short, Nat.shiftLeft_eq]
  omega

/-- What is left of a division is so small that every quotient fits a byte. -/
theorem toNat_quotientByte {value : UInt16} (small : value.toNat < 32 * 256) :
    (quotientByte value).toNat = value.toNat / 32 := by
  have fits : value / 32 ≤ 255 := by
    rw [UInt16.le_iff_toNat_le, UInt16.toNat_div]
    change value.toNat / 32 ≤ 255
    omega
  rw [quotientByte, if_pos fits, UInt16.toNat_toUInt8, UInt16.toNat_div]
  change value.toNat / 32 % 256 = _
  omega

@[simp] theorem length_divide (remainder : UInt16) (bytes : List UInt8) :
    (divide remainder bytes).1.length = bytes.length := by
  induction bytes generalizing remainder with
  | nil => rfl
  | cons byte rest inductionHypothesis => simp [divide, inductionHypothesis]

/-- Quotient and remainder of the bytes behind a remainder. -/
theorem divide_spec {remainder : UInt16} (small : remainder.toNat < 32) (bytes : List UInt8) :
    32 * unsigned (divide remainder bytes).1 + (divide remainder bytes).2.toNat =
        weight bytes.length * remainder.toNat + unsigned bytes ∧
      (divide remainder bytes).2.toNat < 32 := by
  induction bytes generalizing remainder with
  | nil => simp [divide, unsigned, weight_zero, small]
  | cons byte rest inductionHypothesis =>
    have short : byte.toNat < 2 ^ 8 := byte.toNat_lt
    have whole := toNat_shiftLeft_or small byte
    generalize value_eq : (remainder <<< 8) ||| byte.toUInt16 = value at whole
    have left : (value % 32).toNat = value.toNat % 32 := UInt16.toNat_mod value 32
    have leftSmall : (value % 32).toNat < 32 := by omega
    obtain ⟨parts, last⟩ := inductionHypothesis leftSmall
    have first : (quotientByte value).toNat = value.toNat / 32 :=
      toNat_quotientByte (by omega)
    have split : weight rest.length * (256 * remainder.toNat + byte.toNat) =
        32 * (weight rest.length * (value.toNat / 32)) + weight rest.length * (value.toNat % 32) := by
      rw [← whole, Nat.mul_left_comm, ← Nat.mul_add, Nat.div_add_mod]
    rw [Nat.mul_add, ← Nat.mul_assoc] at split
    rw [left] at parts
    simp only [divide, value_eq, unsigned_cons, length_divide, first, List.length_cons,
      weight_succ]
    exact ⟨by omega, last⟩

theorem unsigned_divide (bytes : List UInt8) :
    unsigned (divide 0 bytes).1 = unsigned bytes / 32 ∧
      (divide 0 bytes).2.toNat = unsigned bytes % 32 := by
  obtain ⟨parts, small⟩ := divide_spec (show (0 : UInt16).toNat < 32 by decide) bytes
  rw [show (0 : UInt16).toNat = 0 from rfl, Nat.mul_zero, Nat.zero_add] at parts
  omega

/-- A division leaves less of a number, in value or in bytes. -/
theorem unsigned_quotient_lt (byte : UInt8) (rest : List UInt8) :
    unsigned (dropZeros (divide 0 (byte :: rest)).1) +
        (dropZeros (divide 0 (byte :: rest)).1).length <
      unsigned (byte :: rest) + (byte :: rest).length := by
  have short := length_dropZeros_le (divide 0 (byte :: rest)).1
  have quotient := (unsigned_divide (byte :: rest)).1
  rw [length_divide] at short
  rw [unsigned_dropZeros, quotient]
  by_cases zero : unsigned (byte :: rest) = 0
  · rw [zero] at quotient ⊢
    rw [dropZeros_eq_nil quotient]
    simp
  · omega

/-! ### Digits -/

/-- The digit of a value below 32. -/
def digit (value : Nat) : Char :=
  if value < 10 then Char.ofNat (48 + value) else Char.ofNat (87 + value)

/-- The digits of a number in radix 32 in front of the digits that follow. -/
def digitsBefore (number : List UInt8) (following : List Char) : List Char :=
  match number with
  | [] => following
  | byte :: rest =>
    digitsBefore (dropZeros (divide 0 (byte :: rest)).1)
      (digit (divide 0 (byte :: rest)).2.toNat :: following)
termination_by unsigned number + number.length
decreasing_by exact unsigned_quotient_lt byte rest

/-- A number in radix 32, without leading zeros. -/
def encodeUnsigned (bytes : List UInt8) : List Char :=
  if (dropZeros bytes).isEmpty then ['0'] else digitsBefore (dropZeros bytes) []

/-- The name of a text of bytes: its signed value in radix 32, with the letter x for the minus
sign. -/
def encode (bytes : List UInt8) : List Char :=
  if isNegative bytes then 'x' :: encodeUnsigned (negate bytes) else encodeUnsigned bytes

end SourceCapture.Radix
