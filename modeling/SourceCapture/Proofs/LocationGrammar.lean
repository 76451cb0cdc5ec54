/-
The texts that are locations. A number is written in decimal digits, at least one and with at most
one plus sign in front; a position is three numbers with two commas; a location is a path and two
positions on three lines. Every text of this form that keeps the rules of a location is read, with
the numbers that its digits have, and nothing else is read.
-/

import SourceCapture.Proofs.Locations
import SourceCapture.Proofs.Runs

namespace SourceCapture

/-! ### The form of a location -/

/-- Whether a text writes a number: digits, at least one, of a value that fits into 64 bits. One
plus sign may precede them. -/
def Number.Spells (text : List Char) (number : Nat) : Prop :=
  ∃ digits, (text = digits ∨ text = '+' :: digits) ∧ digits ≠ [] ∧
    (∀ digit ∈ digits, digit.isDigit = true) ∧ Nat.ofDigitChars 10 digits 0 = number ∧
    number ≤ unsignedLimit

/-- Whether a text writes the three numbers of a position with two commas. -/
def Position.Spells (text : List Char) (position : Position) : Prop :=
  text.count ',' = 2 ∧ ∃ char line column, text = char ++ ',' :: (line ++ ',' :: column) ∧
    Number.Spells char position.char ∧ Number.Spells line position.line ∧
    Number.Spells column position.column

/-- Whether a path starts at no root: with neither slash nor with a drive letter and a colon. -/
def Location.IsRelative (path : List Char) : Prop :=
  path.head? ≠ some '/' ∧ path.head? ≠ some '\\' ∧
    ∀ drive rest, path = drive :: ':' :: rest → drive.isAlpha = false

/-- Whether the parts of a location keep its rules, the path being one line. -/
structure Location.IsValid (location : Location) : Prop where
  path : location.path ≠ ""
  relative : IsRelative location.path.toList
  startLine : location.start.line ≠ 0
  stopLine : location.stop.line ≠ 0
  ordered : location.start.char ≤ location.stop.char

/-- Whether a text writes a location that keeps the rules: its path and its positions with two
newlines. -/
def Location.Spells (text : List Char) (location : Location) : Prop :=
  text.count '\n' = 2 ∧ location.IsValid ∧
    ∃ start stop, text = location.path.toList ++ '\n' :: (start ++ '\n' :: stop) ∧
      Position.Spells start location.start ∧ Position.Spells stop location.stop

/-! ### Numbers -/

namespace Number

variable {limit value number : Nat} {text : List Char}

theorem digitValue?_eq_some_iff {char : Char} {digit : Nat} :
    digitValue? 10 char = some digit ↔ char.isDigit = true ∧ char.toNat - '0'.toNat = digit := by
  have zero : '0'.toNat = 48 := rfl
  have range : char.isDigit = true ↔ 48 ≤ char.toNat ∧ char.toNat ≤ 57 := by
    rw [Char.isDigit, Bool.and_eq_true, decide_eq_true_iff, decide_eq_true_iff]
    rfl
  rw [range, zero, digitValue?]
  grind

theorem le_ofDigitChars (digits : List Char) (value : Nat) :
    value ≤ Nat.ofDigitChars 10 digits value := by
  rw [Nat.ofDigitChars_eq_ofDigitChars_zero]
  exact Nat.le_add_right_of_le (Nat.le_mul_of_pos_left value (Nat.pow_pos (by decide)))

/-- Behind a value within the limit, exactly digits are read that leave it there. -/
theorem readDigits_eq_ok_iff (within : value ≤ limit) :
    readDigits 10 limit value text = .ok number ↔
      (∀ digit ∈ text, digit.isDigit = true) ∧ Nat.ofDigitChars 10 text value = number ∧
        number ≤ limit := by
  induction text generalizing value with
  | nil =>
    rw [readDigits, Except.ok.injEq]
    exact ⟨fun same => ⟨List.forall_mem_nil _, same, same ▸ within⟩, fun read => read.2.1⟩
  | cons char rest inductionHypothesis =>
    rw [readDigits, List.forall_mem_cons, Nat.ofDigitChars_cons]
    split
    case h_1 noDigit =>
      refine iff_of_false error_ne_ok fun read => ?_
      rw [digitValue?_eq_some_iff.mpr ⟨read.1.1, rfl⟩] at noDigit
      cases noDigit
    case h_2 digit known =>
      obtain ⟨isDigit, rfl⟩ := digitValue?_eq_some_iff.mp known
      dsimp only
      rw [Nat.mul_comm value 10]
      split
      case isTrue past =>
        refine iff_of_false error_ne_ok fun read => ?_
        have reached := le_ofDigitChars rest (10 * value + (char.toNat - '0'.toNat))
        rw [read.2.1] at reached
        exact absurd past (Nat.not_lt.mpr (Nat.le_trans reached read.2.2))
      case isFalse notPast =>
        rw [inductionHypothesis (Nat.not_lt.mp notPast)]
        exact ⟨fun read => ⟨⟨isDigit, read.1⟩, read.2⟩, fun read => ⟨read.1.2, read.2⟩⟩

theorem not_isDigit_plus : '+'.isDigit = false := by decide

/-- Exactly the texts that write a number are read, as that number. -/
theorem readUnsigned_eq_ok_iff : readUnsigned 10 unsignedLimit text = .ok number ↔
    Spells text number := by
  by_cases sign : text.head? = some '+'
  · obtain ⟨digits, rfl⟩ := List.head?_eq_some_iff.mp sign
    -- A sign is no digit, so the digits are those behind it.
    have spelled : Spells ('+' :: digits) number ↔ digits ≠ [] ∧
        readDigits 10 unsignedLimit 0 digits = .ok number := by
      rw [readDigits_eq_ok_iff (Nat.zero_le _)]
      constructor
      · rintro ⟨_, rfl | behind, nonempty, allDigits, read⟩
        · exact absurd (allDigits '+' List.mem_cons_self) (by simp [not_isDigit_plus])
        · cases behind
          exact ⟨nonempty, allDigits, read⟩
      · rintro ⟨nonempty, read⟩
        exact ⟨digits, Or.inr rfl, nonempty, read⟩
    rw [spelled]
    cases digits with
    | nil => exact iff_of_false error_ne_ok fun read => absurd rfl read.1
    | cons digit rest => exact ⟨fun read => ⟨List.cons_ne_nil _ _, read⟩, fun read => read.2⟩
  · by_cases empty : text = []
    · subst empty
      refine iff_of_false error_ne_ok ?_
      rintro ⟨_, rfl | behind, nonempty, -⟩
      · exact absurd rfl nonempty
      · cases behind
    · rw [readUnsigned_of_head?_ne empty sign, readDigits_eq_ok_iff (Nat.zero_le _)]
      constructor
      · exact fun read => ⟨text, Or.inl rfl, empty, read⟩
      · rintro ⟨_, rfl | rfl, -, read⟩
        · exact read
        · exact absurd rfl sign

end Number

/-! ### Positions -/

namespace Position

variable {text : List Char} {position : Position}

theorem readField_eq_ok_iff {number : Nat} :
    readField text = .ok number ↔ Number.Spells text number := by
  rw [← Number.readUnsigned_eq_ok_iff, readField]
  split
  case h_1 value read => rw [read, Except.ok.injEq, Except.ok.injEq]
  case h_2 cause failed => rw [failed]; exact iff_of_false error_ne_ok error_ne_ok

/-- Exactly the texts that write a position are read, as that position. -/
theorem decode_eq_ok_iff : decode text = .ok position ↔ Spells text position := by
  rw [decode]
  constructor
  · intro read
    split at read
    case h_1 char line column fields =>
      obtain ⟨count, written⟩ := Text.splitOn_eq_triple_iff.mp fields
      obtain ⟨charValue, charRead, read⟩ := bind_eq_ok_iff.mp read
      obtain ⟨lineValue, lineRead, read⟩ := bind_eq_ok_iff.mp read
      obtain ⟨columnValue, columnRead, read⟩ := bind_eq_ok_iff.mp read
      cases read
      exact ⟨count, char, line, column, written, readField_eq_ok_iff.mp charRead,
        readField_eq_ok_iff.mp lineRead, readField_eq_ok_iff.mp columnRead⟩
    case h_2 => cases read
  · rintro ⟨count, char, line, column, written, charSpelled, lineSpelled, columnSpelled⟩
    rw [Text.splitOn_eq_triple_iff.mpr ⟨count, written⟩]
    exact bind_eq_ok_iff.mpr ⟨_, readField_eq_ok_iff.mpr charSpelled,
      bind_eq_ok_iff.mpr ⟨_, readField_eq_ok_iff.mpr lineSpelled,
        bind_eq_ok_iff.mpr ⟨_, readField_eq_ok_iff.mpr columnSpelled, rfl⟩⟩⟩

theorem Spells.fits (spelled : Spells text position) : position.Fits := by
  obtain ⟨-, _, _, _, -, ⟨_, -, -, -, -, char⟩, ⟨_, -, -, -, -, line⟩, ⟨_, -, -, -, -, column⟩⟩ :=
    spelled
  exact ⟨char, line, column⟩

end Position

/-! ### Locations -/

namespace Location

variable {text : List Char} {location checked : Location}

theorem looksAbsolute_eq_false_iff {path : List Char} :
    looksAbsolute path = false ↔ IsRelative path := by
  unfold looksAbsolute
  split
  case h_1 rest => exact iff_of_false Bool.true_eq_false.mp fun relative => absurd rfl relative.1
  case h_2 rest => exact iff_of_false Bool.true_eq_false.mp fun relative => absurd rfl relative.2.1
  case h_3 drive rest noSlash noBackslash =>
    refine ⟨fun noLetter => ⟨?_, ?_, ?_⟩, fun relative => relative.2.2 drive rest rfl⟩
    · exact fun first => noSlash (Option.some.inj first)
    · exact fun first => noBackslash (Option.some.inj first)
    · rintro _ _ ⟨⟩
      exact noLetter
  case h_4 noSlash noBackslash noColon =>
    refine ⟨fun _ => ⟨?_, ?_, ?_⟩, fun _ => rfl⟩
    · exact fun first => (List.head?_eq_some_iff.mp first).elim noSlash
    · exact fun first => (List.head?_eq_some_iff.mp first).elim noBackslash
    · exact fun drive rest written => (noColon drive rest written).elim

/-- The rules let exactly the valid locations with a path of one line pass, and as they are. -/
theorem check_eq_ok_iff : check location = .ok checked ↔
    location = checked ∧ '\n' ∉ location.path.toList ∧ location.IsValid := by
  have empty : location.path.isEmpty = true ↔ location.path = "" := String.isEmpty_iff
  have newline : location.path.toList.contains '\n' = true ↔ '\n' ∈ location.path.toList :=
    List.contains_iff_mem
  have zero : (location.start.line = 0 || location.stop.line = 0) = true ↔
      location.start.line = 0 ∨ location.stop.line = 0 := by
    rw [Bool.or_eq_true, decide_eq_true_iff, decide_eq_true_iff]
  rw [check]
  constructor
  · intro ok
    split at ok
    case isTrue => cases ok
    case isFalse nonempty =>
    split at ok
    case isTrue => cases ok
    case isFalse oneLine =>
    split at ok
    case isTrue => cases ok
    case isFalse relative =>
    split at ok
    case isTrue => cases ok
    case isFalse counted =>
    split at ok
    case isTrue => cases ok
    case isFalse ordered =>
    rw [zero, not_or] at counted
    cases ok
    exact ⟨rfl, newline.not.mp oneLine, empty.not.mp nonempty,
      looksAbsolute_eq_false_iff.mp (Bool.eq_false_iff.mpr relative), counted.1, counted.2,
      Nat.not_lt.mp ordered⟩
  · rintro ⟨rfl, oneLine, valid⟩
    rw [if_neg (empty.not.mpr valid.path), if_neg (newline.not.mpr oneLine),
      if_neg (Bool.eq_false_iff.mp (looksAbsolute_eq_false_iff.mpr valid.relative)),
      if_neg (zero.not.mpr (not_or.mpr ⟨valid.startLine, valid.stopLine⟩)),
      if_neg (Nat.not_lt.mpr valid.ordered)]

theorem Spells.fits (spelled : Spells text location) :
    location.start.Fits ∧ location.stop.Fits := by
  obtain ⟨-, -, _, _, -, start, stop⟩ := spelled
  exact ⟨start.fits, stop.fits⟩

theorem Spells.newline_not_mem (spelled : Spells text location) :
    '\n' ∉ location.path.toList := by
  obtain ⟨count, -, start, stop, written, -⟩ := spelled
  have lines := Text.splitOn_eq_triple_iff.mpr ⟨count, written⟩
  exact Text.not_mem_of_mem_splitOn (lines ▸ List.mem_cons_self)

theorem decode_eq_ok_iff {encoded : String} :
    decode encoded = .ok location ↔ Spells encoded.toList location := by
  rw [decode]
  constructor
  · intro read
    split at read
    case h_1 path start stop lines =>
      obtain ⟨count, written⟩ := Text.splitOn_eq_triple_iff.mp lines
      obtain ⟨startRead, startDecoded, read⟩ := bind_eq_ok_iff.mp read
      obtain ⟨stopRead, stopDecoded, read⟩ := bind_eq_ok_iff.mp read
      obtain ⟨rfl, -, valid⟩ := check_eq_ok_iff.mp read
      rw [← String.toList_ofList (l := path)] at written
      exact ⟨count, valid, start, stop, written, Position.decode_eq_ok_iff.mp startDecoded,
        Position.decode_eq_ok_iff.mp stopDecoded⟩
    case h_2 => cases read
  · intro spelled
    have oneLine := spelled.newline_not_mem
    obtain ⟨count, valid, start, stop, written, startSpelled, stopSpelled⟩ := spelled
    have checked : check ⟨String.ofList location.path.toList, location.start, location.stop⟩ =
        .ok location := by
      rw [String.ofList_toList]
      exact check_eq_ok_iff.mpr ⟨rfl, oneLine, valid⟩
    rw [Text.splitOn_eq_triple_iff.mpr ⟨count, written⟩]
    exact bind_eq_ok_iff.mpr ⟨_, Position.decode_eq_ok_iff.mpr startSpelled,
      bind_eq_ok_iff.mpr ⟨_, Position.decode_eq_ok_iff.mpr stopSpelled, checked⟩⟩

/-- Exactly the texts that write a location are read, as that location, and reading it once more
from its own lines gives the same. -/
theorem decode_exact (encoded : String) :
    (∀ location, decode encoded = .ok location ↔ Spells encoded.toList location) ∧
      ∀ location, decode encoded = .ok location → decode location.encode = .ok location := by
  refine ⟨fun location => decode_eq_ok_iff, fun location read => ?_⟩
  have spelled := decode_eq_ok_iff.mp read
  rw [decode_encode spelled.newline_not_mem spelled.fits.1 spelled.fits.2]
  exact check_eq_ok_iff.mpr ⟨rfl, spelled.newline_not_mem, spelled.2.1⟩

end Location

end SourceCapture
