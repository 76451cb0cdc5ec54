/-
Reading locations back. Numbers are written in decimal digits, so neither a comma nor a newline
is in the encoding of a position, and a location without a newline in its path is read from its
three lines as it was written.
-/

import Mathlib.Data.List.Basic
import SourceCapture.Location
import SourceCapture.Proofs.Text.Splits

namespace SourceCapture

/-! ### Numbers -/

namespace Number

variable {radix limit value number : Nat} {text : List Char}

theorem readDigits_append (radix limit value : Nat) (front back : List Char) :
    readDigits radix limit value (front ++ back) =
      readDigits radix limit value front >>= fun next => readDigits radix limit next back := by
  induction front generalizing value with
  | nil => rfl
  | cons char front inductionHypothesis =>
    rw [List.cons_append, readDigits, readDigits]
    split
    · rfl
    · dsimp only
      split
      · rfl
      · exact inductionHypothesis _

theorem digitValue?_digitChar (digit : Fin 10) :
    digitValue? 10 digit.val.digitChar = some digit.val := by
  revert digit
  decide

/-- A digit behind a number makes it ten times as large and adds its value. -/
theorem readDigits_digitChar {digit : Nat} (isDigit : digit < 10)
    (fits : value * 10 + digit ≤ limit) :
    readDigits 10 limit value [digit.digitChar] = .ok (value * 10 + digit) := by
  have known : digitValue? 10 digit.digitChar = some digit := digitValue?_digitChar ⟨digit, isDigit⟩
  rw [readDigits, known]
  dsimp only
  rw [if_neg (Nat.not_lt.mpr fits), readDigits]

theorem readDigits_toDigits (fits : number ≤ limit) :
    readDigits 10 limit 0 (Nat.toDigits 10 number) = .ok number := by
  induction number using Nat.strongRecOn with
  | ind number inductionHypothesis =>
    by_cases single : number < 10
    · have read : readDigits 10 limit 0 [number.digitChar] = .ok (0 * 10 + number) :=
        readDigits_digitChar single (by omega)
      rw [Nat.toDigits_of_lt_base single, read, Nat.zero_mul, Nat.zero_add]
    · -- Digits are read from the left, so the last one is apart from those of a smaller number.
      have fewer := inductionHypothesis (number / 10) (by omega) (by omega)
      have parts : number / 10 * 10 + number % 10 = number := Nat.div_add_mod' number 10
      have last : readDigits 10 limit (number / 10) [(number % 10).digitChar] =
          .ok (number / 10 * 10 + number % 10) :=
        readDigits_digitChar (Nat.mod_lt _ (by decide)) (by omega)
      rw [Nat.toDigits_of_base_le (by decide) (Nat.not_lt.mp single), readDigits_append, fewer]
      exact last.trans (congrArg Except.ok parts)

theorem readUnsigned_of_head?_ne (nonempty : text ≠ []) (noSign : text.head? ≠ some '+') :
    readUnsigned radix limit text = readDigits radix limit 0 text := by
  unfold readUnsigned
  split
  · exact absurd rfl nonempty
  · exact absurd rfl noSign
  · exact absurd rfl noSign
  · rfl

theorem isDigit_of_mem_toString {char : Char} (member : char ∈ (toString number).toList) :
    char.isDigit = true := by
  rw [Nat.toString_eq_repr, Nat.toList_repr] at member
  exact Nat.isDigit_of_mem_toDigits (by decide) (by decide) member

theorem not_mem_toString {char : Char} (other : char.isDigit = false) :
    char ∉ (toString number).toList := by
  intro member
  rw [isDigit_of_mem_toString member] at other
  cases other

/-- A number is read from its digits. -/
theorem readUnsigned_toString (fits : number ≤ limit) :
    readUnsigned 10 limit (toString number).toList = .ok number := by
  rw [readUnsigned_of_head?_ne]
  · rw [Nat.toString_eq_repr, Nat.toList_repr]
    exact readDigits_toDigits fits
  · rw [Nat.toString_eq_repr, Nat.toList_repr]
    exact Nat.toDigits_ne_nil
  · have sign : '+' ∉ (toString number).toList := not_mem_toString (by decide)
    exact fun first => sign (List.mem_of_mem_head? first)

end Number

/-! ### Positions -/

/-- Whether the numbers of a position fit into 64 bits. -/
structure Position.Fits (position : Position) : Prop where
  char : position.char ≤ Number.unsignedLimit
  line : position.line ≤ Number.unsignedLimit
  column : position.column ≤ Number.unsignedLimit

namespace Position

variable {position : Position}

/-- The numbers of a position as they are written. -/
def fields (position : Position) : List (List Char) :=
  [position.char, position.line, position.column].map fun number => (toString number).toList

theorem toList_encode (position : Position) :
    position.encode.toList = [','].intercalate position.fields := by
  show (toString position.char ++ "," ++ toString position.line ++ "," ++
    toString position.column).toList = _
  simp only [String.toList_append, fields, List.map_cons, List.map_nil,
    List.intercalate_cons_cons, List.intercalate_singleton, List.append_assoc]
  rfl

theorem splitOn_encode (position : Position) :
    position.encode.toList.splitOn ',' = position.fields := by
  rw [toList_encode]
  refine List.splitOn_intercalate ',' (fun field member => ?_) (List.cons_ne_nil _ _)
  obtain ⟨number, -, rfl⟩ := List.mem_map.mp member
  exact Number.not_mem_toString (by decide)

theorem newline_not_mem_encode (position : Position) : '\n' ∉ position.encode.toList := by
  have number : ∀ value : Nat, '\n' ∉ (toString value).toList :=
    fun _ => Number.not_mem_toString (by decide)
  have comma : '\n' ∉ ",".toList := by decide
  show '\n' ∉ (toString position.char ++ "," ++ toString position.line ++ "," ++
    toString position.column).toList
  simp only [String.toList_append, List.mem_append, not_or]
  exact ⟨⟨⟨⟨number _, comma⟩, number _⟩, comma⟩, number _⟩

theorem readField_toString {number : Nat} (fits : number ≤ Number.unsignedLimit) :
    readField (toString number).toList = .ok number := by
  rw [readField, Number.readUnsigned_toString fits]

theorem decode_encode (fits : position.Fits) : decode position.encode.toList = .ok position := by
  rw [decode, splitOn_encode]
  show (readField (toString position.char).toList >>= _) = _
  rw [readField_toString fits.char]
  show (readField (toString position.line).toList >>= _) = _
  rw [readField_toString fits.line]
  show (readField (toString position.column).toList >>= _) = _
  rw [readField_toString fits.column]
  rfl

end Position

/-! ### Locations -/

namespace Location

theorem eq_of_ofParts {path : String} {start stop : Position} {location : Location}
    (checked : ofParts path start stop = .ok location) : location = ⟨path, start, stop⟩ := by
  rw [ofParts, check] at checked
  repeat' split at checked
  all_goals cases checked
  rfl

theorem newline_not_mem_of_check {location checked : Location} (ok : check location = .ok checked) :
    '\n' ∉ location.path.toList := by
  rw [check] at ok
  split at ok
  · cases ok
  · split at ok
    case isTrue => cases ok
    case isFalse oneLine => rwa [List.contains_iff_mem] at oneLine

/-- The lines of an encoded location are those of its path and one for each position. -/
theorem splitOn_encode (location : Location) :
    location.encode.toList.splitOn '\n' = location.path.toList.splitOn '\n' ++
      [location.start.encode.toList, location.stop.encode.toList] := by
  have parts : location.encode.toList = location.path.toList ++
      '\n' :: (location.start.encode.toList ++ '\n' :: location.stop.encode.toList) := by
    simp only [encode, String.toList_append, List.append_assoc]
    rfl
  rw [parts, List.splitOn_append_cons_self,
    List.splitOn_append_cons_self_of_not_mem (Position.newline_not_mem_encode _),
    List.splitOn_eq_singleton (Position.newline_not_mem_encode _)]

/-- A location whose path has no newline is read from its encoding, if it keeps the rules. -/
theorem decode_encode {location : Location} (oneLine : '\n' ∉ location.path.toList)
    (start : location.start.Fits) (stop : location.stop.Fits) :
    decode location.encode = check location := by
  rw [decode, splitOn_encode, List.splitOn_eq_singleton oneLine, List.singleton_append]
  dsimp only
  rw [Position.decode_encode start, Position.decode_encode stop]
  show check ⟨String.ofList location.path.toList, _, _⟩ = _
  rw [String.ofList_toList]

/-- Newlines in the path make the encoding have too many lines. -/
theorem decode_encode_of_newline_mem {location : Location}
    (newline : '\n' ∈ location.path.toList) :
    decode location.encode = .error (.partCount (3 + location.path.toList.count '\n')) := by
  have several : 0 < location.path.toList.count '\n' := List.count_pos_iff.mpr newline
  have lines : (location.encode.toList.splitOn '\n').length =
      3 + location.path.toList.count '\n' := by
    rw [splitOn_encode, List.length_append, Text.length_splitOn, List.length_cons,
      List.length_singleton]
    omega
  rw [decode]
  split
  case h_1 path start stop parts =>
    rw [parts] at lines
    simp only [List.length_cons, List.length_nil] at lines
    omega
  case h_2 => rw [lines]

/-- Reading the lines of a path and two positions has the outcome of building the location from
them. Only a path with newlines is told apart, by how many lines there are. -/
theorem decode_encode_eq_ofParts (path : String) {start stop : Position} (startFits : start.Fits)
    (stopFits : stop.Fits) :
    decode (encode ⟨path, start, stop⟩) =
        (if path.toList.count '\n' = 0 then ofParts path start stop
          else .error (.partCount (3 + path.toList.count '\n'))) ∧
      ∀ location, ofParts path start stop = .ok location →
        decode location.encode = .ok location := by
  refine ⟨?_, fun location accepted => ?_⟩
  · split
    case isTrue none => exact decode_encode (List.count_eq_zero.mp none) startFits stopFits
    case isFalse several =>
      exact decode_encode_of_newline_mem (List.count_pos_iff.mp (Nat.pos_of_ne_zero several))
  · obtain rfl := eq_of_ofParts accepted
    rw [decode_encode (newline_not_mem_of_check accepted) startFits stopFits]
    exact accepted

/-- A path with a comma and a path that a newline breaks in two, both with the largest numbers. -/
theorem decode_encode_eq_ofParts_largest :
    let largest : Position := ⟨Number.unsignedLimit, Number.unsignedLimit, Number.unsignedLimit⟩
    largest.Fits ∧
      decode (encode ⟨"a,1.kt", largest, largest⟩) = .ok ⟨"a,1.kt", largest, largest⟩ ∧
      decode (encode ⟨"a\nb.kt", largest, largest⟩) = .error (.partCount 4) := by
  intro largest
  have fits : largest.Fits := ⟨Nat.le_refl _, Nat.le_refl _, Nat.le_refl _⟩
  have accepted : ofParts "a,1.kt" largest largest = .ok ⟨"a,1.kt", largest, largest⟩ := by
    decide
  refine ⟨fits, (decode_encode_eq_ofParts "a,1.kt" fits fits).2 _ accepted, ?_⟩
  rw [(decode_encode_eq_ofParts "a\nb.kt" fits fits).1]
  decide

end Location

end SourceCapture
