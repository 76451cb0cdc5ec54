/-
Byte offsets and the positions that are found for them. An offset has a position just if the bytes
in front of it are a text, and the position is what counting through that text gives. The text in
front of a later offset continues the one in front of an earlier offset. So positions grow with
their offsets, and the ends of a range that is not reversed are in order.
-/

import SourceCapture.Proofs.Positions

namespace SourceCapture

/-! ### Texts as strings -/

namespace Text

variable {text front middle rest other : List Char} {offset : Nat}

/-- The bytes that are counted are those of the string. -/
theorem byteLength_eq_utf8ByteSize (text : List Char) :
    byteLength text = (String.ofList text).utf8ByteSize := by
  induction text with
  | nil => rfl
  | cons char rest inductionHypothesis =>
    rw [byteLength, inductionHypothesis, String.ofList_cons, String.utf8ByteSize_append,
      String.utf8ByteSize_singleton]

/-- The boundaries of a text are the places between the characters of the string. -/
theorem isBoundary_iff_isValid (text : List Char) (offset : Nat) :
    isBoundary text offset = true ↔ String.Pos.Raw.IsValid (String.ofList text) ⟨offset⟩ := by
  rw [isBoundary_iff, String.Pos.Raw.isValid_iff_exists_append]
  constructor
  · rintro ⟨front, rest, rfl, rfl⟩
    refine ⟨String.ofList front, String.ofList rest, String.ofList_append, ?_⟩
    rw [byteLength_eq_utf8ByteSize]
    rfl
  · rintro ⟨front, rest, split, place⟩
    refine ⟨front.toList, rest.toList, ?_, ?_⟩
    · have characters := congrArg String.toList split
      rwa [String.toList_ofList, String.toList_append] at characters
    · rw [byteLength_eq_utf8ByteSize, String.ofList_toList]
      exact (congrArg String.Pos.Raw.byteIdx place).symm

/-- The text in front of a later place continues the one in front of an earlier place. -/
theorem exists_append_of_byteLength_le (same : front ++ rest = other ++ middle)
    (earlier : byteLength front ≤ byteLength other) : ∃ more, other = front ++ more := by
  rcases List.append_eq_append_iff.mp same with ⟨more, rfl, -⟩ | ⟨back, rfl, -⟩
  · exact ⟨more, rfl⟩
  · -- The other way round there is nothing between the two places.
    rw [byteLength_append] at earlier
    rw [eq_nil_of_byteLength_eq_zero (show byteLength back = 0 by omega), List.append_nil]
    exact ⟨[], (List.append_nil other).symm⟩

end Text

/-! ### Positions one after the other -/

namespace Position

variable {front more : List Char}

/-- Whether a position comes before another one of the same file: it has fewer characters before
it, and it is on an earlier line, or earlier on the same one. -/
structure Before (first second : Position) : Prop where
  char : first.char < second.char
  place : first.line < second.line ∨ first.line = second.line ∧ first.column < second.column

theorem column_after_append (front : List Char) (without : '\n' ∉ more) :
    (after (front ++ more)).column = (after front).column + more.length := by
  obtain ⟨lines, last, rfl, ended, lastWithout⟩ := Text.exists_lastLine front
  have onLine : '\n' ∉ last ++ more := by
    rw [List.mem_append, not_or]
    exact ⟨lastWithout, without⟩
  rw [List.append_assoc, column_after ended onLine, column_after ended lastWithout,
    List.length_append]

/-- More text leads to a later position. -/
theorem before_after_append (front : List Char) (some : more ≠ []) :
    (after front).Before (after (front ++ more)) := by
  have longer : 0 < more.length := List.length_pos_iff.mpr some
  refine ⟨?_, ?_⟩
  · show front.length < (front ++ more).length
    rw [List.length_append]
    omega
  · by_cases newline : '\n' ∈ more
    · refine .inl ?_
      show 1 + front.count '\n' < 1 + (front ++ more).count '\n'
      have counted : 0 < more.count '\n' := List.count_pos_iff.mpr newline
      rw [List.count_append]
      omega
    · refine .inr ⟨?_, ?_⟩
      · show 1 + front.count '\n' = 1 + (front ++ more).count '\n'
        rw [List.count_append, List.count_eq_zero.mpr newline, Nat.add_zero]
      · rw [column_after_append front newline]
        omega

end Position

/-! ### The positions of a file -/

namespace Document

variable {path projectDir : Path} {content : List Char} {offset first second : Nat}
  {position start stop : Position} {document : Document}

theorem exists_position_iff : (∃ position, document.position offset = .ok position) ↔
    Text.isBoundary document.content offset = true := by
  refine ⟨fun ⟨position, found⟩ => ?_, document.exists_position⟩
  by_contra inside
  rw [Document.position, if_neg inside] at found
  cases found

/-- The positions of a file are those of the texts that it starts with. -/
theorem position_eq_ok_iff : (ofFile path content projectDir).position offset = .ok position ↔
    ∃ front rest, content = front ++ rest ∧ Text.byteLength front = offset ∧
      position = Position.after front := by
  constructor
  · intro found
    obtain ⟨front, rest, rfl, rfl⟩ :=
      (Text.isBoundary_iff content offset).mp (exists_position_iff.mp ⟨position, found⟩)
    rw [position_ofFile] at found
    exact ⟨front, rest, rfl, rfl, (Except.ok.inj found).symm⟩
  · rintro ⟨front, rest, rfl, rfl, rfl⟩
    exact position_ofFile path projectDir front rest

/-- A position that is not there is reported with the offset and the size of the file. -/
theorem eq_of_position_eq_error {error : SpanError}
    (refused : document.position offset = .error error) :
    error = ⟨offset, offset, Text.byteLength document.content⟩ := by
  rw [Document.position] at refused
  split at refused
  · cases refused
  · exact (Except.error.inj refused).symm

theorem before_of_lt (earlier : first < second)
    (atFirst : (ofFile path content projectDir).position first = .ok start)
    (atSecond : (ofFile path content projectDir).position second = .ok stop) :
    start.Before stop := by
  obtain ⟨front, rest, rfl, rfl, rfl⟩ := position_eq_ok_iff.mp atFirst
  obtain ⟨other, behind, same, rfl, rfl⟩ := position_eq_ok_iff.mp atSecond
  obtain ⟨more, rfl⟩ := Text.exists_append_of_byteLength_le same (Nat.le_of_lt earlier)
  refine Position.before_after_append front ?_
  rintro rfl
  rw [List.append_nil] at earlier
  exact absurd earlier (Nat.lt_irrefl _)

theorem char_le_of_le (ordered : first ≤ second)
    (atFirst : (ofFile path content projectDir).position first = .ok start)
    (atSecond : (ofFile path content projectDir).position second = .ok stop) :
    start.char ≤ stop.char := by
  rcases Nat.lt_or_eq_of_le ordered with earlier | rfl
  · exact Nat.le_of_lt (before_of_lt earlier atFirst atSecond).char
  · obtain rfl := Except.ok.inj (atFirst.symm.trans atSecond)
    exact Nat.le_refl _

/-- Where the positions of a range are in order, so is its location. -/
theorem location_ne_inverted {span : Span}
    (inOrder : ∀ start stop, document.position span.start = .ok start →
      document.position span.stop = .ok stop → start.char ≤ stop.char) (first second : Nat) :
    document.location span ≠ .error (.location document.path (.inverted first second)) := by
  intro refused
  cases atStart : document.position span.start with
  | error error =>
    rw [location, atStart] at refused
    cases refused
  | ok start =>
    cases atStop : document.position span.stop with
    | error error =>
      rw [location, atStart, atStop] at refused
      cases refused
    | ok stop =>
      rw [location_of_positions document atStart atStop, Location.ofParts, Location.check] at refused
      dsimp only at refused
      rw [if_neg (Nat.not_lt.mpr (inOrder start stop atStart atStop))] at refused
      repeat' split at refused
      all_goals cases refused

/-- The positions of a file are found by counting through its text. -/
structure CountsPositions (document : Document) : Prop where
  /-- An offset has a position if it is not behind the end and not inside a character. -/
  found : ∀ offset, (∃ position, document.position offset = .ok position) ↔
    offset ≤ (String.ofList document.content).utf8ByteSize ∧
      String.Pos.Raw.IsValid (String.ofList document.content) ⟨offset⟩
  refused : ∀ offset error, document.position offset = .error error →
    error = ⟨offset, offset, (String.ofList document.content).utf8ByteSize⟩
  counted : ∀ offset position, document.position offset = .ok position →
    ∃ front rest, document.content = front ++ rest ∧
      (String.ofList front).utf8ByteSize = offset ∧ position = Position.after front
  increasing : ∀ first second start stop, first < second → document.position first = .ok start →
    document.position second = .ok stop → start.Before stop
  /-- The ends of a range are in order, and so a location is never refused for them. -/
  inOrder : ∀ span : Span, span.start ≤ span.stop →
    (∀ start stop, document.position span.start = .ok start →
      document.position span.stop = .ok stop → start.char ≤ stop.char) ∧
    ∀ first second,
      document.location span ≠ .error (.location document.path (.inverted first second))

/-- Every file has its positions by counting, whatever its text is. -/
theorem countsPositions_ofFile (path projectDir : Path) (content : List Char) :
    (ofFile path content projectDir).CountsPositions where
  found offset := by
    rw [exists_position_iff, ← Text.isBoundary_iff_isValid, ← Text.byteLength_eq_utf8ByteSize]
    exact (and_iff_right_of_imp Text.le_byteLength_of_isBoundary).symm
  refused offset error found := by
    rw [← Text.byteLength_eq_utf8ByteSize]
    exact eq_of_position_eq_error found
  counted offset position found := by
    obtain ⟨front, rest, split, bytes, counted⟩ := position_eq_ok_iff.mp found
    exact ⟨front, rest, split, (Text.byteLength_eq_utf8ByteSize front).symm.trans bytes, counted⟩
  increasing first second start stop earlier := before_of_lt earlier
  inOrder span ordered := by
    have sorted : ∀ start stop, (ofFile path content projectDir).position span.start = .ok start →
        (ofFile path content projectDir).position span.stop = .ok stop → start.char ≤ stop.char :=
      fun _ _ => char_le_of_le ordered
    exact ⟨sorted, location_ne_inverted sorted⟩

end Document

end SourceCapture
