/-
Texts are lists of characters, but every offset into a text counts the bytes of its
UTF-8 form. This file counts them and cuts a text at byte offsets. An offset inside a
character is no place to cut, so the cuts are partial: they succeed exactly at the
character boundaries up to the end of the text.
-/

import SourceCapture.Span

namespace SourceCapture.Text

/-- The number of bytes that the text takes in UTF-8. -/
def byteLength : List Char → Nat
  | [] => 0
  | char :: rest => char.utf8Size + byteLength rest

/-- The text after its first `count` bytes, if they end at a character boundary. -/
def dropBytes? (count : Nat) : List Char → Option (List Char)
  | [] => if count = 0 then some [] else none
  | char :: rest =>
    if count = 0 then some (char :: rest)
    else if char.utf8Size ≤ count then dropBytes? (count - char.utf8Size) rest
    else none

/-- The first `count` bytes of the text, if they end at a character boundary. -/
def takeBytes? (count : Nat) : List Char → Option (List Char)
  | [] => if count = 0 then some [] else none
  | char :: rest =>
    if count = 0 then some []
    else if char.utf8Size ≤ count then
      (takeBytes? (count - char.utf8Size) rest).map (char :: ·)
    else none

/-- Whether a byte offset lies between two characters or at an end of the text. -/
def isBoundary (text : List Char) (offset : Nat) : Bool := (dropBytes? offset text).isSome

/-- The part of a text that a span covers. There is none for a span that is reversed,
leaves the text or ends inside a character. -/
def slice? (text : List Char) (span : Span) : Option (List Char) :=
  if span.start ≤ span.stop then
    (dropBytes? span.start text).bind (takeBytes? (span.stop - span.start))
  else none

/-- The characters with the byte offsets at which they start, the first at `offset`. -/
def charsFrom (offset : Nat) : List Char → List (Nat × Char)
  | [] => []
  | char :: rest => (offset, char) :: charsFrom (offset + char.utf8Size) rest

/-! ### A cut and what it leaves -/

@[simp] theorem byteLength_append (left right : List Char) :
    byteLength (left ++ right) = byteLength left + byteLength right := by
  induction left with
  | nil => simp [byteLength]
  | cons char rest inductionHypothesis =>
    simp only [List.cons_append, byteLength, inductionHypothesis]
    omega

@[simp] theorem dropBytes?_zero (text : List Char) : dropBytes? 0 text = some text := by
  cases text <;> simp [dropBytes?]

/-- Cutting after a part of the text leaves what follows that part. -/
theorem dropBytes?_byteLength_append (left right : List Char) :
    dropBytes? (byteLength left) (left ++ right) = some right := by
  induction left with
  | nil => simp [byteLength]
  | cons char rest inductionHypothesis =>
    have positive : 0 < char.utf8Size := Char.utf8Size_pos char
    have nonzero : char.utf8Size + byteLength rest ≠ 0 := by omega
    simp only [List.cons_append, byteLength, dropBytes?, nonzero, if_false]
    rw [if_pos (Nat.le_add_right _ _), Nat.add_sub_cancel_left]
    exact inductionHypothesis

/-- A cut that succeeds splits the text, and the first part has as many bytes as asked. -/
theorem exists_of_dropBytes? {count : Nat} {text rest : List Char}
    (cut : dropBytes? count text = some rest) :
    ∃ left, text = left ++ rest ∧ byteLength left = count := by
  induction text generalizing count with
  | nil =>
    by_cases zero : count = 0
    · simp only [dropBytes?, zero, if_true, Option.some.injEq] at cut
      exact ⟨[], by simp [← cut], by simp [byteLength, zero]⟩
    · simp [dropBytes?, zero] at cut
  | cons char tail inductionHypothesis =>
    by_cases zero : count = 0
    · simp only [dropBytes?, zero, if_true, Option.some.injEq] at cut
      exact ⟨[], by simp [← cut], by simp [byteLength, zero]⟩
    · by_cases fits : char.utf8Size ≤ count
      · simp only [dropBytes?, zero, if_false, fits, if_true] at cut
        obtain ⟨left, split, bytes⟩ := inductionHypothesis cut
        exact ⟨char :: left, by simp [split], by simp only [byteLength, bytes]; omega⟩
      · simp [dropBytes?, zero, fits] at cut

/-- A part at the start of the text is what is taken with its number of bytes. -/
theorem takeBytes?_byteLength_append (left right : List Char) :
    takeBytes? (byteLength left) (left ++ right) = some left := by
  induction left with
  | nil => cases right <;> simp [byteLength, takeBytes?]
  | cons char rest inductionHypothesis =>
    have positive : 0 < char.utf8Size := Char.utf8Size_pos char
    have nonzero : char.utf8Size + byteLength rest ≠ 0 := by omega
    simp only [List.cons_append, byteLength, takeBytes?, nonzero, if_false]
    rw [if_pos (Nat.le_add_right _ _), Nat.add_sub_cancel_left, inductionHypothesis]
    rfl

/-- The slice between two parts of a text is what stands between them. -/
theorem slice?_between (left middle right : List Char) :
    slice? (left ++ (middle ++ right))
      ⟨byteLength left, byteLength left + byteLength middle⟩ = some middle := by
  simp only [slice?, Nat.le_add_right, if_true, dropBytes?_byteLength_append,
    Option.bind_some, Nat.add_sub_cancel_left, takeBytes?_byteLength_append]

end SourceCapture.Text
