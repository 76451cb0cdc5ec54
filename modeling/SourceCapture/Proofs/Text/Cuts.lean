/-
Cutting a text at byte offsets. An offset is a place to cut just when a part of the text in
front has that many bytes, so a span that fits a text splits it into three parts, and every
statement about slices becomes one about appended lists.
-/

import Mathlib.Data.List.Basic
import SourceCapture.Text.Blank
import SourceCapture.Text.Bytes

namespace SourceCapture

/-- Whether a span is one of a text: in order, and between characters of the text. -/
structure Span.Fits (content : List Char) (span : Span) : Prop where
  ordered : span.start ≤ span.stop
  start : Text.isBoundary content span.start = true
  stop : Text.isBoundary content span.stop = true

instance (content : List Char) (span : Span) : Decidable (span.Fits content) :=
  decidable_of_iff (span.start ≤ span.stop ∧ Text.isBoundary content span.start = true ∧
    Text.isBoundary content span.stop = true)
    ⟨fun ⟨ordered, start, stop⟩ => ⟨ordered, start, stop⟩,
      fun fits => ⟨fits.ordered, fits.start, fits.stop⟩⟩

namespace Text

/-! ### Boundaries -/

/-- A boundary has a part of the text with that many bytes in front of it. -/
theorem isBoundary_iff (text : List Char) (offset : Nat) :
    isBoundary text offset = true ↔
      ∃ left right, text = left ++ right ∧ byteLength left = offset := by
  rw [isBoundary, Option.isSome_iff_exists]
  constructor
  · rintro ⟨right, cut⟩
    obtain ⟨left, split, bytes⟩ := exists_of_dropBytes? cut
    exact ⟨left, right, split, bytes⟩
  · rintro ⟨left, right, rfl, rfl⟩
    exact ⟨right, dropBytes?_byteLength_append left right⟩

theorem isBoundary_byteLength_append (left right : List Char) :
    isBoundary (left ++ right) (byteLength left) = true :=
  (isBoundary_iff _ _).mpr ⟨left, right, rfl, rfl⟩

theorem le_byteLength_of_isBoundary {text : List Char} {offset : Nat}
    (boundary : isBoundary text offset = true) : offset ≤ byteLength text := by
  obtain ⟨left, right, rfl, rfl⟩ := (isBoundary_iff text offset).mp boundary
  rw [byteLength_append]
  exact Nat.le_add_right _ _

theorem eq_nil_of_byteLength_eq_zero {text : List Char} (none : byteLength text = 0) :
    text = [] := by
  cases text with
  | nil => rfl
  | cons char rest =>
    have positive : 0 < char.utf8Size := Char.utf8Size_pos char
    rw [byteLength] at none
    omega

/-- The parts around a place of a text are known from the number of bytes in front of it. -/
theorem append_inj_of_byteLength {left right front back : List Char}
    (same : left ++ right = front ++ back) (bytes : byteLength left = byteLength front) :
    left = front ∧ right = back := by
  rcases List.append_eq_append_iff.mp same with ⟨middle, rfl, rfl⟩ | ⟨middle, rfl, rfl⟩
  · rw [byteLength_append] at bytes
    rw [eq_nil_of_byteLength_eq_zero (show byteLength middle = 0 by omega)]
    exact ⟨(List.append_nil left).symm, rfl⟩
  · rw [byteLength_append] at bytes
    rw [eq_nil_of_byteLength_eq_zero (show byteLength middle = 0 by omega)]
    exact ⟨List.append_nil front, rfl⟩

/-! ### Slices -/

/-- The parts of a text before, in and after a span. -/
structure Splits (content : List Char) (span : Span) (left middle right : List Char) : Prop where
  split : content = left ++ (middle ++ right)
  start : byteLength left = span.start
  stop : byteLength left + byteLength middle = span.stop

theorem Splits.slice? {content left middle right : List Char} {span : Span}
    (splits : Splits content span left middle right) : slice? content span = some middle := by
  obtain ⟨start, stop⟩ := span
  obtain ⟨rfl, rfl, rfl⟩ := splits
  exact slice?_between left middle right

theorem Splits.fits {content left middle right : List Char} {span : Span}
    (splits : Splits content span left middle right) : span.Fits content where
  ordered := by
    rw [← splits.start, ← splits.stop]
    exact Nat.le_add_right _ _
  start := by
    rw [← splits.start, splits.split]
    exact isBoundary_byteLength_append _ _
  stop := by
    rw [← splits.stop, ← byteLength_append, splits.split, ← List.append_assoc]
    exact isBoundary_byteLength_append _ _

/-- A span that fits a text splits it. -/
theorem exists_splits_of_fits {content : List Char} {span : Span} (fits : span.Fits content) :
    ∃ left middle right, Splits content span left middle right := by
  obtain ⟨left, rest, split, startBytes⟩ := (isBoundary_iff _ _).mp fits.start
  obtain ⟨front, right, otherSplit, stopBytes⟩ := (isBoundary_iff _ _).mp fits.stop
  have ordered := fits.ordered
  rcases List.append_eq_append_iff.mp (split.symm.trans otherSplit) with
    ⟨middle, rfl, rfl⟩ | ⟨back, rfl, rfl⟩
  · rw [byteLength_append] at stopBytes
    exact ⟨left, middle, right, split, startBytes, stopBytes⟩
  · -- The start lies behind the stop only if nothing is between them.
    rw [byteLength_append] at startBytes
    have nothing : back = [] := eq_nil_of_byteLength_eq_zero (by omega)
    rw [nothing, byteLength] at startBytes
    rw [nothing, List.nil_append] at otherSplit
    exact ⟨front, [], rest, otherSplit, startBytes, stopBytes⟩

theorem exists_of_takeBytes? {count : Nat} {text left : List Char}
    (cut : takeBytes? count text = some left) :
    ∃ right, text = left ++ right ∧ byteLength left = count := by
  induction text generalizing count left with
  | nil =>
    rw [takeBytes?] at cut
    split at cut
    case isTrue zero =>
      cases cut
      exact ⟨[], rfl, zero.symm⟩
    case isFalse => cases cut
  | cons char tail inductionHypothesis =>
    rw [takeBytes?] at cut
    split at cut
    case isTrue zero =>
      cases cut
      exact ⟨char :: tail, rfl, zero.symm⟩
    case isFalse =>
      split at cut
      · obtain ⟨taken, found, rfl⟩ := Option.map_eq_some_iff.mp cut
        obtain ⟨right, rfl, bytes⟩ := inductionHypothesis found
        exact ⟨right, rfl, by rw [byteLength]; omega⟩
      · cases cut

/-- A slice splits the text. -/
theorem exists_splits_of_slice? {content middle : List Char} {span : Span}
    (cut : slice? content span = some middle) :
    ∃ left right, Splits content span left middle right := by
  rw [slice?] at cut
  split at cut
  case isFalse => cases cut
  case isTrue ordered =>
    obtain ⟨rest, dropped, taken⟩ := Option.bind_eq_some_iff.mp cut
    obtain ⟨left, rfl, start⟩ := exists_of_dropBytes? dropped
    obtain ⟨right, rfl, length⟩ := exists_of_takeBytes? taken
    exact ⟨left, right, rfl, start, by omega⟩

/-- From a place inside of a span on, a slice is the rest of the slice of the span. -/
theorem slice?_of_within {content : List Char} {span : Span} (fits : span.Fits content)
    {middle : Nat} (boundary : isBoundary content middle = true) (after : span.start ≤ middle)
    (before : middle ≤ span.stop) :
    ∃ front back, Text.slice? content span = some (front ++ back) ∧
      Text.slice? content ⟨middle, span.stop⟩ = some back := by
  have frontFits : Span.Fits content ⟨span.start, middle⟩ := ⟨after, fits.start, boundary⟩
  have backFits : Span.Fits content ⟨middle, span.stop⟩ := ⟨before, boundary, fits.stop⟩
  obtain ⟨left, front, rest, first⟩ := exists_splits_of_fits frontFits
  obtain ⟨farther, back, right, second⟩ := exists_splits_of_fits backFits
  have parts : (left ++ front) ++ rest = farther ++ (back ++ right) := by
    rw [← second.split, first.split, List.append_assoc]
  obtain ⟨-, same⟩ := append_inj_of_byteLength parts
    (by rw [byteLength_append, first.stop, second.start])
  have whole : Splits content span left (front ++ back) right := by
    refine ⟨?_, first.start, ?_⟩
    · rw [first.split, same, List.append_assoc]
    · have place : byteLength farther = middle := second.start
      rw [byteLength_append, ← Nat.add_assoc, first.stop]
      show middle + byteLength back = span.stop
      rw [← place]
      exact second.stop
  exact ⟨front, back, whole.slice?, second.slice?⟩

end Text

end SourceCapture
