/-
Positions against their plain meaning. A document finds a position through the starts of its
lines, and only counts the characters of one line. What it finds is what counting through the
whole text before an offset gives.
-/

import Mathlib.Data.List.TakeWhile
import SourceCapture.Proofs.Excerpts
import SourceCapture.Proofs.Runs

namespace SourceCapture

/-- The position at the end of a text, by counting. -/
def Position.after (text : List Char) : Position where
  char := text.length
  line := 1 + text.count '\n'
  column := (text.reverse.takeWhile (· ≠ '\n')).length

/-! ### The starts of lines -/

namespace LineStart

variable {byte char : Nat} {left right text : List Char}

theorem following_append (byte char : Nat) (left right : List Char) :
    following byte char (left ++ right) = following byte char left ++
      following (byte + Text.byteLength left) (char + left.length) right := by
  induction left generalizing byte char with
  | nil => rfl
  | cons first rest inductionHypothesis =>
    rw [List.cons_append, following, following, inductionHypothesis, Text.byteLength,
      List.length_cons, Nat.add_assoc byte, Nat.add_assoc char, Nat.add_comm 1]
    split
    · rfl
    · rfl

theorem ofText_append (left right : List Char) :
    ofText (left ++ right) = ofText left ++ following (Text.byteLength left) left.length right := by
  rw [ofText, ofText, following_append, Nat.zero_add, Nat.zero_add, List.cons_append]

theorem byte_of_mem_following {start : LineStart} (member : start ∈ following byte char text) :
    byte < start.byte ∧ start.byte ≤ byte + Text.byteLength text := by
  induction text generalizing byte char with
  | nil => cases member
  | cons first rest inductionHypothesis =>
    have positive : 0 < first.utf8Size := Char.utf8Size_pos first
    have later : start ∈ following (byte + first.utf8Size) (char + 1) rest →
        byte < start.byte ∧ start.byte ≤ byte + Text.byteLength (first :: rest) := by
      intro inside
      obtain ⟨after, within⟩ := inductionHypothesis inside
      rw [Text.byteLength]
      omega
    rw [following] at member
    split at member
    · rcases List.mem_cons.mp member with rfl | inside
      · rw [Text.byteLength]
        dsimp only
        omega
      · exact later inside
    · exact later member

/-- Up to a place of a text stand the starts of the lines before it. -/
theorem takeWhile_ofText_append (left right : List Char) :
    (ofText (left ++ right)).takeWhile (·.byte ≤ Text.byteLength left) = ofText left := by
  have upTo : ∀ start ∈ ofText left, decide (start.byte ≤ Text.byteLength left) = true := by
    intro start member
    rw [ofText, List.mem_cons] at member
    rcases member with rfl | member
    · exact decide_eq_true (Nat.zero_le _)
    · have within := (byte_of_mem_following member).2
      exact decide_eq_true (by omega)
  have past : (following (Text.byteLength left) left.length right).takeWhile
      (·.byte ≤ Text.byteLength left) = [] := by
    rw [List.takeWhile_eq_nil_iff]
    intro some fits
    have after := (byte_of_mem_following (List.get_mem _ ⟨0, some⟩)).1
    exact Nat.not_le.mpr after (of_decide_eq_true fits)
  rw [ofText_append, List.takeWhile_append_of_pos upTo, past, List.append_nil]

theorem length_following (byte char : Nat) (text : List Char) :
    (following byte char text).length = text.count '\n' := by
  induction text generalizing byte char with
  | nil => rfl
  | cons first rest inductionHypothesis =>
    rw [following]
    split
    case isTrue newline =>
      rw [newline, List.length_cons, List.count_cons_self, inductionHypothesis]
    case isFalse other => rw [List.count_cons_of_ne other, inductionHypothesis]

theorem following_eq_nil (without : '\n' ∉ text) : following byte char text = [] := by
  rw [← List.length_eq_zero_iff, length_following, List.count_eq_zero]
  exact without

/-- The last line of a text starts after its last newline. -/
theorem getLast?_ofText {front last : List Char} (ended : front = [] ∨ ∃ lines, front = lines ++ ['\n'])
    (without : '\n' ∉ last) :
    (ofText (front ++ last)).getLast? = some ⟨Text.byteLength front, front.length⟩ := by
  rw [ofText_append, following_eq_nil without, List.append_nil]
  rcases ended with rfl | ⟨lines, rfl⟩
  · rfl
  · rw [ofText_append, Text.byteLength_append, List.length_append]
    exact List.getLast?_concat

end LineStart

/-! ### Positions in documents -/

/-- A text is a part that ends a line and the line after it. -/
theorem Text.exists_lastLine (text : List Char) :
    ∃ front last, text = front ++ last ∧ (front = [] ∨ ∃ lines, front = lines ++ ['\n']) ∧
      '\n' ∉ last := by
  induction text with
  | nil => exact ⟨[], [], rfl, Or.inl rfl, List.not_mem_nil⟩
  | cons first rest inductionHypothesis =>
    obtain ⟨front, last, rfl, ended, without⟩ := inductionHypothesis
    rcases ended with rfl | ⟨lines, rfl⟩
    · by_cases newline : first = '\n'
      · exact ⟨['\n'], last, by rw [newline]; rfl, Or.inr ⟨[], rfl⟩, without⟩
      · refine ⟨[], first :: last, rfl, Or.inl rfl, ?_⟩
        exact List.not_mem_cons_of_ne_of_not_mem (Ne.symm newline) without
    · exact ⟨first :: (lines ++ ['\n']), last, rfl, Or.inr ⟨first :: lines, rfl⟩, without⟩

theorem Position.column_after {front last : List Char}
    (ended : front = [] ∨ ∃ lines, front = lines ++ ['\n']) (without : '\n' ∉ last) :
    (Position.after (front ++ last)).column = last.length := by
  have onLine : ∀ char ∈ last.reverse, decide (char ≠ '\n') = true := by
    intro char member
    refine decide_eq_true fun newline => without ?_
    rw [← newline]
    exact List.mem_reverse.mp member
  rw [after, List.reverse_append, List.takeWhile_append_of_pos onLine]
  dsimp only
  rw [List.length_append, List.length_reverse]
  rcases ended with rfl | ⟨lines, rfl⟩
  · rfl
  · rw [List.reverse_concat, List.takeWhile_cons_of_neg (by decide)]
    rfl

namespace Document

variable {path projectDir : Path} {content left core right : List Char} {span : Span}
  {location : Location}

/-- The position of a place in a file is the one at the end of the text before it. -/
theorem position_ofFile (path projectDir : Path) (left right : List Char) :
    (ofFile path (left ++ right) projectDir).position (Text.byteLength left) =
      .ok (Position.after left) := by
  obtain ⟨front, last, rfl, ended, without⟩ := Text.exists_lastLine left
  -- Only the last line is cut out and counted.
  have slice : Text.slice? (front ++ last ++ right)
      ⟨Text.byteLength front, Text.byteLength (front ++ last)⟩ = some last := by
    rw [List.append_assoc, Text.byteLength_append]
    exact Text.slice?_between front last right
  have lines : (LineStart.ofText (front ++ last)).length = 1 + (front ++ last).count '\n' := by
    rw [LineStart.ofText, List.length_cons, LineStart.length_following, Nat.add_comm]
  rw [position, ofFile]
  dsimp only
  rw [if_pos (Text.isBoundary_byteLength_append _ _), LineStart.takeWhile_ofText_append,
    LineStart.getLast?_ofText ended without, Option.getD_some]
  dsimp only
  rw [slice, Option.getD_some, lines, ← List.length_append,
    ← Position.column_after ended without]
  rfl

/-- The positions of the ends of a part of a file. -/
theorem position_of_splits (path projectDir : Path)
    (splits : Text.Splits content span left core right) :
    (ofFile path content projectDir).position span.start = .ok (Position.after left) ∧
      (ofFile path content projectDir).position span.stop =
        .ok (Position.after (left ++ core)) := by
  constructor
  · rw [splits.split, ← splits.start]
    exact position_ofFile path projectDir left (core ++ right)
  · rw [splits.split, ← splits.stop, ← Text.byteLength_append, ← List.append_assoc]
    exact position_ofFile path projectDir (left ++ core) right

/-- The location of a part of a file. -/
theorem location_of_splits (splits : Text.Splits content span left core right)
    (placed : (ofFile path content projectDir).location span = .ok location) :
    Location.ofParts (Path.relativeTo projectDir path) (Position.after left)
      (Position.after (left ++ core)) = .ok location := by
  obtain ⟨start, stop⟩ := position_of_splits path projectDir splits
  rw [location_of_positions _ start stop] at placed
  exact mapError_eq_ok_iff.mp placed

end Document

end SourceCapture
