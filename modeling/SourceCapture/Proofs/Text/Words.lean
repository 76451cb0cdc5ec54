/-
The words of a text. A text is cut at every separator, so the words on either side of one are the
words of the text, and a text without a separator is a word.
-/

import Mathlib.Data.List.Basic
import SourceCapture.Text.Pieces

namespace SourceCapture.Text

variable {isSeparator : Char → Bool} {char : Char} {text left right : List Char}

theorem wordsBy_append_cons (separates : isSeparator char = true) (left right : List Char) :
    wordsBy isSeparator (left ++ char :: right) =
      wordsBy isSeparator left ++ wordsBy isSeparator right := by
  rw [wordsBy, List.splitOnP_append_cons left right separates, List.filter_append]
  rfl

@[simp] theorem wordsBy_nil (isSeparator : Char → Bool) : wordsBy isSeparator [] = [] := by
  rw [wordsBy, List.splitOnP_nil]
  rfl

theorem wordsBy_of_separators (separators : ∀ char ∈ left, isSeparator char = true)
    (right : List Char) : wordsBy isSeparator (left ++ right) = wordsBy isSeparator right := by
  induction left with
  | nil => rfl
  | cons char left inductionHypothesis =>
    rw [List.forall_mem_cons] at separators
    have first := wordsBy_append_cons separators.1 [] (left ++ right)
    rw [wordsBy_nil, List.nil_append, List.nil_append, inductionHypothesis separators.2] at first
    exact first

theorem wordsBy_of_word (nonempty : text ≠ []) (word : ∀ char ∈ text, isSeparator char = false) :
    wordsBy isSeparator text = [text] := by
  rw [wordsBy, List.splitOnP_eq_singleton word]
  exact List.filter_cons_of_pos (by simpa using nonempty)

/-- A word ends where a separator follows. -/
theorem exists_wordsBy_append (nonempty : text ≠ []) (word : ∀ char ∈ text, isSeparator char = false)
    (ends : ∀ char ∈ right.head?, isSeparator char = true) :
    ∃ words, wordsBy isSeparator (text ++ right) = text :: words := by
  cases right with
  | nil => exact ⟨[], by rw [List.append_nil, wordsBy_of_word nonempty word]⟩
  | cons char rest =>
    refine ⟨wordsBy isSeparator rest, ?_⟩
    rw [wordsBy_append_cons (ends char rfl), wordsBy_of_word nonempty word]
    rfl

/-- A character that is no separator is in the first word of the text that it starts. -/
theorem exists_wordsBy_cons (inside : isSeparator char = false) (rest : List Char) :
    ∃ word words, wordsBy isSeparator (char :: rest) = (char :: word) :: words := by
  obtain ⟨first, others, same⟩ := List.exists_cons_of_ne_nil (List.splitOnP_ne_nil isSeparator rest)
  refine ⟨first, others.filter (!·.isEmpty), ?_⟩
  rw [wordsBy, List.splitOnP_cons_eq_if_modifyHead, inside, if_neg Bool.false_ne_true, same]
  exact List.filter_cons_of_pos rfl

/-! ### The characters of words -/

theorem sublist_of_mem_wordsBy {word : List Char} (member : word ∈ wordsBy isSeparator text) :
    word.Sublist text := by
  have piece := (List.mem_filter.mp member).1
  clear member
  induction text generalizing word with
  | nil =>
    rw [List.splitOnP_nil, List.mem_singleton] at piece
    rw [piece]
  | cons char text inductionHypothesis =>
    rw [List.splitOnP_cons_eq_if_modifyHead] at piece
    split at piece
    · rcases List.mem_cons.mp piece with rfl | later
      · exact List.nil_sublist _
      · exact (inductionHypothesis later).cons char
    · obtain ⟨first, others, same⟩ :=
        List.exists_cons_of_ne_nil (List.splitOnP_ne_nil isSeparator text)
      rw [same] at piece inductionHypothesis
      rcases List.mem_cons.mp piece with rfl | later
      · exact (inductionHypothesis List.mem_cons_self).cons_cons char
      · exact (inductionHypothesis (List.mem_cons_of_mem _ later)).cons char

/-- The last word of a text, nothing if it has none. -/
def lastWord (isSeparator : Char → Bool) (text : List Char) : List Char :=
  (wordsBy isSeparator text).getLastD []

theorem lastWord_eq_nil_or_mem (isSeparator : Char → Bool) (text : List Char) :
    lastWord isSeparator text = [] ∨ lastWord isSeparator text ∈ wordsBy isSeparator text := by
  rw [lastWord]
  rcases List.eq_nil_or_concat' (wordsBy isSeparator text) with none | ⟨front, last, same⟩
  · rw [none]
    exact .inl rfl
  · rw [same, List.getLastD_concat]
    exact .inr List.mem_concat_self

theorem lastWord_sublist (isSeparator : Char → Bool) (text : List Char) :
    (lastWord isSeparator text).Sublist text := by
  rcases lastWord_eq_nil_or_mem isSeparator text with none | member
  · rw [none]
    exact List.nil_sublist _
  · exact sublist_of_mem_wordsBy member

/-- A word stands on one side of a separator. -/
theorem lastWord_append_cons_sublist (separates : isSeparator char = true) (left right : List Char) :
    (lastWord isSeparator (left ++ char :: right)).Sublist (left ++ right) := by
  rcases lastWord_eq_nil_or_mem isSeparator (left ++ char :: right) with none | member
  · rw [none]
    exact List.nil_sublist _
  · rw [wordsBy_append_cons separates] at member
    rcases List.mem_append.mp member with before | behind
    · exact (sublist_of_mem_wordsBy before).trans (List.sublist_append_left _ _)
    · exact (sublist_of_mem_wordsBy behind).trans (List.sublist_append_right _ _)

end SourceCapture.Text
