/-
What does not count for the stored form of a text. White space around the lines of a text adds
lines that are left out, and does not change the common indentation of the others. White space in
front of every line, as much on each, widens the common indentation and is taken off with it. And
what is stored has no white space at its ends any more, so that it is stored as it is.
-/

import Mathlib.Data.List.Forall2
import SourceCapture.Proofs.Text.CutAgain
import SourceCapture.Proofs.Text.Splits

namespace SourceCapture

namespace Text

variable {width : Nat} {line padded text front back result stored : List Char}
  {lines more others : List (List Char)}

/-! ### Lines around a text -/

/-- Newlines are white space, so that the lines decide. -/
theorem allBlank_iff_lines :
    allBlank text = true ↔ ∀ line ∈ text.splitOn '\n', allBlank line = true := by
  simp only [allBlank, List.all_eq_true]
  constructor
  · exact fun blank line member char among =>
      blank char ((not_mem_and_subset_of_mem_splitOn member).2 among)
  · intro blank char member
    by_cases newline : char = '\n'
    · rw [newline]
      rfl
    · obtain ⟨line, inside, among⟩ := exists_line_of_mem member newline
      exact blank line inside char among

/-- Lines of white space have no indentation. -/
theorem commonIndent_append_append (frontBlank : ∀ line ∈ lines, allBlank line = true)
    (backBlank : ∀ line ∈ others, allBlank line = true) :
    commonIndent (lines ++ (more ++ others)) = commonIndent more := by
  have none {blanks : List (List Char)} (blank : ∀ line ∈ blanks, allBlank line = true) :
      blanks.filter (!allBlank ·) = [] :=
    List.filter_eq_nil_iff.mpr fun line member => by simp [blank line member]
  rw [commonIndent, commonIndent, List.filter_append, List.filter_append, none frontBlank,
    none backBlank, List.nil_append, List.append_nil]

/-- White space that ends with a line is some more lines in front of a text. -/
theorem exists_splitOn_append (blank : allBlank front = true)
    (ended : front = [] ∨ front.getLast? = some '\n') (text : List Char) :
    ∃ lines, (front ++ text).splitOn '\n' = lines ++ text.splitOn '\n' ∧
      ∀ line ∈ lines, allBlank line = true := by
  rcases ended with rfl | newline
  · exact ⟨[], rfl, nofun⟩
  · obtain ⟨lines, rfl⟩ := List.getLast?_eq_some_iff.mp newline
    refine ⟨lines.splitOn '\n', ?_, fun line member => ?_⟩
    · rw [List.append_assoc, List.singleton_append, List.splitOn_append_cons_self]
    · exact allBlank_iff_lines.mp (allBlank_append.mp blank).1 line member

/-- White space that starts with a new line is some more lines behind a text. -/
theorem exists_splitOn_append_right (blank : allBlank back = true)
    (started : back = [] ∨ back.head? = some '\n') (text : List Char) :
    ∃ lines, (text ++ back).splitOn '\n' = text.splitOn '\n' ++ lines ∧
      ∀ line ∈ lines, allBlank line = true := by
  rcases started with rfl | newline
  · refine ⟨[], ?_, nofun⟩
    rw [List.append_nil, List.append_nil]
  · obtain ⟨rest, rfl⟩ := List.head?_eq_some_iff.mp newline
    refine ⟨rest.splitOn '\n', List.splitOn_append_cons_self _ _, fun line member => ?_⟩
    exact allBlank_iff_lines.mp (allBlank_of_sublist (List.sublist_cons_self _ _) blank) line member

/-- White space around the lines of a text does not count. -/
theorem normalize_surrounded (frontBlank : allBlank front = true)
    (ended : front = [] ∨ front.getLast? = some '\n') (backBlank : allBlank back = true)
    (started : back = [] ∨ back.head? = some '\n') (text : List Char) :
    Excerpt.normalize (front ++ (text ++ back)) = Excerpt.normalize text := by
  obtain ⟨head, core, tail, trims⟩ := exists_trims text
  by_cases empty : core = []
  · subst empty
    have whole : allBlank (front ++ (text ++ back)) = true :=
      allBlank_append.mpr ⟨frontBlank, allBlank_append.mpr ⟨trims.blank, backBlank⟩⟩
    rw [normalize_of_allBlank whole, normalize_of_allBlank trims.blank]
  · refine normalize_congr (trims.surrounded frontBlank backBlank empty) trims ?_
    obtain ⟨before, split, beforeBlank⟩ := exists_splitOn_append frontBlank ended (text ++ back)
    obtain ⟨behind, rest, behindBlank⟩ := exists_splitOn_append_right backBlank started text
    rw [split, rest, commonIndent_append_append beforeBlank behindBlank]

/-! ### White space in front of every line -/

/-- Whether a line is another one behind `width` characters of white space. -/
def Pads (width : Nat) (line padded : List Char) : Prop :=
  ∃ pad, pad.length = width ∧ allBlank pad = true ∧ padded = pad ++ line

/-- Whether a text has the lines of another one, each of them behind `width` characters of white
space of any kind. -/
def Indents (width : Nat) (text result : List Char) : Prop :=
  List.Forall₂ (Pads width) (text.splitOn '\n') (result.splitOn '\n')

theorem Pads.allBlank_eq (pads : Pads width line padded) : allBlank padded = allBlank line := by
  obtain ⟨pad, -, blank, rfl⟩ := pads
  rw [allBlank, List.all_append, show pad.all isBlank = true from blank, Bool.true_and]
  rfl

theorem Pads.indentOf_eq (pads : Pads width line padded) :
    indentOf padded = width + indentOf line := by
  obtain ⟨pad, rfl, blank, rfl⟩ := pads
  rw [indentOf, List.takeWhile_append_of_pos (List.all_eq_true.mp blank), List.length_append]
  rfl

theorem Pads.drop_eq (pads : Pads width line padded) (count : Nat) :
    padded.drop (width + count) = line.drop count := by
  obtain ⟨pad, rfl, -, rfl⟩ := pads
  exact List.drop_length_add_append count

section

variable (pads : List.Forall₂ (Pads width) lines others)

include pads

theorem map_drop_eq (count : Nat) :
    others.map (·.drop (width + count)) = lines.map (·.drop count) := by
  induction pads with
  | nil => rfl
  | cons first _ inductionHypothesis =>
    rw [List.map_cons, List.map_cons, first.drop_eq, inductionHypothesis]

theorem map_indentOf_eq : (others.filter (!allBlank ·)).map indentOf =
    ((lines.filter (!allBlank ·)).map indentOf).map (width + ·) := by
  induction pads with
  | nil => rfl
  | cons first _ inductionHypothesis =>
    rw [List.filter_cons, List.filter_cons, first.allBlank_eq]
    split
    · rw [List.map_cons, List.map_cons, List.map_cons, first.indentOf_eq, inductionHypothesis]
    · exact inductionHypothesis

theorem forall_allBlank_iff :
    (∀ line ∈ others, allBlank line = true) ↔ ∀ line ∈ lines, allBlank line = true := by
  induction pads with
  | nil => exact Iff.rfl
  | cons first _ inductionHypothesis =>
    rw [List.forall_mem_cons, List.forall_mem_cons, first.allBlank_eq, inductionHypothesis]

theorem forall₂_dropBlankFirst :
    List.Forall₂ (Pads width) (dropBlankFirst lines) (dropBlankFirst others) := by
  cases pads with
  | nil => exact .nil
  | cons first rest =>
    rw [dropBlankFirst, dropBlankFirst, first.allBlank_eq]
    split
    · exact rest
    · exact .cons first rest

theorem forall₂_dropBlankLast :
    List.Forall₂ (Pads width) (dropBlankLast lines) (dropBlankLast others) :=
  List.forall₂_reverse_iff.mpr (forall₂_dropBlankFirst (List.forall₂_reverse_iff.mpr pads))

/-- The common indentation is wider by what stands in front of every line. -/
theorem commonIndent_eq_add (inked : ∃ line ∈ lines, allBlank line = false) :
    commonIndent others = width + commonIndent lines := by
  obtain ⟨line, member, bare⟩ := inked
  have listed : indentOf line ∈ (lines.filter (!allBlank ·)).map indentOf :=
    List.mem_map_of_mem (List.mem_filter.mpr ⟨member, by rw [bare]; rfl⟩)
  rw [commonIndent, commonIndent, map_indentOf_eq pads]
  generalize (lines.filter (!allBlank ·)).map indentOf = indents at listed
  obtain ⟨least, found⟩ := Option.ne_none_iff_exists'.mp
    (mt List.min?_eq_none_iff.mp (List.ne_nil_of_mem listed))
  obtain ⟨among, smallest⟩ := List.min?_eq_some_iff.mp found
  have wider : (indents.map (width + ·)).min? = some (width + least) := by
    refine List.min?_eq_some_iff.mpr ⟨List.mem_map_of_mem among, fun indent inside => ?_⟩
    obtain ⟨other, otherMember, rfl⟩ := List.mem_map.mp inside
    exact Nat.add_le_add_left (smallest other otherMember) width
  rw [found, wider]
  rfl

end

/-- White space in front of every line does not count, as long as it is as wide on each. -/
theorem Indents.normalize_eq (indents : Indents width text result) :
    Excerpt.normalize result = Excerpt.normalize text := by
  by_cases blank : ∀ line ∈ text.splitOn '\n', allBlank line = true
  · rw [normalize_of_allBlank (allBlank_iff_lines.mpr blank),
      normalize_of_allBlank (allBlank_iff_lines.mpr ((forall_allBlank_iff indents).mpr blank))]
  · have inked : ∃ line ∈ text.splitOn '\n', allBlank line = false := by
      simpa using blank
    rw [Excerpt.normalize, Excerpt.normalize, trimIndent, trimIndent,
      commonIndent_eq_add indents inked,
      map_drop_eq (forall₂_dropBlankLast (forall₂_dropBlankFirst indents))]

/-! ### The stored form of a whole text -/

/-- The span of a whole text. -/
def wholeSpan (text : List Char) : Span := ⟨0, byteLength text⟩

/-- Whether a text is what is stored of another one as a whole. -/
def IsStored (stored text : List Char) : Prop :=
  ∃ trimmed, Excerpt.ofSpan text (wholeSpan text) = .ok ⟨stored, trimmed⟩

theorem splits_wholeSpan (text : List Char) : Splits text (wholeSpan text) [] text [] :=
  ⟨(List.append_nil text).symm, rfl, Nat.zero_add _⟩

theorem ofSpan_wholeSpan (text : List Char) : Excerpt.ofSpan text (wholeSpan text) =
    .ok ⟨Excerpt.normalize text, Excerpt.trimmedSpan 0 text⟩ := by
  rw [Excerpt.ofSpan, (splits_wholeSpan text).slice?]
  rfl

/-- Every text can be stored, in one form. -/
theorem isStored_iff : IsStored stored text ↔ stored = Excerpt.normalize text := by
  rw [IsStored, ofSpan_wholeSpan]
  constructor
  · rintro ⟨trimmed, same⟩
    cases same
    rfl
  · rintro rfl
    exact ⟨_, rfl⟩

/-- A text without white space at its ends is stored as it is, with its whole range. -/
theorem ofSpan_of_isTight (tight : IsTight text) :
    Excerpt.ofSpan text (wholeSpan text) = .ok ⟨text, wholeSpan text⟩ := by
  have whole := Excerpt.splits_trimmedSpan (splits_wholeSpan text) tight.trims
  rw [ofSpan_wholeSpan, normalize_of_isTight tight]
  congr 2
  exact whole.span_eq (splits_wholeSpan text)

theorem isTight_normalize (text : List Char) : IsTight (Excerpt.normalize text) := by
  obtain ⟨_, _, _, trims⟩ := exists_trims text
  exact (unindents_normalize trims).isTight trims.tight

/-- Of every text one form is stored. It is stored of the text with lines of white space around it,
and of the text with as much white space in front of every line, and it is stored as it is. -/
theorem exists_isStored (text : List Char) : ∃ stored, IsStored stored text ∧
    (∀ front back, allBlank front = true → (front = [] ∨ front.getLast? = some '\n') →
      allBlank back = true → (back = [] ∨ back.head? = some '\n') →
        IsStored stored (front ++ (text ++ back))) ∧
    (∀ width result, Indents width text result → IsStored stored result) ∧
    Excerpt.ofSpan stored (wholeSpan stored) = .ok ⟨stored, wholeSpan stored⟩ := by
  refine ⟨Excerpt.normalize text, isStored_iff.mpr rfl, ?_, ?_, ?_⟩
  · intro front back frontBlank ended backBlank started
    exact isStored_iff.mpr (normalize_surrounded frontBlank ended backBlank started text).symm
  · exact fun width result indents => isStored_iff.mpr indents.normalize_eq.symm
  · exact ofSpan_of_isTight (isTight_normalize text)

end Text

end SourceCapture
