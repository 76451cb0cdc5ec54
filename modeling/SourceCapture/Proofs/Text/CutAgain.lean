/-
Cutting out the range of an excerpt once more. The range starts behind the indentation of its
first line, so the second time that line counts as one without indentation and nothing is taken
off: what comes out is the range as it stands in the file. It is the text of the excerpt just if
no indentation was taken off the first time either, or if there is one line only.
-/

import SourceCapture.Proofs.Positions
import SourceCapture.Proofs.Text.Unindent

namespace SourceCapture

namespace Text

variable {width left : Nat} {char : Char} {line text result head core tail : List Char}

/-! ### Texts without a common indentation -/

/-- Whether some line of a text starts with a character that is not white space. -/
def HasFlushLine (text : List Char) : Prop :=
  ∃ line ∈ text.splitOn '\n', ∃ char ∈ line.head?, isBlank char = false

theorem indentOf_of_head? (first : char ∈ line.head?) (bare : isBlank char = false) :
    indentOf line = 0 ∧ allBlank line = false := by
  obtain ⟨rest, rfl⟩ := List.head?_eq_some_iff.mp first
  constructor
  · rw [indentOf, List.takeWhile_cons_of_neg (by simp [bare])]
    rfl
  · rw [allBlank, List.all_cons, bare, Bool.false_and]

theorem exists_head?_of_indentOf (inked : allBlank line = false) (flush : indentOf line = 0) :
    ∃ char ∈ line.head?, isBlank char = false := by
  cases line with
  | nil => cases inked
  | cons char rest =>
    refine ⟨char, rfl, Bool.eq_false_iff.mpr fun blank => ?_⟩
    rw [indentOf, List.takeWhile_cons_of_pos blank] at flush
    cases flush

/-- A character is on some line. -/
theorem exists_line_of_mem (member : char ∈ text) (other : char ≠ '\n') :
    ∃ line ∈ text.splitOn '\n', char ∈ line := by
  induction text with
  | nil => cases member
  | cons first text inductionHypothesis =>
    obtain ⟨line, rest, lines⟩ := List.exists_cons_of_ne_nil (List.splitOn_ne_nil '\n' text)
    by_cases newline : first = '\n'
    · rw [newline, splitOn_newline_cons lines, ← lines]
      rcases List.mem_cons.mp member with same | later
      · exact absurd (same.trans newline) other
      · obtain ⟨found, inside, holds⟩ := inductionHypothesis later
        exact ⟨found, List.mem_cons_of_mem _ inside, holds⟩
    · rw [splitOn_cons_of_ne newline lines]
      rcases List.mem_cons.mp member with rfl | later
      · exact ⟨_, List.mem_cons_self, List.mem_cons_self⟩
      · obtain ⟨found, inside, holds⟩ := inductionHypothesis later
        rw [lines] at inside
        rcases List.mem_cons.mp inside with rfl | further
        · exact ⟨_, List.mem_cons_self, List.mem_cons_of_mem _ holds⟩
        · exact ⟨found, List.mem_cons_of_mem _ further, holds⟩

/-- The line with the least indentation decides, in a text that is not white space. -/
theorem commonIndent_eq_zero_iff (inked : allBlank text = false) :
    commonIndent (text.splitOn '\n') = 0 ↔ HasFlushLine text := by
  constructor
  · intro none
    obtain ⟨char, member, bare⟩ : ∃ char ∈ text, isBlank char = false := by
      simpa [allBlank] using inked
    have other : char ≠ '\n' := by
      rintro rfl
      cases bare
    obtain ⟨inkedLine, inside, holds⟩ := exists_line_of_mem member other
    have listed : inkedLine ∈ (text.splitOn '\n').filter (!allBlank ·) := by
      refine List.mem_filter.mpr ⟨inside, ?_⟩
      simpa [allBlank] using ⟨char, holds, bare⟩
    obtain ⟨least, found⟩ := Option.ne_none_iff_exists'.mp
      (mt List.min?_eq_none_iff.mp (List.ne_nil_of_mem (List.mem_map_of_mem (f := indentOf) listed)))
    rw [commonIndent, found, Option.getD_some] at none
    obtain ⟨line, fits, indent⟩ := List.mem_map.mp (List.min?_mem found)
    obtain ⟨lineMember, lineInked⟩ := List.mem_filter.mp fits
    exact ⟨line, lineMember, exists_head?_of_indentOf (by simpa using lineInked) (indent.trans none)⟩
  · rintro ⟨line, member, char, first, bare⟩
    obtain ⟨flush, inkedLine⟩ := indentOf_of_head? first bare
    have listed : indentOf line ∈ ((text.splitOn '\n').filter (!allBlank ·)).map indentOf :=
      List.mem_map_of_mem (List.mem_filter.mpr ⟨member, by rw [inkedLine]; rfl⟩)
    exact Nat.le_zero.mp (flush ▸ List.min?_getD_le_of_mem listed)

/-! ### When taking indentation off changes nothing -/

namespace Unindents

theorem newline_mem_iff (unindents : Unindents width left text result) :
    '\n' ∈ result ↔ '\n' ∈ text := by
  induction unindents with
  | nil => exact Iff.rfl
  | newline => exact iff_of_true List.mem_cons_self List.mem_cons_self
  | keep other _ inductionHypothesis =>
    rw [List.mem_cons, List.mem_cons, inductionHypothesis]
  | drop other _ _ inductionHypothesis =>
    rw [inductionHypothesis, List.mem_cons, or_iff_right (Ne.symm other)]

theorem eq_of_oneLine (unindents : Unindents width 0 text result) (without : '\n' ∉ text) :
    result = text := by
  generalize none : 0 = left at unindents
  induction unindents with
  | nil => rfl
  | newline => exact absurd List.mem_cons_self without
  | keep other _ inductionHypothesis =>
    rw [inductionHypothesis (fun inside => without (List.mem_cons_of_mem _ inside)) rfl]
  | drop => cases none

theorem eq_of_zero (unindents : Unindents width 0 text result) (narrow : width = 0) :
    result = text := by
  generalize none : 0 = left at unindents
  induction unindents with
  | nil => rfl
  | newline _ _ inductionHypothesis => rw [inductionHypothesis narrow.symm]
  | keep _ _ inductionHypothesis => rw [inductionHypothesis rfl]
  | drop => cases none

/-- The last line of a text loses its indentation if it is not the only line. -/
theorem length_lt (unindents : Unindents (width + 1) left text result) (tight : IsTight text)
    (lines : '\n' ∈ text) : result.length < text.length := by
  obtain ⟨front, last, rfl, ended, without⟩ := exists_lastLine text
  rcases ended with rfl | ⟨front, rfl⟩
  · exact absurd lines without
  cases last with
  | nil =>
    have blank := tight.2 '\n' (by simp)
    cases blank
  | cons char last =>
    rw [List.append_assoc] at unindents
    obtain ⟨first, middle, second, rfl, start, stop⟩ := unindents.exists_of_append
    cases stop with
    | newline _ rest =>
      cases rest with
      | newline => exact absurd List.mem_cons_self without
      | drop _ _ rest =>
        have before := start.sublist.length_le
        have after := rest.sublist.length_le
        simp only [List.length_append, List.length_cons, List.length_nil]
        omega
    | keep other => exact absurd rfl other
    | drop other => exact absurd rfl other

/-- Indentation that is taken off shows, except on the first line. -/
theorem eq_iff (unindents : Unindents width 0 text result) (tight : IsTight text) :
    result = text ↔ '\n' ∉ text ∨ width = 0 := by
  constructor
  · rintro rfl
    by_cases lines : '\n' ∈ result
    · cases width with
      | zero => exact Or.inr rfl
      | succ width => exact absurd (unindents.length_lt tight lines) (Nat.lt_irrefl _)
    · exact Or.inl lines
  · rintro (without | narrow)
    · exact unindents.eq_of_oneLine without
    · exact unindents.eq_of_zero narrow

end Unindents

theorem IsTight.inked (tight : IsTight text) (some : text ≠ []) : allBlank text = false :=
  Bool.eq_false_iff.mpr fun blank => some (tight.eq_nil_of_allBlank blank)

/-- A text without white space at its ends is stored as it is: its first line has no
indentation. -/
theorem normalize_of_isTight (tight : IsTight text) : Excerpt.normalize text = text := by
  have unindents := unindents_normalize tight.trims
  by_cases empty : text = []
  · subst empty
    exact unindents.eq_of_oneLine List.not_mem_nil
  · obtain ⟨char, rest, rfl⟩ := List.exists_cons_of_ne_nil empty
    have bare : isBlank char = false := tight.1 char rfl
    have other : char ≠ '\n' := by
      rintro rfl
      cases bare
    obtain ⟨line, more, lines⟩ := List.exists_cons_of_ne_nil (List.splitOn_ne_nil '\n' rest)
    have flush : HasFlushLine (char :: rest) := by
      refine ⟨char :: line, ?_, char, rfl, bare⟩
      rw [splitOn_cons_of_ne other lines]
      exact List.mem_cons_self
    exact unindents.eq_of_zero ((commonIndent_eq_zero_iff (tight.inked empty)).mpr flush)

/-- What is stored of a text is its part without white space at the ends just if that is one
line or the text has no common indentation. -/
theorem normalize_eq_iff (trims : Trims text head core tail) :
    Excerpt.normalize text = core ↔ '\n' ∉ Excerpt.normalize text ∨ HasFlushLine text := by
  have unindents := unindents_normalize trims
  rw [unindents.eq_iff trims.tight, unindents.newline_mem_iff]
  by_cases empty : core = []
  · rw [empty]
    exact iff_of_true (Or.inl List.not_mem_nil) (Or.inl List.not_mem_nil)
  · have inked : allBlank text = false := by
      refine Bool.eq_false_iff.mpr fun blank => empty (trims.tight.eq_nil_of_allBlank ?_)
      rw [trims.split, allBlank_append, allBlank_append] at blank
      exact blank.2.1
    rw [commonIndent_eq_zero_iff inked]

end Text

/-! ### The second cut -/

/-- A span is known from the parts into which it splits a text. -/
theorem Text.Splits.span_eq {content left middle right : List Char} {span other : Span}
    (splits : Text.Splits content span left middle right)
    (otherSplits : Text.Splits content other left middle right) : span = other := by
  obtain ⟨start, stop⟩ := span
  obtain ⟨otherStart, otherStop⟩ := other
  obtain ⟨-, rfl, rfl⟩ := splits
  obtain ⟨-, rfl, rfl⟩ := otherSplits
  rfl

/-- The range of an excerpt can be cut out again. That gives the range as it stands in the file,
which is the text of the excerpt just if that is one line or some line of what was cut out
first starts without white space. -/
theorem ofSpan_trimmed_text_eq_iff {content : List Char} {span : Span} {excerpt : Excerpt}
    (cut : Excerpt.ofSpan content span = .ok excerpt) :
    ∃ slice again, Text.slice? content span = some slice ∧
      Excerpt.ofSpan content excerpt.trimmed = .ok again ∧
      Text.slice? content excerpt.trimmed = some again.text ∧ again.trimmed = excerpt.trimmed ∧
      (again.text = excerpt.text ↔ '\n' ∉ excerpt.text ∨ Text.HasFlushLine slice) := by
  rw [Excerpt.ofSpan] at cut
  split at cut
  case h_2 => cases cut
  case h_1 slice found =>
    cases cut
    obtain ⟨left, right, splits⟩ := Text.exists_splits_of_slice? found
    obtain ⟨head, core, tail, trims⟩ := Text.exists_trims slice
    have trimmed := Excerpt.splits_trimmedSpan splits trims
    have tight := Excerpt.splits_trimmedSpan trimmed trims.tight.trims
    rw [List.append_nil, List.nil_append] at tight
    refine ⟨slice, ⟨core, Excerpt.trimmedSpan span.start slice⟩, found, ?_, trimmed.slice?, rfl, ?_⟩
    · rw [Excerpt.ofSpan, trimmed.slice?]
      dsimp only
      rw [Text.normalize_of_isTight trims.tight, tight.span_eq trimmed]
    · exact eq_comm.trans (Text.normalize_eq_iff trims)

/-! ### A block of two lines -/

/-- A block as it is mostly written: its lines are indented, its braces are not. -/
def indentedBlock : List Char := "\x7b\n  a()\n  b()\n\x7d".toList

theorem ofSpan_indentedBlock :
    Excerpt.ofSpan indentedBlock ⟨1, 14⟩ = .ok ⟨"a()\nb()".toList, ⟨4, 13⟩⟩ := by
  decide +kernel

theorem indentedBlock_trimmed_text_eq_iff :
    Excerpt.ofSpan indentedBlock ⟨1, 14⟩ = .ok ⟨"a()\nb()".toList, ⟨4, 13⟩⟩ ∧
      ∃ slice again, Text.slice? indentedBlock ⟨1, 14⟩ = some slice ∧
        Excerpt.ofSpan indentedBlock ⟨4, 13⟩ = .ok again ∧
        Text.slice? indentedBlock ⟨4, 13⟩ = some again.text ∧ again.trimmed = ⟨4, 13⟩ ∧
        (again.text = "a()\nb()".toList ↔ '\n' ∉ "a()\nb()".toList ∨ Text.HasFlushLine slice) :=
  ⟨ofSpan_indentedBlock, ofSpan_trimmed_text_eq_iff ofSpan_indentedBlock⟩

/-- It is not so that the range of an excerpt gives its text again: here the second line has
its indentation. -/
theorem trimmed_range_gives_other_text :
    ¬ ∀ (content : List Char) (span : Span) (excerpt : Excerpt),
      Excerpt.ofSpan content span = .ok excerpt →
        ∃ again, Excerpt.ofSpan content excerpt.trimmed = .ok again ∧
          again.text = excerpt.text := by
  intro claim
  obtain ⟨again, cut, same⟩ := claim _ _ _ ofSpan_indentedBlock
  have verbatim : Excerpt.ofSpan indentedBlock ⟨4, 13⟩ =
      .ok ⟨"a()\n  b()".toList, ⟨4, 13⟩⟩ := by
    decide +kernel
  rw [verbatim] at cut
  cases cut
  revert same
  decide

end SourceCapture
