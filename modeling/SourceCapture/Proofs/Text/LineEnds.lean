/-
Line ends of normalized texts. Every newline loses one carriage return of those just before it, so
a newline that had two of them still has one, and the text is not the one that a second pass would
give. Where no newline has two, one pass leaves none, and further passes change nothing. A text
whose newlines are all written with one carriage return more is read as it was.
-/

import Mathlib.Data.List.Infix
import SourceCapture.Proofs.Files.SourceFiles

namespace SourceCapture

namespace Text

/-- A newline behind carriage returns. -/
def lineEnd (returns : Nat) : List Char := List.replicate returns '\r' ++ ['\n']

/-- The text with a carriage return before every newline. -/
def withReturns (text : List Char) : List Char :=
  text.flatMap fun char => if char = '\n' then ['\r', '\n'] else [char]

variable {text rest : List Char} {char : Char} {returns : Nat}

/-! ### What a text starts with -/

theorem lineEnd_zero_prefix_cons_iff : lineEnd 0 <+: char :: rest ↔ char = '\n' := by
  rw [lineEnd, List.replicate_zero, List.nil_append, List.cons_prefix_cons, eq_comm]
  exact and_iff_left List.nil_prefix

theorem lineEnd_succ_prefix_cons_iff :
    lineEnd (returns + 1) <+: char :: rest ↔ char = '\r' ∧ lineEnd returns <+: rest := by
  rw [lineEnd, List.replicate_succ, List.cons_append, List.cons_prefix_cons, eq_comm]
  rfl

theorem not_lineEnd_prefix_nil (returns : Nat) : ¬ lineEnd returns <+: [] := by
  rw [List.prefix_nil]
  exact List.append_ne_nil_of_right_ne_nil _ (List.cons_ne_nil _ _)

/-- What is kept as it is does not start a line end with a carriage return. -/
theorem not_lineEnd_zero_at_start (other : ∀ more, char = '\r' → rest = '\n' :: more → False)
    (isReturn : char = '\r') : ¬ lineEnd 0 <+: rest := by
  rintro ⟨more, same⟩
  exact other more isReturn same.symm

theorem not_lineEnd_one_at_start (other : ∀ more, char = '\r' → rest = '\n' :: more → False) :
    ¬ lineEnd 1 <+: char :: rest := by
  rw [lineEnd_succ_prefix_cons_iff, not_and]
  exact not_lineEnd_zero_at_start other

/-! ### One pass -/

/-- Where a pass has a newline behind carriage returns, the text has one more of them. Only a newline
without any can have been one before. -/
theorem lineEnd_prefix_normalizeNewlines_iff : lineEnd returns <+: normalizeNewlines text ↔
    lineEnd (returns + 1) <+: text ∨ returns = 0 ∧ lineEnd 0 <+: text := by
  fun_induction normalizeNewlines text generalizing returns with
  | case1 => simp only [not_lineEnd_prefix_nil, and_false, or_self]
  | case2 rest =>
    cases returns with
    | zero => exact iff_of_true ⟨_, rfl⟩ (Or.inl ⟨rest, rfl⟩)
    | succ returns => simp [lineEnd_succ_prefix_cons_iff]
  | case3 char rest other inductionHypothesis =>
    cases returns with
    | zero =>
      rw [lineEnd_zero_prefix_cons_iff, lineEnd_zero_prefix_cons_iff, eq_self, true_and,
        or_iff_right (not_lineEnd_one_at_start other)]
    | succ returns =>
      rw [or_iff_left fun none => Nat.succ_ne_zero returns none.1, lineEnd_succ_prefix_cons_iff,
        lineEnd_succ_prefix_cons_iff, inductionHypothesis]
      refine and_congr_right fun isReturn => ?_
      rw [or_iff_left fun bare => not_lineEnd_zero_at_start other isReturn bare.2]

/-- A pass takes one carriage return off every newline that has one. -/
theorem lineEnd_infix_normalizeNewlines_iff :
    lineEnd (returns + 1) <:+: normalizeNewlines text ↔ lineEnd (returns + 2) <:+: text := by
  fun_induction normalizeNewlines text with
  | case1 => simp [lineEnd]
  | case2 rest inductionHypothesis =>
    rw [List.infix_cons_iff, List.infix_cons_iff, List.infix_cons_iff, inductionHypothesis]
    simp [lineEnd_succ_prefix_cons_iff]
  | case3 char rest other inductionHypothesis =>
    have start : lineEnd (returns + 1) <+: char :: normalizeNewlines rest ↔
        lineEnd (returns + 2) <+: char :: rest := by
      rw [← normalizeNewlines.eq_3 char rest other, lineEnd_prefix_normalizeNewlines_iff,
        or_iff_left fun none => Nat.succ_ne_zero returns none.1]
    rw [List.infix_cons_iff, List.infix_cons_iff, start, inductionHypothesis]

/-- A pass that has nothing to take off changes nothing. -/
theorem normalizeNewlines_eq_self_iff : normalizeNewlines text = text ↔ ¬ lineEnd 1 <:+: text := by
  fun_induction normalizeNewlines text with
  | case1 => exact iff_of_true rfl (by simp [lineEnd])
  | case2 rest =>
    refine iff_of_false (fun same => ?_) (fun without => without ⟨[], rest, rfl⟩)
    exact absurd (List.cons.inj same).1 (by decide)
  | case3 char rest other inductionHypothesis =>
    rw [List.infix_cons_iff, not_or, and_iff_right (not_lineEnd_one_at_start other),
      ← inductionHypothesis, List.cons_inj_right]

/-- Carriage returns that are put before all newlines are taken off. -/
theorem normalizeNewlines_withReturns (text : List Char) :
    normalizeNewlines (withReturns text) = text := by
  induction text with
  | nil => rfl
  | cons char rest inductionHypothesis =>
    rw [withReturns, List.flatMap_cons, ← withReturns]
    split
    case isTrue newline =>
      rw [newline]
      exact congrArg _ inductionHypothesis
    case isFalse other =>
      -- Behind a carriage return of the text comes another one, if a newline was behind it.
      rw [List.singleton_append, normalizeNewlines, inductionHypothesis]
      rintro more rfl ended
      cases rest with
      | nil => cases ended
      | cons next rest =>
        rw [withReturns, List.flatMap_cons] at ended
        split at ended
        · exact absurd (List.cons.inj ended).1 (by decide)
        case isFalse notNewline => exact notNewline (List.cons.inj ended).1

end Text

/-! ### Normalized texts -/

/-- A normalized text has a carriage return before a newline just if the text has two, and just then
it is changed by a second pass; so it is with the content of a file that is read. Where every
newline of a text is written with a carriage return before it, the text is read as it was. -/
theorem normalized_iff (text : List Char) :
    (¬ ['\r', '\n'] <:+: Text.normalizeNewlines text ↔ ¬ ['\r', '\r', '\n'] <:+: text) ∧
      (Text.normalizeNewlines (Text.normalizeNewlines text) = Text.normalizeNewlines text ↔
        ¬ ['\r', '\r', '\n'] <:+: text) ∧
      Text.normalizeNewlines (Text.withReturns text) = text ∧
      ∀ extraction store entry file, Extraction.readEntry extraction store entry = .ok file →
        store.readText entry.path = .ok (String.ofList text) →
          (¬ ['\r', '\n'] <:+: file.document.content ↔ ¬ ['\r', '\r', '\n'] <:+: text) := by
  have once : ¬ Text.lineEnd 1 <:+: Text.normalizeNewlines text ↔ ¬ Text.lineEnd 2 <:+: text :=
    not_congr Text.lineEnd_infix_normalizeNewlines_iff
  refine ⟨once, Text.normalizeNewlines_eq_self_iff.trans once,
    Text.normalizeNewlines_withReturns text, fun extraction store entry file read held => ?_⟩
  obtain ⟨stored, there, rfl⟩ := extraction.readEntry_eq_ok_iff.mp read
  rw [held] at there
  cases there
  rw [String.toList_ofList]
  exact once

/-- A newline behind two carriage returns still has one in the normalized text, which a second pass
changes. -/
theorem twoReturns_not_normalized :
    Text.normalizeNewlines "a\r\r\nb".toList = "a\r\nb".toList ∧
      ['\r', '\n'] <:+: Text.normalizeNewlines "a\r\r\nb".toList ∧
      Text.normalizeNewlines (Text.normalizeNewlines "a\r\r\nb".toList) = "a\nb".toList := by
  have once : Text.normalizeNewlines "a\r\r\nb".toList = "a\r\nb".toList := by decide
  refine ⟨once, ?_, by decide⟩
  rw [once]
  exact ⟨['a'], ['b'], rfl⟩

end SourceCapture
