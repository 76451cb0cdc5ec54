/-
Texts split at a separator. The pieces are what stands between the separators: there is one more
of them than there are separators, and no piece holds one. A text splits into three pieces exactly
if it has two separators and is these pieces with one between each two.
-/

import Mathlib.Data.List.Basic

namespace SourceCapture.Text

variable {separator : Char} {text piece first second third : List Char}

theorem not_mem_and_subset_of_mem_splitOn (member : piece ∈ text.splitOn separator) :
    separator ∉ piece ∧ piece ⊆ text := by
  induction text generalizing piece with
  | nil =>
    rw [List.splitOn_nil, List.mem_singleton] at member
    rw [member]
    exact ⟨List.not_mem_nil, List.Subset.refl []⟩
  | cons char rest inductionHypothesis =>
    rw [List.splitOn_cons_eq_if_modifyHead] at member
    split at member
    case isTrue =>
      rcases List.mem_cons.mp member with rfl | later
      · exact ⟨List.not_mem_nil, List.nil_subset _⟩
      · obtain ⟨without, inside⟩ := inductionHypothesis later
        exact ⟨without, List.subset_cons_of_subset char inside⟩
    case isFalse other =>
      obtain ⟨first, others, lines⟩ :=
        List.exists_cons_of_ne_nil (List.splitOn_ne_nil separator rest)
      rw [lines] at member inductionHypothesis
      rcases List.mem_cons.mp member with rfl | later
      · obtain ⟨without, inside⟩ := inductionHypothesis List.mem_cons_self
        rw [List.mem_cons, not_or]
        refine ⟨⟨?_, without⟩, List.cons_subset_cons char inside⟩
        rintro rfl
        exact other (beq_self_eq_true _)
      · obtain ⟨without, inside⟩ := inductionHypothesis (List.mem_cons_of_mem _ later)
        exact ⟨without, List.subset_cons_of_subset char inside⟩

theorem not_mem_of_mem_splitOn (member : piece ∈ text.splitOn separator) : separator ∉ piece :=
  (not_mem_and_subset_of_mem_splitOn member).1

/-- The pieces of a text are one more than its separators. -/
theorem length_splitOn (separator : Char) (text : List Char) :
    (text.splitOn separator).length = text.count separator + 1 := by
  induction text with
  | nil => rfl
  | cons char rest inductionHypothesis =>
    rw [List.splitOn_cons_eq_if_modifyHead, List.count_cons]
    split
    · rw [List.length_cons, inductionHypothesis]
    · rw [List.length_modifyHead, inductionHypothesis, Nat.add_zero]

/-- A text splits into three pieces if and only if it is written as them and no separator is in
any of them. -/
theorem splitOn_eq_triple_iff :
    text.splitOn separator = [first, second, third] ↔
      text.count separator = 2 ∧ text = first ++ separator :: (second ++ separator :: third) := by
  constructor
  · intro pieces
    have count := length_splitOn separator text
    have joined : [separator].intercalate [first, second, third] = text := by
      rw [← pieces, List.intercalate_splitOn]
    rw [pieces] at count
    refine ⟨(Nat.succ.inj count).symm, joined.symm.trans ?_⟩
    simp only [List.intercalate_cons_cons, List.intercalate_singleton, List.append_assoc,
      List.singleton_append]
  · rintro ⟨count, rfl⟩
    simp only [List.count_append, List.count_cons_self] at count
    have firstWithout : separator ∉ first := List.count_eq_zero.mp (by omega)
    have secondWithout : separator ∉ second := List.count_eq_zero.mp (by omega)
    have thirdWithout : separator ∉ third := List.count_eq_zero.mp (by omega)
    rw [List.splitOn_append_cons_self_of_not_mem firstWithout,
      List.splitOn_append_cons_self_of_not_mem secondWithout,
      List.splitOn_eq_singleton thirdWithout]

end SourceCapture.Text
