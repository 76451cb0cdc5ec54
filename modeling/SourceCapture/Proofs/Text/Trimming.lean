/-
A text between its white space. Every text has one part that is empty or starts and ends with
other characters, with white space around it only. Trimming a text, from either side first,
leaves this part.
-/

import Mathlib.Data.List.Basic
import Mathlib.Data.List.TakeWhile
import SourceCapture.Text.Blank

namespace SourceCapture.Text

/-! ### Characters that stay -/

section

variable {test : Char → Bool} {char : Char}

theorem dropWhile_append_cons (stays : test char = false) (left right : List Char) :
    (left ++ char :: right).dropWhile test = left.dropWhile test ++ char :: right := by
  rw [List.dropWhile_append]
  split
  case isTrue nothing =>
    rw [List.isEmpty_iff.mp nothing, List.dropWhile_cons_of_neg (by simpa using stays)]
    rfl
  case isFalse => rfl

theorem dropEndWhile_append_cons (stays : test char = false) (left right : List Char) :
    dropEndWhile test (left ++ char :: right) = left ++ char :: dropEndWhile test right := by
  rw [dropEndWhile, List.reverse_append, List.reverse_cons, List.append_assoc,
    List.singleton_append, dropWhile_append_cons stays, List.reverse_append, List.reverse_cons,
    List.reverse_reverse, List.append_assoc]
  rfl

/-- What is taken off the ends of a text is on either side of a character that stays. -/
theorem stripWhile_append_cons (stays : test char = false) (left right : List Char) :
    stripWhile test (left ++ char :: right) =
      left.dropWhile test ++ char :: dropEndWhile test right := by
  rw [stripWhile, dropWhile_append_cons stays, dropEndWhile_append_cons stays]

theorem countP_dropWhile (test : Char → Bool) (text : List Char) :
    (text.dropWhile test).countP (!test ·) = text.countP (!test ·) := by
  induction text with
  | nil => rfl
  | cons char rest inductionHypothesis =>
    rw [List.dropWhile_cons]
    split
    case isTrue dropped =>
      rw [inductionHypothesis, List.countP_cons_of_neg (by simpa using dropped)]
    case isFalse => rfl

/-- Only characters that are to be taken off are taken off. -/
theorem countP_stripWhile (test : Char → Bool) (text : List Char) :
    (stripWhile test text).countP (!test ·) = text.countP (!test ·) := by
  rw [stripWhile, dropEndWhile, List.countP_reverse, countP_dropWhile, List.countP_reverse,
    countP_dropWhile]

theorem dropEndWhile_sublist (test : Char → Bool) (text : List Char) :
    (dropEndWhile test text).Sublist text := by
  have kept := (text.reverse.dropWhile_sublist test).reverse
  rwa [List.reverse_reverse] at kept

theorem trimStart_sublist (text : List Char) : (trimStart text).Sublist text :=
  text.dropWhile_sublist isBlank

theorem trim_sublist (text : List Char) : (trim text).Sublist text :=
  (dropEndWhile_sublist isBlank _).trans (trimStart_sublist text)

theorem trim_append_cons (bare : isBlank char = false) (left right : List Char) :
    trim (left ++ char :: right) = trimStart left ++ char :: trimEnd right :=
  stripWhile_append_cons bare left right

end

/-! ### White space only -/

theorem allBlank_append {left right : List Char} :
    allBlank (left ++ right) = true ↔ allBlank left = true ∧ allBlank right = true := by
  rw [allBlank, List.all_append, Bool.and_eq_true]
  rfl

theorem allBlank_of_sublist {part text : List Char} (sublist : part.Sublist text)
    (blank : allBlank text = true) : allBlank part = true := by
  rw [allBlank, List.all_eq_true] at blank ⊢
  exact fun char member => blank char (sublist.subset member)

theorem allBlank_reverse (text : List Char) : allBlank text.reverse = allBlank text :=
  List.all_reverse

theorem removeBlanks_eq_nil_iff (text : List Char) :
    removeBlanks text = [] ↔ allBlank text = true := by
  rw [removeBlanks, List.filter_eq_nil_iff, allBlank, List.all_eq_true]
  simp

/-- Whether a text has no white space at its ends. -/
def IsTight (text : List Char) : Prop :=
  (∀ char ∈ text.head?, isBlank char = false) ∧ ∀ char ∈ text.getLast?, isBlank char = false

instance (text : List Char) : Decidable (IsTight text) :=
  decidable_of_iff ((text.head?.all fun char => !isBlank char) = true ∧
      (text.getLast?.all fun char => !isBlank char) = true)
    (by simp [IsTight, Option.all_eq_true])

theorem isTight_nil : IsTight [] := ⟨nofun, nofun⟩

theorem isTight_of_solid {text : List Char} (solid : ∀ char ∈ text, isBlank char = false) :
    IsTight text :=
  ⟨fun char first => solid char (List.mem_of_mem_head? first),
    fun char last => solid char (List.mem_of_mem_getLast? last)⟩

theorem isTight_append {left right : List Char} (leftNonempty : left ≠ []) (rightNonempty : right ≠ [])
    (start : ∀ char ∈ left.head?, isBlank char = false)
    (ended : ∀ char ∈ right.getLast?, isBlank char = false) : IsTight (left ++ right) := by
  refine ⟨?_, ?_⟩
  · rwa [List.head?_append_of_ne_nil _ leftNonempty]
  · rwa [List.getLast?_append_of_ne_nil _ rightNonempty]

theorem isTight_surrounded {opening closing : Char} (start : isBlank opening = false)
    (ended : isBlank closing = false) (text : List Char) :
    IsTight (opening :: (text ++ [closing])) := by
  rw [← List.cons_append]
  refine isTight_append (List.cons_ne_nil _ _) (List.cons_ne_nil _ _) ?_ ?_
  · rintro _ ⟨⟩
    exact start
  · rintro _ ⟨⟩
    exact ended

/-- A tight text of white space is empty. -/
theorem IsTight.eq_nil_of_allBlank {text : List Char} (tight : IsTight text)
    (blank : allBlank text = true) : text = [] := by
  cases text with
  | nil => rfl
  | cons char rest =>
    have bare := tight.1 char rfl
    rw [(List.all_eq_true.mp blank) char List.mem_cons_self] at bare
    cases bare

/-! ### Trimming one side -/

variable {head core tail text rest : List Char}

theorem trimStart_append (blank : allBlank head = true)
    (bare : ∀ char ∈ rest.head?, isBlank char = false) : trimStart (head ++ rest) = rest := by
  rw [trimStart, List.dropWhile_append_of_pos (List.all_eq_true.mp blank)]
  cases rest with
  | nil => rfl
  | cons char rest =>
    rw [List.dropWhile_cons_of_neg]
    rw [bare char rfl]
    exact Bool.false_ne_true

theorem IsTight.trimStart_eq (tight : IsTight text) : trimStart text = text := by
  have nothing : allBlank [] = true := rfl
  exact trimStart_append nothing tight.1

theorem trimEnd_append (blank : allBlank tail = true)
    (bare : ∀ char ∈ rest.getLast?, isBlank char = false) : trimEnd (rest ++ tail) = rest := by
  have mirrored : trimStart (tail.reverse ++ rest.reverse) = rest.reverse := by
    refine trimStart_append ?_ ?_
    · rw [allBlank_reverse]
      exact blank
    · rw [List.head?_reverse]
      exact bare
  rw [trimEnd, dropEndWhile, List.reverse_append]
  exact (congrArg List.reverse mirrored).trans (List.reverse_reverse rest)

theorem IsTight.trimEnd_append (tight : IsTight text) (nonempty : text ≠ []) (front : List Char) :
    trimEnd (front ++ text) = front ++ text := by
  obtain ⟨others, last, rfl⟩ := (List.eq_nil_or_concat' text).resolve_left nonempty
  have bare : isBlank last = false := tight.2 last List.getLast?_concat
  rw [← List.append_assoc, trimEnd, dropEndWhile_append_cons bare]
  rfl

/-- White space is taken off the start of a text until another character is met. -/
theorem exists_trimStart (text : List Char) : ∃ head, text = head ++ trimStart text ∧
    allBlank head = true ∧ ∀ char ∈ (trimStart text).head?, isBlank char = false := by
  refine ⟨text.takeWhile isBlank, List.takeWhile_append_dropWhile.symm, List.all_takeWhile, ?_⟩
  intro char member
  have stopped := List.head?_dropWhile_not isBlank text
  rw [trimStart, Option.mem_def] at member
  rw [member] at stopped
  exact stopped

theorem exists_trimEnd (text : List Char) : ∃ tail, text = trimEnd text ++ tail ∧
    allBlank tail = true ∧ ∀ char ∈ (trimEnd text).getLast?, isBlank char = false := by
  obtain ⟨tail, split, blank, bare⟩ := exists_trimStart text.reverse
  refine ⟨tail.reverse, ?_, (allBlank_reverse tail).trans blank, ?_⟩
  · have mirrored := congrArg List.reverse split
    rw [List.reverse_reverse, List.reverse_append] at mirrored
    exact mirrored
  · intro char member
    rw [trimEnd, dropEndWhile, List.getLast?_reverse] at member
    exact bare char member

/-! ### Trimming both sides -/

/-- The parts of a text before, in and after the part without white space at the ends. Nothing
is before an empty part. -/
structure Trims (text head core tail : List Char) : Prop where
  split : text = head ++ (core ++ tail)
  headBlank : allBlank head = true
  tailBlank : allBlank tail = true
  tight : IsTight core
  headEmpty : core = [] → head = []

theorem IsTight.trims (tight : IsTight text) : Trims text [] text [] :=
  ⟨(List.append_nil text).symm, rfl, rfl, tight, fun _ => rfl⟩

theorem trims_of_allBlank (blank : allBlank text = true) : Trims text [] [] text :=
  ⟨rfl, rfl, blank, isTight_nil, fun _ => rfl⟩

theorem exists_trims (text : List Char) : ∃ head core tail, Trims text head core tail := by
  by_cases blank : allBlank text = true
  · exact ⟨[], [], text, trims_of_allBlank blank⟩
  · -- The start is looked for in what the end has left, so that the two do not overlap.
    obtain ⟨tail, ended, tailBlank, last⟩ := exists_trimEnd text
    obtain ⟨head, started, headBlank, first⟩ := exists_trimStart (trimEnd text)
    generalize trimStart (trimEnd text) = core at started first
    have inside : core ≠ [] := by
      rintro rfl
      refine blank ?_
      rw [ended, started, List.append_nil]
      exact allBlank_append.mpr ⟨headBlank, tailBlank⟩
    refine ⟨head, core, tail, ?_, headBlank, tailBlank, ⟨first, ?_⟩,
      fun nothing => absurd nothing inside⟩
    · rw [← List.append_assoc, ← started]
      exact ended
    · rw [started, List.getLast?_append_of_ne_nil _ inside] at last
      exact last

namespace Trims

theorem trimEnd_eq (trims : Trims text head core tail) : trimEnd text = head ++ core := by
  rw [trims.split, ← List.append_assoc]
  refine trimEnd_append trims.tailBlank fun char member => ?_
  by_cases empty : core = []
  · rw [empty, trims.headEmpty empty] at member
    cases member
  · rw [List.getLast?_append_of_ne_nil _ empty] at member
    exact trims.tight.2 char member

theorem trimStart_trimEnd (trims : Trims text head core tail) :
    trimStart (trimEnd text) = core := by
  rw [trims.trimEnd_eq]
  exact trimStart_append trims.headBlank trims.tight.1

theorem trim_eq (trims : Trims text head core tail) : trim text = core := by
  rw [trims.split, trim]
  by_cases empty : core = []
  · rw [empty, trims.headEmpty empty]
    have nothing : trimStart tail = [] := by
      rw [← List.append_nil tail]
      exact trimStart_append trims.tailBlank nofun
    rw [List.nil_append, List.nil_append, nothing, trimEnd_nil]
  · rw [trimStart_append trims.headBlank]
    · exact trimEnd_append trims.tailBlank trims.tight.2
    · intro char member
      rw [List.head?_append_of_ne_nil _ empty] at member
      exact trims.tight.1 char member

/-- White space around a text belongs to the white space at its ends. -/
theorem surrounded {before after : List Char} (beforeBlank : allBlank before = true)
    (afterBlank : allBlank after = true) (trims : Trims text head core tail) (some : core ≠ []) :
    Trims (before ++ (text ++ after)) (before ++ head) core (tail ++ after) := by
  refine ⟨?_, allBlank_append.mpr ⟨beforeBlank, trims.headBlank⟩,
    allBlank_append.mpr ⟨trims.tailBlank, afterBlank⟩, trims.tight, fun none => absurd none some⟩
  rw [trims.split, List.append_assoc, List.append_assoc, List.append_assoc]

theorem blank (trims : Trims text head [] tail) : allBlank text = true := by
  rw [trims.split, trims.headEmpty rfl]
  exact trims.tailBlank

/-- White space around a text is trimmed with the white space at its ends. -/
theorem trim_append_append {before after : List Char} (beforeBlank : allBlank before = true)
    (afterBlank : allBlank after = true) (trims : Trims text head core tail) :
    trim (before ++ (text ++ after)) = core := by
  by_cases empty : core = []
  · subst empty
    have blank : allBlank (before ++ (text ++ after)) = true :=
      allBlank_append.mpr ⟨beforeBlank, allBlank_append.mpr ⟨trims.blank, afterBlank⟩⟩
    exact (trims_of_allBlank blank).trim_eq
  · exact (trims.surrounded beforeBlank afterBlank empty).trim_eq

end Trims

theorem IsTight.trim_append_blank (tight : IsTight text) (blank : allBlank tail = true) :
    trim (text ++ tail) = text :=
  tight.trims.trim_append_append (show allBlank [] = true from rfl) blank

theorem IsTight.trim_blank_append (tight : IsTight text) (blank : allBlank head = true) :
    trim (head ++ text) = text := by
  have trimmed := tight.trims.trim_append_append blank (show allBlank [] = true from rfl)
  rwa [List.append_nil] at trimmed

theorem trim_append_append {before after : List Char} (beforeBlank : allBlank before = true)
    (afterBlank : allBlank after = true) (text : List Char) :
    trim (before ++ (text ++ after)) = trim text := by
  obtain ⟨head, core, tail, trims⟩ := exists_trims text
  rw [trims.trim_append_append beforeBlank afterBlank, trims.trim_eq]

end SourceCapture.Text
