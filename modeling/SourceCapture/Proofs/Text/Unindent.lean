/-
Taking indentation off a text, character by character. Of every line after the first one, the
same number of characters at the start is left out, and they are white space. This relation can
be read along lines, where the indentation is known, and along parts of the text, where the
ends are trimmed. So it connects what is stored of a text with the range it is taken from.
-/

import SourceCapture.Excerpt
import SourceCapture.Proofs.Text.Trimming

namespace SourceCapture.Text

/-- The second text is the first one without `width` characters of white space, or as many as
there are, at the start of every line but the first one, and nothing else is missing. -/
def DropsIndent (width : Nat) (text result : List Char) : Prop :=
  ∃ first rest, text.splitOn '\n' = first :: rest ∧
    (∀ line ∈ rest, allBlank (line.take width) = true) ∧
      result = ['\n'].intercalate (first :: rest.map (·.drop width))

/-- The second text is the first one without white space at the start of its lines: up to
`left` characters on the first line, up to `width` on the others. -/
inductive Unindents (width : Nat) : Nat → List Char → List Char → Prop where
  | nil (left : Nat) : Unindents width left [] []
  | newline (left : Nat) {text result : List Char} (rest : Unindents width width text result) :
      Unindents width left ('\n' :: text) ('\n' :: result)
  | keep {char : Char} {text result : List Char} (other : char ≠ '\n')
      (rest : Unindents width 0 text result) : Unindents width 0 (char :: text) (char :: result)
  | drop {left : Nat} {char : Char} {text result : List Char} (other : char ≠ '\n')
      (blank : isBlank char = true) (rest : Unindents width left text result) :
      Unindents width (left + 1) (char :: text) result

/-! ### Lines -/

variable {width left : Nat} {char : Char} {text result first : List Char} {rest : List (List Char)}

theorem splitOn_newline_cons (lines : text.splitOn '\n' = first :: rest) :
    ('\n' :: text).splitOn '\n' = [] :: first :: rest := by
  rw [List.splitOn_cons_eq_if_modifyHead, if_pos (beq_self_eq_true _), lines]

theorem splitOn_cons_of_ne (other : char ≠ '\n') (lines : text.splitOn '\n' = first :: rest) :
    (char :: text).splitOn '\n' = (char :: first) :: rest := by
  rw [List.splitOn_cons_eq_if_modifyHead, if_neg (by simpa using other), lines,
    List.modifyHead_cons]

theorem intercalate_cons_char (char : Char) (first : List Char) (rest : List (List Char)) :
    ['\n'].intercalate ((char :: first) :: rest) = char :: ['\n'].intercalate (first :: rest) := by
  cases rest with
  | nil => rw [List.intercalate_singleton, List.intercalate_singleton]
  | cons second rest =>
    rw [List.intercalate_cons_cons, List.intercalate_cons_cons]
    rfl

theorem intercalate_nil_cons (second : List Char) (rest : List (List Char)) :
    ['\n'].intercalate ([] :: second :: rest) = '\n' :: ['\n'].intercalate (second :: rest) := by
  rw [List.intercalate_cons_cons]
  rfl

theorem allBlank_take_cons {left : Nat} :
    allBlank ((char :: text).take (left + 1)) = true ↔
      isBlank char = true ∧ allBlank (text.take left) = true := by
  rw [List.take_succ_cons, allBlank, List.all_cons, Bool.and_eq_true]
  rfl

/-- The second text is the first one with every line cut: the first line by `left` characters, the
others by `width`, all of them white space. -/
def CutsLines (width left : Nat) (text result : List Char) : Prop :=
  ∃ first rest, text.splitOn '\n' = first :: rest ∧ allBlank (first.take left) = true ∧
    (∀ line ∈ rest, allBlank (line.take width) = true) ∧
      result = ['\n'].intercalate (first.drop left :: rest.map (·.drop width))

/-- Along lines, indentation is taken off by cutting every line. -/
theorem Unindents.cutsLines (unindents : Unindents width left text result) :
    CutsLines width left text result := by
  induction unindents with
  | nil left =>
    refine ⟨[], [], rfl, ?_, nofun, ?_⟩
    · rw [List.take_nil]
      rfl
    · rw [List.drop_nil]
      rfl
  | newline left _ inductionHypothesis =>
    obtain ⟨first, rest, lines, blank, others, rfl⟩ := inductionHypothesis
    refine ⟨[], first :: rest, splitOn_newline_cons lines, ?_, ?_, ?_⟩
    · rw [List.take_nil]
      rfl
    · exact List.forall_mem_cons.mpr ⟨blank, others⟩
    · rw [List.drop_nil, List.map_cons, intercalate_nil_cons]
  | keep other _ inductionHypothesis =>
    obtain ⟨first, rest, lines, blank, others, rfl⟩ := inductionHypothesis
    refine ⟨_, rest, splitOn_cons_of_ne other lines, rfl, others, ?_⟩
    exact (intercalate_cons_char _ _ _).symm
  | drop other white _ inductionHypothesis =>
    obtain ⟨first, rest, lines, blank, others, rfl⟩ := inductionHypothesis
    exact ⟨_, rest, splitOn_cons_of_ne other lines, allBlank_take_cons.mpr ⟨white, blank⟩,
      others, rfl⟩

theorem CutsLines.unindents (cuts : CutsLines width left text result) :
    Unindents width left text result := by
  obtain ⟨first, rest, lines, blank, others, rfl⟩ := cuts
  -- A character goes to the front of the first line, or a newline makes a new one.
  induction text generalizing left first rest with
  | nil =>
    rw [List.splitOn_nil] at lines
    cases lines
    rw [List.drop_nil]
    exact .nil left
  | cons char text inductionHypothesis =>
    obtain ⟨second, more, parts⟩ := List.exists_cons_of_ne_nil (List.splitOn_ne_nil '\n' text)
    by_cases newline : char = '\n'
    · subst newline
      rw [splitOn_newline_cons parts] at lines
      cases lines
      rw [List.drop_nil, List.map_cons, intercalate_nil_cons]
      obtain ⟨secondBlank, moreBlank⟩ := List.forall_mem_cons.mp others
      exact .newline left (inductionHypothesis _ _ parts secondBlank moreBlank)
    · rw [splitOn_cons_of_ne newline parts] at lines
      cases lines
      cases left with
      | zero =>
        rw [List.drop_zero, intercalate_cons_char]
        exact .keep newline (inductionHypothesis _ _ parts rfl others)
      | succ left =>
        obtain ⟨white, secondBlank⟩ := allBlank_take_cons.mp blank
        exact .drop newline white (inductionHypothesis _ _ parts secondBlank others)

namespace Unindents

variable {other front back head core tail : List Char}

/-- The width decides what is taken off. -/
theorem unique (unindents : Unindents width left text result)
    (otherUnindents : Unindents width left text other) : result = other := by
  obtain ⟨first, rest, lines, -, -, rfl⟩ := unindents.cutsLines
  obtain ⟨_, _, sameLines, -, -, rfl⟩ := otherUnindents.cutsLines
  rw [lines] at sameLines
  cases sameLines
  rfl

theorem dropsIndent (unindents : Unindents width 0 text result) : DropsIndent width text result := by
  obtain ⟨first, rest, lines, -, blank, same⟩ := unindents.cutsLines
  exact ⟨first, rest, lines, blank, same⟩

/-! ### Parts -/

theorem sublist (unindents : Unindents width left text result) : result.Sublist text := by
  induction unindents with
  | nil left => exact .slnil
  | newline left rest inductionHypothesis => exact inductionHypothesis.cons_cons _
  | keep other rest inductionHypothesis => exact inductionHypothesis.cons_cons _
  | drop other blank rest inductionHypothesis => exact inductionHypothesis.cons _

/-- Only white space is lost. -/
theorem removeBlanks_eq (unindents : Unindents width left text result) :
    removeBlanks result = removeBlanks text := by
  induction unindents with
  | nil left => rfl
  | newline left rest inductionHypothesis | keep other rest inductionHypothesis =>
    simp only [removeBlanks, List.filter_cons] at inductionHypothesis ⊢
    rw [inductionHypothesis]
  | drop other blank rest inductionHypothesis =>
    rw [inductionHypothesis, removeBlanks, removeBlanks, List.filter_cons_of_neg (by simp [blank])]

theorem exists_of_append (unindents : Unindents width left (front ++ back) result) :
    ∃ first middle second, result = first ++ second ∧ Unindents width left front first ∧
      Unindents width middle back second := by
  induction front generalizing left result with
  | nil => exact ⟨[], left, result, rfl, .nil left, unindents⟩
  | cons char front inductionHypothesis =>
    cases unindents with
    | newline _ rest =>
      obtain ⟨first, middle, second, rfl, start, stop⟩ := inductionHypothesis rest
      exact ⟨'\n' :: first, middle, second, rfl, .newline left start, stop⟩
    | keep other rest =>
      obtain ⟨first, middle, second, rfl, start, stop⟩ := inductionHypothesis rest
      exact ⟨char :: first, middle, second, rfl, .keep other start, stop⟩
    | drop other blank rest =>
      obtain ⟨first, middle, second, rfl, start, stop⟩ := inductionHypothesis rest
      exact ⟨first, middle, second, rfl, .drop other blank start, stop⟩

/-- A character that is not white space ends the indentation of its line. -/
theorem of_bare {char : Char} (unindents : Unindents width left (char :: text) result)
    (bare : isBlank char = false) :
    left = 0 ∧ ∃ rest, result = char :: rest ∧ Unindents width 0 text rest := by
  cases unindents with
  | newline => cases bare
  | keep other rest => exact ⟨rfl, _, rfl, rest⟩
  | drop other blank rest =>
    rw [bare] at blank
    cases blank

/-- Taking indentation off leaves the ends of a text that has no white space there. -/
theorem isTight (unindents : Unindents width left text result) (tight : IsTight text) :
    IsTight result := by
  constructor
  · cases text with
    | nil =>
      cases unindents
      exact nofun
    | cons char text =>
      obtain ⟨-, rest, rfl, -⟩ := unindents.of_bare (tight.1 char rfl)
      exact tight.1
  · rcases List.eq_nil_or_concat text with rfl | ⟨front, last, rfl⟩
    · cases unindents
      exact nofun
    · rw [List.concat_eq_append] at unindents tight
      obtain ⟨first, middle, second, rfl, -, stop⟩ := unindents.exists_of_append
      have bare : isBlank last = false := tight.2 last List.getLast?_concat
      obtain ⟨-, rest, rfl, nothing⟩ := stop.of_bare bare
      cases nothing
      rw [List.getLast?_concat]
      exact fun _ member => Option.some.inj member ▸ bare

/-- What is left of the part of a text without white space at its ends is the part of the
result without white space at its ends. -/
theorem exists_trims (unindents : Unindents width left text result)
    (trims : Trims text head core tail) :
    ∃ before trimmed after, Trims result before trimmed after ∧ Unindents width 0 core trimmed := by
  rcases core with _ | ⟨char, core⟩
  · have blank : allBlank result = true := by
      refine allBlank_of_sublist unindents.sublist ?_
      rw [trims.split, trims.headEmpty rfl]
      exact trims.tailBlank
    exact ⟨[], [], result, trims_of_allBlank blank, .nil 0⟩
  · rw [trims.split] at unindents
    obtain ⟨before, middle, others, rfl, start, rest⟩ := unindents.exists_of_append
    obtain ⟨trimmed, last, after, rfl, inside, stop⟩ := rest.exists_of_append
    obtain ⟨rfl, kept, rfl, -⟩ := inside.of_bare (trims.tight.1 char rfl)
    refine ⟨before, char :: kept, after, ⟨rfl, ?_, ?_, inside.isTight trims.tight, nofun⟩, inside⟩
    · exact allBlank_of_sublist start.sublist trims.headBlank
    · exact allBlank_of_sublist stop.sublist trims.tailBlank

end Unindents

/-! ### The common indentation -/

theorem allBlank_take_of_le_indentOf {width : Nat} {line : List Char}
    (within : width ≤ indentOf line) : allBlank (line.take width) = true := by
  have start : line.take (indentOf line) = line.takeWhile isBlank :=
    (List.prefix_iff_eq_take.mp (List.takeWhile_prefix isBlank)).symm
  have part : (line.take width).Sublist (line.takeWhile isBlank) := by
    rw [← start]
    exact (List.take_prefix_take_left within).sublist
  exact allBlank_of_sublist part List.all_takeWhile

/-- The common indentation of lines is white space on each of them. -/
theorem allBlank_take_commonIndent {line : List Char} {lines : List (List Char)}
    (member : line ∈ lines) : allBlank (line.take (commonIndent lines)) = true := by
  by_cases blank : allBlank line = true
  · exact allBlank_of_sublist (List.take_sublist _ _) blank
  · refine allBlank_take_of_le_indentOf (List.min?_getD_le_of_mem ?_)
    refine List.mem_map_of_mem (List.mem_filter.mpr ⟨member, ?_⟩)
    rw [Bool.not_eq_true] at blank
    rw [blank]
    rfl

/-! ### Lines of white space at the ends -/

theorem intercalate_concat {lines : List (List Char)} (some : lines ≠ []) (last : List Char) :
    ['\n'].intercalate (lines ++ [last]) = ['\n'].intercalate lines ++ '\n' :: last := by
  induction lines with
  | nil => exact absurd rfl some
  | cons line rest inductionHypothesis =>
    cases rest with
    | nil =>
      rw [List.singleton_append, List.intercalate_cons_cons, List.intercalate_singleton,
        List.intercalate_singleton, List.append_assoc]
      rfl
    | cons second rest =>
      have others := inductionHypothesis (List.cons_ne_nil second rest)
      rw [List.cons_append] at others ⊢
      rw [List.cons_append, List.intercalate_cons_cons, others, List.intercalate_cons_cons,
        List.append_assoc _ _ ('\n' :: last)]

theorem exists_intercalate_dropBlankFirst (width : Nat) (lines : List (List Char)) :
    ∃ before, allBlank before = true ∧ ['\n'].intercalate (lines.map (·.drop width)) =
      before ++ ['\n'].intercalate ((dropBlankFirst lines).map (·.drop width)) := by
  cases lines with
  | nil => exact ⟨[], rfl, rfl⟩
  | cons line rest =>
    rw [dropBlankFirst]
    split
    case isFalse => exact ⟨[], rfl, rfl⟩
    case isTrue blank =>
      have dropped : allBlank (line.drop width) = true :=
        allBlank_of_sublist (List.drop_sublist _ _) blank
      cases rest with
      | nil =>
        refine ⟨line.drop width, dropped, ?_⟩
        rw [List.map_singleton, List.intercalate_singleton]
        exact (List.append_nil _).symm
      | cons second rest =>
        refine ⟨line.drop width ++ ['\n'], allBlank_append.mpr ⟨dropped, rfl⟩, ?_⟩
        rw [List.map_cons, List.map_cons, List.intercalate_cons_cons]

theorem exists_intercalate_dropBlankLast (width : Nat) (lines : List (List Char)) :
    ∃ after, allBlank after = true ∧ ['\n'].intercalate (lines.map (·.drop width)) =
      ['\n'].intercalate ((dropBlankLast lines).map (·.drop width)) ++ after := by
  rcases List.eq_nil_or_concat lines with rfl | ⟨front, last, rfl⟩
  · exact ⟨[], rfl, rfl⟩
  · rw [List.concat_eq_append, dropBlankLast, List.reverse_concat, dropBlankFirst]
    split
    case isFalse =>
      refine ⟨[], rfl, ?_⟩
      rw [List.reverse_cons, List.reverse_reverse, List.append_nil]
    case isTrue blank =>
      have dropped : allBlank (last.drop width) = true :=
        allBlank_of_sublist (List.drop_sublist _ _) blank
      rw [List.reverse_reverse, List.map_append, List.map_singleton]
      cases front with
      | nil =>
        refine ⟨last.drop width, dropped, ?_⟩
        rw [List.map_nil, List.nil_append, List.intercalate_singleton]
        rfl
      | cons line front =>
        refine ⟨'\n' :: last.drop width, ?_, intercalate_concat (List.cons_ne_nil _ _) _⟩
        rw [allBlank, List.all_cons, isBlank_newline]
        exact dropped

/-! ### The stored text -/

/-- What is stored of a text is its part without white space at the ends, with the common
indentation of the whole text taken off. -/
theorem unindents_normalize {text head core tail : List Char}
    (trims : Trims text head core tail) :
    Unindents (commonIndent (text.splitOn '\n')) 0 core (Excerpt.normalize text) := by
  obtain ⟨first, rest, lines⟩ := List.exists_cons_of_ne_nil (List.splitOn_ne_nil '\n' text)
  have blank : ∀ line ∈ first :: rest,
      allBlank (line.take (commonIndent (first :: rest))) = true :=
    fun line member => allBlank_take_commonIndent member
  generalize width : commonIndent (first :: rest) = indent at blank
  have unindents : Unindents indent indent text
      (['\n'].intercalate ((first :: rest).map (·.drop indent))) := by
    obtain ⟨firstBlank, restBlank⟩ := List.forall_mem_cons.mp blank
    exact CutsLines.unindents ⟨first, rest, lines, firstBlank, restBlank, rfl⟩
  -- The lines that are left out at the ends are white space, which is trimmed off in any case.
  obtain ⟨before, beforeBlank, started⟩ := exists_intercalate_dropBlankFirst indent (first :: rest)
  obtain ⟨after, afterBlank, ended⟩ :=
    exists_intercalate_dropBlankLast indent (dropBlankFirst (first :: rest))
  have whole : ['\n'].intercalate ((first :: rest).map (·.drop indent)) =
      before ++ (trimIndent text ++ after) := by
    rw [started, ended, trimIndent, lines, width]
  obtain ⟨_, trimmed, _, resultTrims, inside⟩ := unindents.exists_trims trims
  rw [lines, width, Excerpt.normalize, ← trim_append_append beforeBlank afterBlank, ← whole,
    resultTrims.trim_eq]
  exact inside

/-- Of white space nothing is stored. -/
theorem normalize_of_allBlank {text : List Char} (blank : allBlank text = true) :
    Excerpt.normalize text = [] :=
  List.sublist_nil.mp (unindents_normalize (trims_of_allBlank blank)).sublist

/-- Texts with the same part between their white space are stored alike if their lines have the
same common indentation. -/
theorem normalize_congr {text other core head tail otherHead otherTail : List Char}
    (trims : Trims text head core tail) (otherTrims : Trims other otherHead core otherTail)
    (sameIndent : commonIndent (text.splitOn '\n') = commonIndent (other.splitOn '\n')) :
    Excerpt.normalize text = Excerpt.normalize other := by
  refine (unindents_normalize trims).unique ?_
  rw [sameIndent]
  exact unindents_normalize otherTrims

end SourceCapture.Text
