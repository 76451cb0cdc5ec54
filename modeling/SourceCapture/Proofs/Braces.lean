/-
The range between the braces of a block. Of a span the last closing brace is looked for, and of
what is in front of it the first opening brace. Braces take one byte and no other character has
that byte in it, so both are found as characters that stand at an offset, and the offsets behind
them are between characters as well. Without an opening brace in front of a closing one, the range
is empty.
-/

import Mathlib.Data.List.TakeWhile
import SourceCapture.Proofs.Text.Cuts
import SourceCapture.Proofs.Text.Unindent

namespace SourceCapture

/-! ### Characters with their offsets -/

namespace Text

variable {offset place : Nat} {char kind : Char} {text : List Char}

/-- Whether a character stands at a byte offset of a text. -/
def StandsAt (text : List Char) (char : Char) (offset : Nat) : Prop :=
  ∃ left right, text = left ++ char :: right ∧ byteLength left = offset

theorem mem_charsFrom_iff : (place, char) ∈ charsFrom offset text ↔
    ∃ left right, text = left ++ char :: right ∧ place = offset + byteLength left := by
  constructor
  · intro member
    induction text generalizing offset with
    | nil => cases member
    | cons first rest inductionHypothesis =>
      rw [charsFrom, List.mem_cons] at member
      rcases member with here | later
      · cases here
        exact ⟨[], rest, rfl, rfl⟩
      · obtain ⟨left, right, rfl, rfl⟩ := inductionHypothesis later
        exact ⟨first :: left, right, rfl, by rw [byteLength, Nat.add_assoc]⟩
  · rintro ⟨left, right, rfl, rfl⟩
    induction left generalizing offset with
    | nil => exact List.mem_cons_self
    | cons first left inductionHypothesis =>
      rw [List.cons_append, charsFrom, byteLength, ← Nat.add_assoc]
      exact List.mem_cons_of_mem _ inductionHypothesis

theorem mem_charsFrom_zero_iff : (place, char) ∈ charsFrom 0 text ↔ StandsAt text char place := by
  rw [mem_charsFrom_iff, StandsAt]
  simp only [Nat.zero_add, eq_comm]

/-- Characters come with growing offsets. -/
theorem pairwise_charsFrom (offset : Nat) (text : List Char) :
    (charsFrom offset text).Pairwise fun first second => first.1 < second.1 := by
  induction text generalizing offset with
  | nil => exact List.Pairwise.nil
  | cons first rest inductionHypothesis =>
    rw [charsFrom, List.pairwise_cons]
    refine ⟨fun entry member => ?_, inductionHypothesis _⟩
    obtain ⟨later, char⟩ := entry
    obtain ⟨left, right, -, place⟩ := mem_charsFrom_iff.mp member
    have positive : 0 < first.utf8Size := Char.utf8Size_pos first
    show offset < later
    omega

theorem StandsAt.isBoundary (stands : StandsAt text char offset) :
    isBoundary text offset = true := by
  obtain ⟨left, right, rfl, rfl⟩ := stands
  exact isBoundary_byteLength_append left (char :: right)

theorem StandsAt.isBoundary_behind (stands : StandsAt text char offset) :
    Text.isBoundary text (offset + char.utf8Size) = true := by
  obtain ⟨left, right, rfl, rfl⟩ := stands
  have behind : byteLength left + char.utf8Size = byteLength (left ++ [char]) := by
    rw [byteLength_append, byteLength, byteLength, Nat.add_zero]
  rw [behind, List.append_cons]
  exact isBoundary_byteLength_append (left ++ [char]) right

/-- Up to the last entry of a kind. -/
theorem exists_upToLast (entries : List (Nat × Char)) (kind : Char) :
    let closed := (entries.reverse.dropWhile (·.2 != kind)).reverse
    (∃ behind, entries = closed ++ behind ∧ ∀ entry ∈ behind, entry.2 ≠ kind) ∧
      ∀ last, closed.getLast? = some last → last.2 = kind := by
  refine ⟨⟨(entries.reverse.takeWhile (·.2 != kind)).reverse, ?_, ?_⟩, fun last found => ?_⟩
  · rw [← List.reverse_append, List.takeWhile_append_dropWhile, List.reverse_reverse]
  · intro entry member
    simpa using List.mem_takeWhile_imp (List.mem_reverse.mp member)
  · have head := List.head?_dropWhile_not (·.2 != kind) entries.reverse
    rw [List.getLast?_reverse] at found
    rw [found] at head
    simpa using head

/-- From the first entry of a kind on. -/
theorem exists_of_dropWhile_eq_cons {entries rest : List (Nat × Char)} {first : Nat × Char}
    (found : entries.dropWhile (·.2 != kind) = first :: rest) :
    ∃ front, entries = front ++ first :: rest ∧ (∀ entry ∈ front, entry.2 ≠ kind) ∧
      first.2 = kind := by
  have head := List.head?_dropWhile_not (·.2 != kind) entries
  rw [found] at head
  refine ⟨entries.takeWhile (·.2 != kind), ?_, fun entry member => ?_, by simpa using head⟩
  · rw [← found, List.takeWhile_append_dropWhile]
  · simpa using List.mem_takeWhile_imp member

end Text

/-! ### The braces of a span -/

namespace Span

/-- Whether a character of a text stands at an offset inside of a span. -/
structure Has (content : List Char) (span : Span) (char : Char) (offset : Nat) : Prop where
  stands : Text.StandsAt content char offset
  start : span.start ≤ offset
  stop : offset < span.stop

/-- Whether a character stands at an offset inside of a span and nowhere before it. -/
structure HasFirst (content : List Char) (span : Span) (char : Char) (offset : Nat) : Prop
    extends Has content span char offset where
  first : ∀ other, Has content span char other → offset ≤ other

/-- Whether a character stands at an offset inside of a span and nowhere behind it. -/
structure HasLast (content : List Char) (span : Span) (char : Char) (offset : Nat) : Prop
    extends Has content span char offset where
  last : ∀ other, Has content span char other → other ≤ offset

/-- The range between the braces of a span. -/
inductive HasBody (content : List Char) (span : Span) : Span → Prop where
  | between {opening closing : Nat} (first : HasFirst content span '\x7b' opening)
      (last : HasLast content span '\x7d' closing) (ordered : opening < closing) :
      HasBody content span ⟨opening + 1, closing⟩
  | behind {closing : Nat} (last : HasLast content span '\x7d' closing)
      (none : ∀ opening, Has content span '\x7b' opening → closing < opening) :
      HasBody content span ⟨closing + 1, closing + 1⟩
  | empty (none : ∀ closing, ¬ Has content span '\x7d' closing) :
      HasBody content span ⟨span.start, span.start⟩

variable {content : List Char} {span inner : Span}

theorem HasBody.within (body : HasBody content span inner) (ordered : span.start ≤ span.stop) :
    span.start ≤ inner.start ∧ inner.start ≤ inner.stop ∧ inner.stop ≤ span.stop := by
  cases body with
  | between first last before =>
    exact ⟨Nat.le_succ_of_le first.start, before, Nat.le_of_lt last.stop⟩
  | behind last => exact ⟨Nat.le_succ_of_le last.start, Nat.le_refl _, last.stop⟩
  | empty => exact ⟨Nat.le_refl _, Nat.le_refl _, ordered⟩

/-- Only an empty range at the start of the span can be inside a character. -/
theorem HasBody.fits (body : HasBody content span inner)
    (boundary : Text.isBoundary content span.start = true) : inner.Fits content := by
  cases body with
  | between first last before =>
    exact ⟨before, first.stands.isBoundary_behind, last.stands.isBoundary⟩
  | behind last =>
    exact ⟨Nat.le_refl _, last.stands.isBoundary_behind, last.stands.isBoundary_behind⟩
  | empty => exact ⟨Nat.le_refl _, boundary, boundary⟩

end Span

/-! ### Looking for the braces -/

section

variable {content : List Char} {span : Span}

/-- Whether entries are the characters that start inside of a span, in their order. -/
structure Span.Lists (content : List Char) (span : Span) (entries : List (Nat × Char)) : Prop where
  mem_iff : ∀ {char offset}, (offset, char) ∈ entries ↔ span.Has content char offset
  growing : entries.Pairwise (·.1 < ·.1)

namespace Span.Lists

theorem charsInside (content : List Char) (span : Span) :
    span.Lists content ((Text.charsFrom 0 content).filter fun entry =>
      span.start ≤ entry.1 && entry.1 < span.stop) where
  mem_iff := by
    intro char offset
    rw [List.mem_filter, Text.mem_charsFrom_zero_iff]
    simp only [Bool.and_eq_true, decide_eq_true_eq]
    exact ⟨fun ⟨stands, start, stop⟩ => ⟨stands, start, stop⟩,
      fun has => ⟨has.stands, has.start, has.stop⟩⟩
  growing := (Text.pairwise_charsFrom 0 content).filter _

variable {front behind : List (Nat × Char)} {char : Char} {first last : Nat}

theorem hasFirst (lists : span.Lists content (front ++ (first, char) :: behind))
    (none : ∀ entry ∈ front, entry.2 ≠ char) : span.HasFirst content char first := by
  refine ⟨lists.mem_iff.mp List.mem_append_cons_self, fun other has => ?_⟩
  obtain ⟨-, growingRest, -⟩ := List.pairwise_append.mp lists.growing
  rcases List.mem_append.mp (lists.mem_iff.mpr has) with earlier | rest
  · exact absurd rfl (none _ earlier)
  rcases List.mem_cons.mp rest with here | later
  · cases here
    exact Nat.le_refl _
  · exact Nat.le_of_lt ((List.pairwise_cons.mp growingRest).1 _ later)

theorem hasLast (lists : span.Lists content (front ++ (last, char) :: behind))
    (none : ∀ entry ∈ behind, entry.2 ≠ char) : span.HasLast content char last := by
  refine ⟨lists.mem_iff.mp List.mem_append_cons_self, fun other has => ?_⟩
  obtain ⟨-, -, inFront⟩ := List.pairwise_append.mp lists.growing
  rcases List.mem_append.mp (lists.mem_iff.mpr has) with earlier | rest
  · exact Nat.le_of_lt (inFront _ earlier _ List.mem_cons_self)
  rcases List.mem_cons.mp rest with here | later
  · cases here
    exact Nat.le_refl _
  · exact absurd rfl (none _ later)

end Span.Lists

/-- In a span that is not reversed and not behind the end, the range between the braces is
found. -/
theorem exists_hasBody (ordered : span.start ≤ span.stop)
    (inBounds : span.stop ≤ Text.byteLength content) :
    ∃ inner, bodySpan content span = .ok inner ∧ span.HasBody content inner := by
  have keeps : ¬ (decide (span.stop < span.start) ||
      decide (Text.byteLength content < span.stop)) = true := by
    simp only [Bool.or_eq_true, decide_eq_true_eq]
    omega
  rw [bodySpan, if_neg keeps]
  dsimp only
  have lists := Span.Lists.charsInside content span
  generalize (Text.charsFrom 0 content).filter _ = entries at lists ⊢
  obtain ⟨⟨behind, split, noneBehind⟩, lastKind⟩ := Text.exists_upToLast entries '\x7d'
  generalize (entries.reverse.dropWhile (·.2 != '\x7d')).reverse = closed at split lastKind ⊢
  subst split
  rcases List.eq_nil_or_concat' closed with rfl | ⟨front, ⟨closing, kind⟩, rfl⟩
  · refine ⟨⟨span.start, span.start⟩, if_neg (by simp), .empty fun closing has => ?_⟩
    exact noneBehind _ (lists.mem_iff.mpr has) rfl
  obtain rfl : kind = '\x7d' := lastKind _ List.getLast?_concat
  rw [List.getLast?_concat]
  dsimp only
  rw [← List.append_cons] at lists
  have last := lists.hasLast noneBehind
  split
  case h_1 opening brace rest found =>
    obtain ⟨start, same, noneBefore, rfl⟩ := Text.exists_of_dropWhile_eq_cons found
    -- Another brace than the last one stands in front of it.
    have earlier : opening < closing := by
      have listed : (opening, '\x7b') ∈ front ++ [(closing, '\x7d')] := by
        rw [same]
        exact List.mem_append_cons_self
      exact (List.pairwise_append.mp lists.growing).2.2 _ (by simpa using listed) _
        List.mem_cons_self
    have first : span.HasFirst content '\x7b' opening := by
      rw [List.append_cons, same, List.append_assoc, List.cons_append] at lists
      exact lists.hasFirst noneBefore
    exact ⟨⟨opening + 1, closing⟩, if_pos (Nat.succ_lt_succ earlier), .between first last earlier⟩
  case h_2 found =>
    refine ⟨⟨closing + 1, closing + 1⟩, if_neg (Nat.not_lt.mpr (Nat.le_succ _)), .behind last ?_⟩
    intro opening has
    rw [List.append_cons] at lists
    rcases List.mem_append.mp (lists.mem_iff.mpr has) with inside | later
    · simpa using List.dropWhile_eq_nil_iff.mp found _ inside
    · exact (List.pairwise_append.mp lists.growing).2.2 _ List.mem_concat_self _ later

/-! ### What the range between the braces holds -/

/-- Of white space nothing is left in an excerpt. -/
theorem Excerpt.ofSpan_of_allBlank {slice : List Char}
    (found : Text.slice? content span = some slice) (blank : Text.allBlank slice = true) :
    ofSpan content span = .ok ⟨[], ⟨span.start, span.start⟩⟩ := by
  rw [ofSpan, found]
  dsimp only
  rw [Text.normalize_of_allBlank blank, trimmedSpan, (Text.trims_of_allBlank blank).trimEnd_eq]
  rfl

/-- Whether some opening brace of a span stands before some closing brace of it. -/
def Span.HasPair (content : List Char) (span : Span) : Prop :=
  ∃ opening closing, span.Has content '\x7b' opening ∧ span.Has content '\x7d' closing ∧
    opening < closing

/-- The second span is what stands between the braces of the first one. -/
structure Span.DelimitsBody (content : List Char) (span inner : Span) : Prop where
  between : span.HasPair content → ∃ first last, span.HasFirst content '\x7b' first ∧
    span.HasLast content '\x7d' last ∧ inner = ⟨first + 1, last⟩
  /-- Without a pair of braces the range is empty. -/
  empty : ¬ span.HasPair content →
    (∃ last, span.HasLast content '\x7d' last ∧ inner = ⟨last + 1, last + 1⟩) ∨
      (∀ closing, ¬ span.Has content '\x7d' closing) ∧ inner = ⟨span.start, span.start⟩
  within : span.start ≤ inner.start ∧ inner.start ≤ inner.stop ∧ inner.stop ≤ span.stop
  /-- This does not hang on the end of the span. -/
  fits : Text.isBoundary content span.start = true → inner.Fits content
  blank : ∀ slice, Text.slice? content inner = some slice → Text.allBlank slice = true →
    Excerpt.ofSpan content inner = .ok ⟨[], ⟨inner.start, inner.start⟩⟩

theorem Span.HasBody.delimitsBody {inner : Span} (body : span.HasBody content inner)
    (ordered : span.start ≤ span.stop) : span.DelimitsBody content inner where
  between := by
    rintro ⟨opening, closing, openingHas, closingHas, before⟩
    cases body with
    | between first last => exact ⟨_, _, first, last, rfl⟩
    | behind last noneBefore =>
      have later := noneBefore opening openingHas
      have farther := last.last closing closingHas
      omega
    | empty none => exact absurd closingHas (none closing)
  empty unpaired := by
    cases body with
    | between first last before => exact absurd ⟨_, _, first.toHas, last.toHas, before⟩ unpaired
    | behind last => exact .inl ⟨_, last, rfl⟩
    | empty none => exact .inr ⟨none, rfl⟩
  within := body.within ordered
  fits := body.fits
  blank _ found blank := Excerpt.ofSpan_of_allBlank found blank

/-- The range between the braces is found in every span that is not reversed and not behind the
end, and in no other. -/
theorem bodySpan_delimitsBody (content : List Char) (span : Span) :
    (∀ error, bodySpan content span = .error error ↔
      (span.stop < span.start ∨ Text.byteLength content < span.stop) ∧
        error = .ofSpan content span) ∧
    ∀ inner, bodySpan content span = .ok inner → span.DelimitsBody content inner := by
  by_cases outside : span.stop < span.start ∨ Text.byteLength content < span.stop
  · have refused : bodySpan content span = .error (.ofSpan content span) :=
      if_pos (by simpa using outside)
    refine ⟨fun error => ?_, fun inner found => ?_⟩
    · rw [refused, and_iff_right outside, Except.error.injEq, eq_comm]
    · rw [refused] at found
      cases found
  · rw [not_or, Nat.not_lt, Nat.not_lt] at outside
    obtain ⟨body, found, has⟩ := exists_hasBody outside.1 outside.2
    refine ⟨fun error => ?_, fun inner same => ?_⟩
    · rw [found]
      refine iff_of_false nofun fun ⟨outOfBounds, _⟩ => ?_
      omega
    · rw [found] at same
      cases same
      exact has.delimitsBody outside.1

end

end SourceCapture
