/-
Whole numbers in source text: a prefix for the radix, digits with underscores between them, and a
suffix for the type. Whatever prefix and suffix it has, a number is read as the number that it
writes, unless that takes more than 64 bits.
-/

import SourceCapture.Proofs.Literals.Digits
import SourceCapture.Proofs.Text.Trimming

namespace SourceCapture.Literal

open Number (Writes)

/-- The prefixes of numbers with their radix. -/
def radixPrefixes : List (List Char × Nat) :=
  [([], 10), (['0', 'x'], 16), (['0', 'X'], 16), (['0', 'b'], 2), (['0', 'B'], 2)]

/-- The suffixes of numbers. -/
def typeSuffixes : List (List Char) := [[], ['L'], ['u'], ['U'], ['u', 'L'], ['U', 'L']]

/-- Whether a text writes a number. -/
inductive WritesInt : List Char → Nat → Prop where
  | intro {front body back digits : List Char} {radix number : Nat}
    (lead : (front, radix) ∈ radixPrefixes) (tail : back ∈ typeSuffixes)
    (without : body.filter (· ≠ '_') = digits) (nonempty : digits ≠ [])
    (writes : Writes radix digits number) : WritesInt (front ++ (body ++ back)) number

variable {front digits back written : List Char} {radix number : Nat}

theorem radix_le (lead : (front, radix) ∈ radixPrefixes) : radix ≤ 16 := by
  have all : ∀ entry ∈ radixPrefixes, entry.2 ≤ 16 := by decide
  exact all _ lead

theorem filter_underscore_of_lead (lead : (front, radix) ∈ radixPrefixes) :
    front.filter (· ≠ '_') = front := by
  have all : ∀ entry ∈ radixPrefixes, entry.1.filter (· ≠ '_') = entry.1 := by decide
  exact all _ lead

theorem filter_underscore_of_tail (tail : back ∈ typeSuffixes) :
    back.filter (· ≠ '_') = back := by
  have all : ∀ back ∈ typeSuffixes, back.filter (· ≠ '_') = back := by decide
  exact all _ tail

/-- A suffix is taken off, and nothing else is. -/
theorem dropEndWhile_tail (small : radix ≤ 16) (writes : Writes radix digits number)
    (nonempty : digits ≠ []) (tail : back ∈ typeSuffixes) :
    Text.dropEndWhile isSuffix (front ++ (digits ++ back)) = front ++ digits := by
  obtain ⟨others, last, rfl⟩ := (List.eq_nil_or_concat' digits).resolve_left nonempty
  have stays : isSuffix last = false := by
    have other := writes.holds (fun char => !isSuffix char) (by decide) small last
      List.mem_concat_self
    simpa using other
  have dropped : ∀ back ∈ typeSuffixes, Text.dropEndWhile isSuffix back = [] := by decide
  rw [List.append_assoc, List.singleton_append, ← List.append_assoc,
    Text.dropEndWhile_append_cons stays, dropped back tail, List.append_assoc]

/-- Digits behind a prefix are read in the radix of the prefix. -/
theorem match_lead (lead : (front, radix) ∈ radixPrefixes) (writes : Writes radix digits number) :
    (match front ++ digits with
      | '0' :: 'x' :: digits | '0' :: 'X' :: digits => Number.readSigned? 16 digits
      | '0' :: 'b' :: digits | '0' :: 'B' :: digits => Number.readSigned? 2 digits
      | digits => Number.readSigned? 10 digits) = Number.readSigned? radix digits := by
  simp only [radixPrefixes, List.mem_cons, Prod.mk.injEq, List.not_mem_nil, or_false] at lead
  rcases lead with ⟨rfl, rfl⟩ | ⟨rfl, rfl⟩ | ⟨rfl, rfl⟩ | ⟨rfl, rfl⟩ | ⟨rfl, rfl⟩
  · -- No letter of a prefix is a decimal digit.
    have decimal : ∀ char ∈ ['x', 'X', 'b', 'B'], char ∉ digits := by
      have unknown : ['x', 'X', 'b', 'B'].all (Number.digitValue? 10 · = none) := by decide
      exact fun char member =>
        writes.not_mem (by decide) (of_decide_eq_true (List.all_eq_true.1 unknown char member))
    rw [List.nil_append]
    split
    case h_5 => rfl
    all_goals exact absurd (List.mem_cons_of_mem _ List.mem_cons_self) (decimal _ (by decide))
  all_goals rfl

/-- A number is read as the number that it writes, if that has 64 bits. -/
theorem readInt?_of_writesInt (writes : WritesInt written number) :
    readInt? written = if number < Number.signedEnd then some (number : Int) else none := by
  obtain ⟨lead, tail, without, nonempty, digits⟩ := writes
  rw [readInt?, List.filter_append, List.filter_append, without, filter_underscore_of_lead lead,
    filter_underscore_of_tail tail, dropEndWhile_tail (radix_le lead) digits nonempty tail]
  exact (match_lead lead digits).trans (digits.readSigned? (radix_le lead) nonempty)

/-- No number has white space. -/
theorem WritesInt.isTight (writes : WritesInt written number) : Text.IsTight written := by
  obtain @⟨front, body, back, digits, radix, number, lead, tail, without, -, writes⟩ := writes
  have inLead : ∀ entry ∈ radixPrefixes, entry.1.all (!Text.isBlank ·) := by decide
  have inTail : ∀ back ∈ typeSuffixes, back.all (!Text.isBlank ·) := by decide
  have inBody : body.all (!Text.isBlank ·) := by
    refine List.all_eq_true.2 fun char member => ?_
    by_cases digit : char = '_'
    · rw [digit]
      decide
    · have kept : char ∈ digits := by
        rw [← without, List.mem_filter]
        exact ⟨member, decide_eq_true digit⟩
      exact writes.holds (!Text.isBlank ·) (by decide) (radix_le lead) char kept
  have solid : (front ++ (body ++ back)).all (!Text.isBlank ·) := by
    rw [List.all_append, List.all_append, inLead _ lead, inBody, inTail _ tail]
    rfl
  exact Text.isTight_of_solid fun char member => by simpa using List.all_eq_true.1 solid char member

end SourceCapture.Literal
