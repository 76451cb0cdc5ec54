/-
Characters as they are written between quotes: as they are, behind a backslash, or by their code.
Escapes are replaced piece by piece. A code that is cut into two pieces leaves the digits of the
second piece as characters of their own, so what comes out is longer than what was written unless
every cut is between two characters. That decides which ways to cut a text keep its value.
-/

import Mathlib.Data.List.Basic
import SourceCapture.Proofs.Literals.Digits

namespace SourceCapture

/-! ### Ways to write a character -/

/-- A character as it is written. One past the first plane has two codes, its surrogates. -/
inductive SpelledChar where
  | itself (char : Char)
  | escape (letter char : Char)
  | code (char : Char) (digits : List Char)
  | pair (char : Char) (high low : List Char)

namespace SpelledChar

/-- The letters of escapes with the characters that they stand for. -/
def letters : List (Char × Char) := [('t', '\t'), ('b', '\x08'), ('n', '\n'), ('r', '\r'),
  ('\'', '\''), ('"', '"'), ('\\', '\\'), ('$', '$')]

/-- The character that is written. -/
def char : SpelledChar → Char
  | itself char => char
  | escape _ char => char
  | code char _ => char
  | pair char _ _ => char

/-- The escape with these digits. -/
def codeText (digits : List Char) : List Char := '\\' :: 'u' :: digits

/-- The single characters and escapes that are written. -/
def units : SpelledChar → List (List Char)
  | itself char => [[char]]
  | escape letter _ => [['\\', letter]]
  | code _ digits => [codeText digits]
  | pair _ high low => [codeText high, codeText low]

def text (spelled : SpelledChar) : List Char := spelled.units.flatten

/-- Whether two escapes are written for the character. -/
def isPair : SpelledChar → Bool
  | pair _ _ _ => true
  | _ => false

/-- Whether digits write the code. -/
structure IsCode (digits : List Char) (code : Nat) : Prop where
  four : digits.length = 4
  writes : Number.Writes 16 digits code

/-- Whether a character may be written this way in front of the closing quote. -/
def IsValid (closing : Char) : SpelledChar → Prop
  | itself char => char ∉ [closing, '\\', '\n', '\r']
  | escape letter char => (letter, char) ∈ letters
  | code char digits => IsCode digits char.toNat
  | pair char high low =>
    0x10000 ≤ char.toNat ∧ IsCode high (0xD800 + (char.toNat - 0x10000) / 0x400) ∧
      IsCode low (0xDC00 + (char.toNat - 0x10000) % 0x400)

end SpelledChar

/-- Whether a text is a single character or an escape. -/
inductive Literal.IsUnit : List Char → Prop where
  | plain {char : Char} (other : char ≠ '\\') : IsUnit [char]
  | escape {letter : Char} (other : letter ≠ 'u') : IsUnit ['\\', letter]
  | code {digits : List Char} (all : digits.length = codeDigits)
    (plain : ∀ char ∈ digits, char ≠ '\\') : IsUnit (SpelledChar.codeText digits)

/-- Whether a text of such texts is cut into pieces between them only. -/
def Literal.CutBetween (units pieces : List (List Char)) : Prop :=
  ∃ groups : List (List (List Char)), groups.flatten = units ∧ groups.map List.flatten = pieces

namespace SpelledChar

variable {spelled : SpelledChar} {closing : Char}

theorem escaped_eq : ∀ entry ∈ letters, Literal.escaped entry.1 = entry.2 ∧ entry.1 ≠ 'u' := by
  decide

theorem IsCode.isUnit {digits : List Char} {code : Nat} (isCode : IsCode digits code) :
    Literal.IsUnit (codeText digits) :=
  .code isCode.four fun char member => of_decide_eq_true <|
    isCode.writes.holds (· ≠ '\\') (by decide) (by decide) char member

theorem isUnit_of_mem (valid : spelled.IsValid closing) :
    ∀ unit ∈ spelled.units, Literal.IsUnit unit := by
  cases spelled with
  | itself char =>
    rw [units, List.forall_mem_singleton]
    exact .plain fun same => valid (by simp [same])
  | escape letter char =>
    rw [units, List.forall_mem_singleton]
    exact .escape (escaped_eq _ valid).2
  | code char digits =>
    rw [units, List.forall_mem_singleton]
    exact valid.isUnit
  | pair char high low =>
    rw [units, List.forall_mem_cons, List.forall_mem_singleton]
    exact ⟨valid.2.1.isUnit, valid.2.2.isUnit⟩

end SpelledChar

namespace Literal

/-! ### Replacing escapes -/

theorem IsUnit.nonempty {unit : List Char} (isUnit : IsUnit unit) : unit ≠ [] := by
  cases isUnit <;> exact List.cons_ne_nil _ _

variable {char letter : Char} {unit piece left rest out : List Char}
  {units pieces outs : List (List Char)}

theorem unescape?_plain (other : char ≠ '\\') :
    unescape? (char :: rest) = (unescape? rest).map (char :: ·) := by
  rw [unescape?]
  all_goals
    intros
    exact other ‹_›

theorem unescape?_escape (other : letter ≠ 'u') :
    unescape? ('\\' :: letter :: rest) = (unescape? rest).map (escaped letter :: ·) := by
  rw [unescape?]
  exact other

theorem unescape?_code (digits : List Char) :
    unescape? (SpelledChar.codeText digits) =
      (readCode? (digits.take codeDigits)).bind fun char =>
        (unescape? (digits.drop codeDigits)).map (char :: ·) := by
  rw [SpelledChar.codeText, unescape?]
  cases readCode? (digits.take codeDigits) <;> rfl

/-- A single character or an escape gives one character, if any, whatever follows. -/
theorem IsUnit.exists_unescape? (isUnit : IsUnit unit) : ∃ char? : Option Char, ∀ rest,
    unescape? (unit ++ rest) = char?.bind fun char => (unescape? rest).map (char :: ·) := by
  cases isUnit with
  | @plain char other => exact ⟨some char, fun rest => unescape?_plain other⟩
  | @escape letter other => exact ⟨some (escaped letter), fun rest => unescape?_escape other⟩
  | @code digits all plain =>
    refine ⟨readCode? digits, fun rest => ?_⟩
    have same : SpelledChar.codeText digits ++ rest = SpelledChar.codeText (digits ++ rest) := rfl
    rw [same, unescape?_code, List.take_left' all, List.drop_left' all]

/-! ### Replacing escapes piece by piece -/

/-- Where the part of an escape in front of a cut has a value, it is one character, and the
characters behind the cut stand for themselves. -/
theorem IsUnit.length_of_cut (isUnit : IsUnit (piece ++ left)) (nonempty : piece ≠ [])
    (read : unescape? piece = some out) : out.length = 1 ∧ ∀ char ∈ left, char ≠ '\\' := by
  generalize whole : piece ++ left = unit at isUnit
  obtain ⟨first, others, rfl⟩ := List.exists_cons_of_ne_nil nonempty
  cases isUnit with
  | @plain char other =>
    obtain ⟨rfl, nothing⟩ := List.cons.inj whole
    obtain ⟨rfl, rfl⟩ := List.append_eq_nil_iff.mp nothing
    rw [unescape?_plain other, unescape?] at read
    cases read
    exact ⟨rfl, List.forall_mem_nil _⟩
  | @escape letter other =>
    obtain ⟨rfl, behind⟩ := List.cons.inj whole
    cases others with
    | nil =>
      rw [unescape?] at read
      cases read
    | cons second others =>
      obtain ⟨rfl, nothing⟩ := List.cons.inj behind
      obtain ⟨rfl, rfl⟩ := List.append_eq_nil_iff.mp nothing
      rw [unescape?_escape other, unescape?] at read
      cases read
      exact ⟨rfl, List.forall_mem_nil _⟩
  | @code digits all plain =>
    obtain ⟨rfl, behind⟩ := List.cons.inj whole
    cases others with
    | nil =>
      rw [unescape?] at read
      cases read
    | cons second others =>
      obtain ⟨rfl, same⟩ := List.cons.inj behind
      subst same
      have short : others.length ≤ codeDigits :=
        Nat.le_trans (List.sublist_append_left others left).length_le (Nat.le_of_eq all)
      have read : unescape? (SpelledChar.codeText others) = some out := read
      rw [unescape?_code, List.drop_eq_nil_of_le short, unescape?] at read
      obtain ⟨char, -, same⟩ := Option.bind_eq_some_iff.mp read
      cases same
      exact ⟨rfl, fun char member => plain char (List.mem_append_right _ member)⟩

/-- A piece of a text has as many characters as the single characters and escapes in it. The last of
those may have been cut, and what is left of it stands for itself then. -/
theorem exists_front (isUnits : ∀ unit ∈ units, IsUnit unit) (split : piece ++ rest = units.flatten)
    (read : unescape? piece = some out) :
    ∃ front back left, units = front ++ back ∧ front.flatten = piece ++ left ∧
      front.length = out.length ∧ ∀ char ∈ left, char ≠ '\\' := by
  induction units generalizing piece out with
  | nil =>
    obtain ⟨rfl, -⟩ := List.append_eq_nil_iff.mp split
    rw [unescape?] at read
    cases read
    exact ⟨[], [], [], rfl, rfl, rfl, List.forall_mem_nil _⟩
  | cons unit units inductionHypothesis =>
    rw [List.forall_mem_cons] at isUnits
    rw [List.flatten_cons] at split
    rcases List.append_eq_append_iff.mp split with ⟨left, rfl, -⟩ | ⟨more, rfl, others⟩
    · by_cases empty : piece = []
      · subst empty
        rw [unescape?] at read
        cases read
        exact ⟨[], left :: units, [], rfl, rfl, rfl, List.forall_mem_nil _⟩
      · obtain ⟨single, plain⟩ := isUnits.1.length_of_cut empty read
        exact ⟨[piece ++ left], units, left, rfl, by simp, single.symm, plain⟩
    · obtain ⟨char?, gives⟩ := isUnits.1.exists_unescape?
      rw [gives] at read
      obtain ⟨char, -, readBoth⟩ := Option.bind_eq_some_iff.mp read
      obtain ⟨outMore, readMore, rfl⟩ := Option.map_eq_some_iff.mp readBoth
      obtain ⟨front, back, left, rfl, same, length, plain⟩ :=
        inductionHypothesis isUnits.2 others.symm readMore
      refine ⟨unit :: front, back, left, rfl, ?_, congrArg (· + 1) length, plain⟩
      rw [List.flatten_cons, same, List.append_assoc]

/-- The pieces of a text have at least as many characters as there are single characters and escapes
in it. They only have as many if no escape is cut. -/
theorem length_le_of_mapM_unescape? (isUnits : ∀ unit ∈ units, IsUnit unit)
    (same : pieces.flatten = units.flatten) (read : pieces.mapM unescape? = some outs) :
    units.length ≤ outs.flatten.length ∧
      (units.length = outs.flatten.length → CutBetween units pieces) := by
  induction pieces generalizing units outs with
  | nil =>
    cases units with
    | nil =>
      cases read
      exact ⟨Nat.le_refl 0, fun _ => ⟨[], rfl, rfl⟩⟩
    | cons unit units =>
      rw [List.forall_mem_cons] at isUnits
      exact absurd (List.append_eq_nil_iff.mp same.symm).1 isUnits.1.nonempty
  | cons piece pieces inductionHypothesis =>
    rw [List.mapM_cons] at read
    obtain ⟨out, readFirst, readRest⟩ := Option.bind_eq_some_iff.mp read
    obtain ⟨others, readOthers, collected⟩ := Option.bind_eq_some_iff.mp readRest
    cases collected
    obtain ⟨front, back, left, rfl, cut, length, plain⟩ := exists_front isUnits same readFirst
    -- What is left of the last escape in the piece is read as characters of its own.
    have rest : pieces.flatten = (left.map ([·]) ++ back).flatten := by
      rw [List.flatten_append, cut, List.flatten_cons, List.append_assoc,
        List.append_cancel_left_eq] at same
      rw [same, List.flatten_append, ← List.flatMap_def, List.flatMap_singleton']
    have restUnits : ∀ unit ∈ left.map ([·]) ++ back, IsUnit unit := by
      rw [List.forall_mem_append, List.forall_mem_map]
      exact ⟨fun char member => .plain (plain char member),
        fun unit member => isUnits unit (List.mem_append_right _ member)⟩
    obtain ⟨least, whole⟩ := inductionHypothesis restUnits rest readOthers
    rw [List.length_append, List.length_map] at least whole
    rw [List.length_append, List.flatten_cons, List.length_append, length]
    refine ⟨by omega, fun equal => ?_⟩
    have nothing : left = [] := List.eq_nil_of_length_eq_zero (by omega)
    subst nothing
    obtain ⟨groups, rfl, rfl⟩ := whole (by simpa using equal)
    rw [List.append_nil] at cut
    exact ⟨front :: groups, rfl, by rw [List.map_cons, cut]⟩

/-- Single characters are cut nowhere else than between them. -/
theorem cutBetween_singletons (pieces : List (List Char)) :
    CutBetween (pieces.flatten.map ([·])) pieces := by
  refine ⟨pieces.map (List.map ([·])), List.map_flatten.symm, ?_⟩
  rw [List.map_map]
  refine List.map_id'' (fun piece => ?_) pieces
  rw [Function.comp_apply, ← List.flatMap_def, List.flatMap_singleton']

end Literal

/-! ### The value of a text -/

namespace SpelledChar

variable {closing : Char} {spelled : SpelledChar} {chars : List SpelledChar}
  {pieces : List (List Char)}

theorem text_of_single (single : spelled.isPair = false) : spelled.units = [spelled.text] := by
  cases spelled with
  | pair => cases single
  | _ => rw [text, units, List.flatten_singleton]

theorem units_eq_map (single : ∀ spelled ∈ chars, spelled.isPair = false) :
    chars.flatMap units = chars.map text := by
  rw [List.map_eq_flatMap]
  exact List.flatMap_congr fun spelled member => text_of_single (single spelled member)

theorem flatten_units (chars : List SpelledChar) :
    (chars.flatMap units).flatten = chars.flatMap text := by
  induction chars with
  | nil => rfl
  | cons spelled chars inductionHypothesis =>
    rw [List.flatMap_cons, List.flatten_append, inductionHypothesis]
    rfl

/-- Only a pair is more than one escape. -/
theorem length_le_length_units (chars : List SpelledChar) :
    chars.length ≤ (chars.flatMap units).length ∧
      ((chars.flatMap units).length = chars.length →
        ∀ spelled ∈ chars, spelled.isPair = false) := by
  induction chars with
  | nil => exact ⟨Nat.le_refl 0, fun _ => List.forall_mem_nil _⟩
  | cons spelled chars inductionHypothesis =>
    obtain ⟨least, single⟩ := inductionHypothesis
    rw [List.flatMap_cons, List.length_append, List.length_cons, List.forall_mem_cons]
    cases paired : spelled.isPair with
    | false =>
      rw [text_of_single paired, List.length_singleton]
      exact ⟨by omega, fun same => ⟨rfl, single (by omega)⟩⟩
    | true =>
      have two : spelled.units.length = 2 := by
        cases spelled <;> first | rfl | cases paired
      exact ⟨by omega, fun same => by omega⟩

/-- What is written for a character does not start with the closing quote. -/
theorem exists_text_cons (valid : spelled.IsValid closing) (other : closing ≠ '\\') :
    ∃ first rest, spelled.text = first :: rest ∧ first ≠ closing := by
  cases spelled with
  | itself char => exact ⟨char, [], rfl, fun same => valid (by simp [same])⟩
  | escape letter char => exact ⟨'\\', [letter], rfl, other.symm⟩
  | code char digits => exact ⟨'\\', 'u' :: (digits ++ []), rfl, other.symm⟩
  | pair char high low => exact ⟨'\\', 'u' :: (high ++ (codeText low ++ [])), rfl, other.symm⟩

theorem IsCode.exists_append_cons {digits : List Char} {code : Nat} (isCode : IsCode digits code) :
    ∃ front last, codeText digits = front ++ [last] ∧ last ≠ '\'' := by
  obtain ⟨front, last, same⟩ := (List.eq_nil_or_concat' digits).resolve_left fun nothing => by
    have four := isCode.four
    rw [nothing] at four
    cases four
  subst same
  refine ⟨'\\' :: 'u' :: front, last, rfl, of_decide_eq_true ?_⟩
  exact isCode.writes.holds (· ≠ '\'') (by decide) (by decide) last List.mem_concat_self

/-- What is written for a character between single quotes ends with one only as an escape. -/
theorem exists_text_append (valid : spelled.IsValid '\'') (bare : spelled.text ≠ ['\\', '\'']) :
    ∃ front last, spelled.text = front ++ [last] ∧ last ≠ '\'' := by
  cases spelled with
  | itself char => exact ⟨[], char, rfl, fun same => valid (by simp [same])⟩
  | escape letter char => exact ⟨['\\'], letter, rfl, fun same => bare (same ▸ rfl)⟩
  | code char digits =>
    obtain ⟨front, last, same, other⟩ := valid.exists_append_cons
    exact ⟨front, last, (List.append_nil _).trans same, other⟩
  | pair char high low =>
    obtain ⟨front, last, same, other⟩ := valid.2.2.exists_append_cons
    refine ⟨codeText high ++ front, last, ?_, other⟩
    rw [text, units, List.flatten_cons, List.flatten_singleton, same, List.append_assoc]

theorem unescape?_text (valid : spelled.IsValid closing) (single : spelled.isPair = false)
    (rest : List Char) : Literal.unescape? (spelled.text ++ rest) =
      (Literal.unescape? rest).map (spelled.char :: ·) := by
  cases spelled with
  | itself char => exact Literal.unescape?_plain fun same => valid (by simp [same])
  | escape letter char =>
    have stands : Literal.escaped letter = char := (escaped_eq _ valid).1
    subst stands
    exact Literal.unescape?_escape (escaped_eq _ valid).2
  | code char digits =>
    have all : digits.length = Literal.codeDigits := valid.four
    have read := Literal.readCode?_of_writes (by rintro rfl; cases all) valid.writes
    have same : (code char digits).text ++ rest = codeText (digits ++ rest) := by
      rw [text, units, List.flatten_singleton]
      rfl
    rw [same, Literal.unescape?_code, List.take_left' all, List.drop_left' all, read]
    rfl
  | pair => cases single

theorem unescape?_texts (valid : ∀ spelled ∈ chars, spelled.IsValid closing)
    (single : ∀ spelled ∈ chars, spelled.isPair = false) :
    Literal.unescape? (chars.map text).flatten = some (chars.map char) := by
  induction chars with
  | nil => rw [List.map_nil, List.flatten_nil, Literal.unescape?, List.map_nil]
  | cons spelled chars inductionHypothesis =>
    rw [List.forall_mem_cons] at valid single
    rw [List.map_cons, List.flatten_cons, unescape?_text valid.1 single.1,
      inductionHypothesis valid.2 single.2]
    rfl

theorem mapM_unescape?_of_cutBetween (valid : ∀ spelled ∈ chars, spelled.IsValid closing)
    (single : ∀ spelled ∈ chars, spelled.isPair = false)
    (cut : Literal.CutBetween (chars.map text) pieces) :
    (pieces.mapM Literal.unescape?).map List.flatten = some (chars.map char) := by
  obtain ⟨groups, same, rfl⟩ := cut
  induction groups generalizing chars with
  | nil =>
    rw [List.map_eq_nil_iff.mp same.symm]
    rfl
  | cons group groups inductionHypothesis =>
    obtain ⟨first, others, rfl, rfl, rest⟩ := List.map_eq_append_iff.mp same.symm
    rw [List.forall_mem_append] at valid single
    have last := inductionHypothesis valid.2 single.2 rest.symm
    obtain ⟨outs, read, joined⟩ := Option.map_eq_some_iff.mp last
    rw [List.map_cons, List.mapM_cons, unescape?_texts valid.1 single.1, read, List.map_append,
      ← joined]
    rfl

/-- The pieces of a text have the value of the text just when each piece is whole: no escape is cut,
and no character is written as two of them. -/
theorem mapM_unescape?_eq_iff (valid : ∀ spelled ∈ chars, spelled.IsValid closing)
    (same : pieces.flatten = chars.flatMap text) :
    (pieces.mapM Literal.unescape?).map List.flatten = some (chars.map char) ↔
      (∀ spelled ∈ chars, spelled.isPair = false) ∧
        Literal.CutBetween (chars.map text) pieces := by
  refine ⟨fun read => ?_, fun ⟨single, cut⟩ => mapM_unescape?_of_cutBetween valid single cut⟩
  obtain ⟨outs, read, joined⟩ := Option.map_eq_some_iff.mp read
  have isUnits : ∀ unit ∈ chars.flatMap units, Literal.IsUnit unit := by
    intro unit member
    obtain ⟨spelled, isChar, inside⟩ := List.mem_flatMap.mp member
    exact isUnit_of_mem (valid spelled isChar) unit inside
  have flat : pieces.flatten = (chars.flatMap units).flatten := by
    rw [same, flatten_units]
  have length : outs.flatten.length = chars.length := by rw [joined, List.length_map]
  obtain ⟨least, whole⟩ := Literal.length_le_of_mapM_unescape? isUnits flat read
  obtain ⟨fewest, single⟩ := length_le_length_units chars
  have single := single (by omega)
  refine ⟨single, ?_⟩
  rw [← units_eq_map single]
  exact whole (by omega)

end SpelledChar

end SourceCapture
