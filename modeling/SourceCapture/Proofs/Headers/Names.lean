/-
What headers are made of: types, and names, which are plain words or stand in quotes. Whatever is
in the quotes belongs to a name, also what has a meaning of its own elsewhere. Reading a name takes
the quotes off, and nothing more or less is read as the name.
-/

import SourceCapture.ParameterList
import SourceCapture.Proofs.Types.Reading

namespace SourceCapture

open Text (Closed IsTight isBlank isOrdinary allBlank stripWhile dropEndWhile)

/-! ### Types -/

/-- Whether a text can be the text of a type. Every bracket in it is closed, and a comma stands
inside of brackets only. -/
structure Text.IsTypeText (text : List Char) : Prop where
  closed : Closed (· ≠ ',') text
  nonempty : text ≠ []
  tight : IsTight text
  unopened : text.head? ≠ some '<'

theorem SourceType.WellNamed.isTypeText {type : SourceType} (named : type.WellNamed) :
    Text.IsTypeText type.text := by
  have prints := named.prints
  obtain ⟨unmarked, spells⟩ := prints.spells
  refine ⟨prints.closed.mono fun char fine => ?_, spells.nonempty, spells.isTight, ?_⟩
  · simp only [SourceType.allowedInType, Bool.and_eq_true] at fine
    exact fine.1
  · obtain ⟨char, rest, same, solid⟩ := spells.beginsSolid
    rw [same]
    rintro ⟨⟩
    rcases solid with inName | other
    · revert inName
      decide
    · exact absurd other (by decide)

/-! ### Names -/

/-- The characters of plain words: those without a meaning of their own. -/
def Text.isWordChar (char : Char) : Bool :=
  isOrdinary char && !isBlank char && !(['.', ',', ':', '=', Name.quote].contains char)

theorem Text.isWordChar_iff {char : Char} : isWordChar char = true ↔
    isOrdinary char = true ∧ isBlank char = false ∧ char ≠ '.' ∧ char ≠ ',' ∧ char ≠ ':' ∧
      char ≠ '=' ∧ char ≠ Name.quote := by
  simp [isWordChar, and_assoc]

/-- A name as it is written. -/
inductive SourceName where
  | plain (word : List Char)
  | quoted (inside : List Char)

namespace SourceName

def text : SourceName → List Char
  | plain word => word
  | quoted inside => Name.quote :: (inside ++ [Name.quote])

/-- The characters of the name itself. -/
def bareText : SourceName → List Char
  | plain word => word
  | quoted inside => inside

def bare (name : SourceName) : String := String.ofList name.bareText

def IsValid : SourceName → Prop
  | plain word => word ≠ [] ∧ ∀ char ∈ word, Text.isWordChar char = true
  | quoted inside => inside ≠ [] ∧ Name.quote ∉ inside

instance : (name : SourceName) → Decidable name.IsValid
  | plain word => decidable_of_iff (word ≠ [] ∧ word.all Text.isWordChar = true)
      (by rw [List.all_eq_true]; exact Iff.rfl)
  | quoted inside => inferInstanceAs (Decidable (inside ≠ [] ∧ Name.quote ∉ inside))

variable {name : SourceName} {word inside : List Char}

theorem unquote_eq_bare_iff {written : List Char} :
    Name.unquote written = name.bare ↔ stripWhile (· = Name.quote) written = name.bareText :=
  String.ofList_inj

theorem nonempty (valid : name.IsValid) : name.text ≠ [] := by
  cases name with
  | plain => exact valid.1
  | quoted => exact List.cons_ne_nil _ _

/-- The first and the last character of a name are no white space. -/
theorem isTight (valid : name.IsValid) : IsTight name.text := by
  cases name with
  | plain word =>
    exact Text.isTight_of_solid fun char member =>
      (Text.isWordChar_iff.mp (valid.2 char member)).2.1
  | quoted inside => exact Text.isTight_surrounded (by decide) (by decide) inside

theorem head?_ne (valid : name.IsValid) : name.text.head? ≠ some '<' := by
  cases name with
  | plain word =>
    intro first
    have ordinary := (Text.isWordChar_iff.mp (valid.2 '<' (List.mem_of_mem_head? first))).1
    cases ordinary
  | quoted inside =>
    rintro ⟨⟩

theorem notQuote_of_mem (valid : name.IsValid) {char : Char} (member : char ∈ name.bareText) :
    char ≠ Name.quote := by
  cases name with
  | plain word => exact (Text.isWordChar_iff.mp (valid.2 char member)).2.2.2.2.2.2
  | quoted inside =>
    rintro rfl
    exact valid.2 member

theorem bareText_nonempty (valid : name.IsValid) : name.bareText ≠ [] := by
  cases name with
  | plain => exact valid.1
  | quoted => exact valid.1

theorem isEmpty_bare (valid : name.IsValid) : name.bare.isEmpty = false := by
  rw [← Bool.not_eq_true, String.isEmpty_iff]
  intro empty
  have nothing := congrArg String.toList empty
  rw [bare, String.toList_ofList] at nothing
  exact bareText_nonempty valid nothing

theorem dropWhile_bareText (valid : name.IsValid) (rest : List Char) :
    (name.bareText ++ rest).dropWhile (· = Name.quote) = name.bareText ++ rest := by
  have stays := @notQuote_of_mem name valid
  obtain ⟨first, others, same⟩ := List.exists_cons_of_ne_nil (bareText_nonempty valid)
  rw [same] at stays ⊢
  exact List.dropWhile_cons_of_neg (by simpa using stays List.mem_cons_self)

theorem dropEndWhile_bareText (valid : name.IsValid) :
    dropEndWhile (· = Name.quote) name.bareText = name.bareText := by
  have stays := @notQuote_of_mem name valid
  obtain ⟨others, last, same⟩ :=
    (List.eq_nil_or_concat' name.bareText).resolve_left (bareText_nonempty valid)
  rw [same] at stays ⊢
  exact Text.dropEndWhile_append_cons (decide_eq_false (stays List.mem_concat_self)) others []

theorem stripWhile_text (valid : name.IsValid) :
    stripWhile (· = Name.quote) name.text = name.bareText := by
  have whole := dropWhile_bareText valid
  have ended := dropEndWhile_bareText valid
  rw [stripWhile]
  cases name with
  | plain word =>
    have start := whole []
    rw [List.append_nil] at start
    exact (congrArg (dropEndWhile _) start).trans ended
  | quoted inside =>
    have start : (quoted inside).text.dropWhile (· = Name.quote) = inside ++ [Name.quote] :=
      whole [Name.quote]
    rw [start, dropEndWhile, List.reverse_append]
    exact ended

/-- A name is read as it is. -/
theorem unquote_text (valid : name.IsValid) : Name.unquote name.text = name.bare :=
  unquote_eq_bare_iff.mpr (stripWhile_text valid)

/-! ### What is read as a name -/

/-- A text that is read as a name has no more characters than the name, and no fewer, when quotes
are not counted. -/
theorem countP_of_unquote {written : List Char} (valid : name.IsValid)
    (same : Name.unquote written = name.bare) :
    written.countP (fun char => !decide (char = Name.quote)) =
      name.text.countP fun char => !decide (char = Name.quote) := by
  rw [unquote_eq_bare_iff, ← stripWhile_text valid] at same
  rw [← Text.countP_stripWhile, same, Text.countP_stripWhile]

/-- What starts in front of a name is read as more than the name. -/
theorem unquote_ne_of_longer (valid : name.IsValid) {char : Char} (solid : isBlank char = false)
    (other : char ≠ Name.quote) (front gap : List Char) :
    Name.unquote (Text.trim (front ++ char :: (gap ++ name.text))) ≠ name.bare := by
  intro same
  have counted := countP_of_unquote valid same
  rw [Text.trim_append_cons solid, (isTight valid).trimEnd_append (nonempty valid),
    List.countP_append, List.countP_cons_of_pos (by simpa using other), List.countP_append]
    at counted
  omega

/-- What misses a character of a name is read as less than the name. -/
theorem unquote_ne_of_sublist (valid : name.IsValid) {left right written : List Char} {char : Char}
    (other : char ≠ Name.quote) (inside : name.text = left ++ char :: right)
    (part : written.Sublist (left ++ right)) : Name.unquote written ≠ name.bare := by
  intro same
  have counted := countP_of_unquote valid same
  have fewer : written.countP (fun char => !decide (char = Name.quote)) ≤
      (left ++ right).countP fun char => !decide (char = Name.quote) :=
    part.countP_le
  rw [inside, List.countP_append, List.countP_cons_of_pos (by simpa using other)] at counted
  rw [List.countP_append] at fewer
  omega

/-- What starts inside a name is read as less than the name. -/
theorem unquote_ne_of_shorter (valid : name.IsValid) {left right : List Char} {char : Char}
    (other : char ≠ Name.quote) (inside : name.text = left ++ char :: right) :
    Name.unquote (Text.trim right) ≠ name.bare :=
  unquote_ne_of_sublist valid other inside
    ((Text.trim_sublist right).trans (List.sublist_append_right _ _))

end SourceName

/-! ### Lists -/

/-- The brackets around a list are taken off. -/
theorem Parameter.withoutBrackets_bracketed {opening closing : Char}
    (solid : isBlank opening = false ∧ isBlank closing = false) (list : List Char) :
    withoutBrackets opening closing (opening :: (list ++ [closing])) = list := by
  have tight := Text.isTight_surrounded solid.1 solid.2 list
  rw [withoutBrackets, tight.trims.trim_eq, Text.stripBoth?_surrounded]
  rfl

end SourceCapture
