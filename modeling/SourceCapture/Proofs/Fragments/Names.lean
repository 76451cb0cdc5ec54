/-
The names of fragments. A hash is a text of letters and digits, so with an extension that has
no slash it is the name of one entry, and hashes that differ have different files.
-/

import SourceCapture.Emitter
import SourceCapture.Proofs.Files.Below
import SourceCapture.Proofs.Fragments.Numerals

namespace SourceCapture

namespace Radix

/-- Whether a character is a digit in radix 32 or stands for the minus sign. -/
def IsDigitOrSign (char : Char) : Prop :=
  '0' ≤ char ∧ char ≤ '9' ∨ 'a' ≤ char ∧ char ≤ 'x'

instance (char : Char) : Decidable (IsDigitOrSign char) :=
  inferInstanceAs (Decidable (_ ∨ _))

theorem isDigitOrSign_of_mem_encode (bytes : List UInt8) :
    ∀ char ∈ encode bytes, IsDigitOrSign char := by
  obtain ⟨number, same, -, fine, -⟩ := (writes_encode bytes).spelled
  have all : (digits.all fun char => decide (IsDigitOrSign char)) = true := by decide
  have digit : ∀ char ∈ digits, IsDigitOrSign char := fun char member =>
    of_decide_eq_true (List.all_eq_true.mp all char member)
  rw [same]
  intro char member
  rcases List.mem_append.mp member with sign | inside
  · split at sign
    · rw [List.mem_singleton.mp sign]
      decide
    · exact absurd sign List.not_mem_nil
  · exact digit char (fine char inside)

theorem encode_ne_nil (bytes : List UInt8) : encode bytes ≠ [] := by
  obtain ⟨number, same, nonempty, -⟩ := (writes_encode bytes).spelled
  rw [same]
  exact List.append_ne_nil_of_right_ne_nil _ nonempty

end Radix

/-! ### Names with an extension -/

theorem toList_fragmentHash (text : String) :
    (fragmentHash text).toList = Radix.encode (Sha256.digest text.toUTF8.toList) :=
  String.toList_ofList

/-- A hash starts with a digit or a sign. -/
theorem exists_fragmentHash_eq_cons (text : String) :
    ∃ first rest, (fragmentHash text).toList = first :: rest ∧ Radix.IsDigitOrSign first := by
  rw [toList_fragmentHash]
  obtain ⟨first, rest, same⟩ := List.exists_cons_of_ne_nil (Radix.encode_ne_nil _)
  refine ⟨first, rest, same, ?_⟩
  exact Radix.isDigitOrSign_of_mem_encode _ first (same ▸ List.mem_cons_self)

theorem head?_fragmentHash_append (text extension : String) :
    (fragmentHash text ++ "." ++ extension).toList.head? ≠ some '/' := by
  obtain ⟨first, rest, same, digit⟩ := exists_fragmentHash_eq_cons text
  rw [String.toList_append, String.toList_append, same]
  rintro ⟨⟩
  revert digit
  decide

/-- A hash with an extension that has no slash is the name of one entry. -/
theorem isEntryName_fragmentHash (text : String) {extension : String}
    (noSlash : '/' ∉ extension.toList) :
    Path.IsEntryName (fragmentHash text ++ "." ++ extension) := by
  obtain ⟨first, rest, same, digit⟩ := exists_fragmentHash_eq_cons text
  have letters : '/' ∉ (fragmentHash text).toList := by
    rw [toList_fragmentHash]
    intro slash
    have digitSlash := Radix.isDigitOrSign_of_mem_encode _ '/' slash
    revert digitSlash
    decide
  have notDot : first ≠ '.' := by
    rintro rfl
    revert digit
    decide
  have starts : (fragmentHash text ++ "." ++ extension).toList =
      first :: (rest ++ '.' :: extension.toList) := by
    rw [String.toList_append, String.toList_append, same]
    exact List.append_assoc _ ['.'] _
  refine ⟨?_, ?_, ?_, ?_⟩
  · rw [String.toList_append, String.toList_append, List.mem_append, List.mem_append]
    rintro ((slash | slash) | slash)
    · exact letters slash
    · revert slash
      decide
    · exact noSlash slash
  · rw [starts]
    exact List.cons_ne_nil _ _
  · rw [starts]
    exact fun dot => notDot (List.cons.inj dot).1
  · rw [starts]
    exact fun dots => notDot (List.cons.inj dots).1

theorem fragmentHash_append_inj {text other extension : String}
    (same : fragmentHash text ++ "." ++ extension = fragmentHash other ++ "." ++ extension) :
    fragmentHash text = fragmentHash other := by
  rw [String.append_assoc, String.append_assoc] at same
  exact (String.append_left_inj _).mp same

namespace Emitter

variable {emitter : Emitter} {store : FileStore} {text other : String} {place : Place}

/-- The file of a text. -/
def pathOf (emitter : Emitter) (text : String) : Path :=
  (emitter.fragmentOf (fragmentHash text) false).path

theorem pathOf_eq (emitter : Emitter) (text : String) : emitter.pathOf text =
    emitter.outDir.join (fragmentHash text ++ "." ++ emitter.fragmentExtension) := rfl

/-- Texts with one path have one hash. -/
theorem fragmentHash_eq_of_pathOf_eq (same : emitter.pathOf text = emitter.pathOf other) :
    fragmentHash text = fragmentHash other := by
  rw [pathOf_eq, pathOf_eq] at same
  exact fragmentHash_append_inj (Path.join_inj emitter.outDir (head?_fragmentHash_append text _)
    (head?_fragmentHash_append other _) same)

/-- Texts whose files are at one place have one hash. -/
theorem fragmentHash_eq_of_place? (noSlash : '/' ∉ emitter.fragmentExtension.toList)
    (here : store.place? (emitter.pathOf text) = some place)
    (there : store.place? (emitter.pathOf other) = some place) :
    fragmentHash text = fragmentHash other := by
  rw [pathOf_eq] at here there
  exact fragmentHash_append_inj (FileStore.eq_of_place?_join (isEntryName_fragmentHash text noSlash)
    (isEntryName_fragmentHash other noSlash) here there)

end Emitter

end SourceCapture
