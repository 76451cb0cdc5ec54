/-
Reading types that are displayed. A displayed type is written like a class of a source file, by its
full name and with its type arguments. Classes are always read as they are meant, so reading a
displayed type gives the type back, with its names looked up.
-/

import SourceCapture.Proofs.TypeNames
import SourceCapture.Proofs.Types.Reading

namespace SourceCapture

namespace SourceType

/-! ### Types as classes of a source file -/

mutual

/-- A type as a source file would write it with full names. -/
def ofReference : TypeRef → SourceType
  | .of fqn arguments nullable => .named fqn (ofReferences arguments) nullable

/-- Types as a source file would write them with full names, in order. -/
def ofReferences : List TypeRef → List SourceType
  | [] => []
  | first :: rest => ofReference first :: ofReferences rest

end

theorem ofReferences_eq_map (types : List TypeRef) : ofReferences types = types.map ofReference := by
  induction types with
  | nil => rfl
  | cons first rest inductionHypothesis => rw [ofReferences, inductionHypothesis, List.map_cons]

theorem toList_mark (nullable : Bool) :
    (if nullable then "?" else "").toList = mark nullable := by
  cases nullable <;> rfl

mutual

/-- It is written as it is displayed. -/
theorem text_ofReference : ∀ type : TypeRef, (ofReference type).text = type.display.toList
  | .of fqn [] nullable => by
    rw [ofReference, ofReferences, text_named, TypeRef.display, TypeRef.displayArguments,
      String.append_empty, String.toList_append, toList_mark]
    rfl
  | .of fqn (first :: rest) nullable => by
    rw [ofReference, ofReferences, text_named, List.map_cons, inAngles, listed_cons,
      text_ofReference first, flatMap_ofReferences rest, TypeRef.display, TypeRef.displayArguments]
    simp only [String.toList_append, toList_mark, List.append_assoc, List.cons_append]
    rfl

theorem flatMap_ofReferences : ∀ types : List TypeRef,
    ((ofReferences types).map text).flatMap ([',', ' '] ++ ·) = (TypeRef.displayRest types).toList
  | [] => rfl
  | first :: rest => by
    rw [ofReferences, List.map_cons, List.flatMap_cons, text_ofReference first,
      flatMap_ofReferences rest, TypeRef.displayRest, String.toList_append, String.toList_append]
    rfl

end

mutual

/-- It stands for the type with its names looked up. -/
theorem reference_ofReference (lookUp : String → String) : ∀ type : TypeRef,
    (ofReference type).reference lookUp = type.rename lookUp
  | .of fqn arguments nullable => by
    rw [ofReference, reference, references_ofReferences lookUp arguments, TypeRef.rename]

theorem references_ofReferences (lookUp : String → String) : ∀ types : List TypeRef,
    references lookUp (ofReferences types) = TypeRef.renameAll lookUp types
  | [] => rfl
  | first :: rest => by
    rw [ofReferences, references, reference_ofReference lookUp first,
      references_ofReferences lookUp rest, TypeRef.renameAll]

end

mutual

/-- There is no function in it, so it is read as it is meant. -/
theorem readable_ofReference : ∀ type : TypeRef, (ofReference type).Readable
  | .of _ arguments _ =>
    everywhere_named_iff.mpr ⟨trivial, readable_ofReferences arguments⟩

theorem readable_ofReferences : ∀ types : List TypeRef,
    ∀ type ∈ ofReferences types, type.Readable
  | [] => nofun
  | first :: rest =>
    List.forall_mem_cons.mpr ⟨readable_ofReference first, readable_ofReferences rest⟩

end

mutual

theorem wellNamed_ofReference : ∀ type : TypeRef, (∀ name ∈ type.names, IsName name) →
    (ofReference type).WellNamed
  | .of fqn arguments nullable, names => by
    rw [TypeRef.names, List.forall_mem_cons] at names
    exact everywhere_named_iff.mpr ⟨names.1, wellNamed_ofReferences arguments names.2⟩

theorem wellNamed_ofReferences : ∀ types : List TypeRef,
    (∀ name ∈ TypeRef.namesOfAll types, IsName name) → ∀ type ∈ ofReferences types, type.WellNamed
  | [], _ => nofun
  | first :: rest, names => by
    rw [TypeRef.namesOfAll, List.forall_mem_append] at names
    exact List.forall_mem_cons.mpr
      ⟨wellNamed_ofReference first names.1, wellNamed_ofReferences rest names.2⟩

end

end SourceType

/-! ### Reading what is displayed -/

namespace TypeRef

mutual

theorem rename_id : ∀ type : TypeRef, type.rename id = type
  | .of fqn arguments nullable => by
    rw [rename, renameAll_id arguments]
    rfl

theorem renameAll_id : ∀ types : List TypeRef, renameAll id types = types
  | [] => rfl
  | first :: rest => by rw [renameAll, rename_id first, renameAll_id rest]

end

/-- Whether a text is made of ASCII letters and digits, underscores and dots. -/
def IsPlainName (name : String) : Prop :=
  name ≠ "" ∧ ∀ char ∈ name.toList, (char.isAlphanum || char = '_' || char = '.') = true

instance (name : String) : Decidable (IsPlainName name) :=
  decidable_of_iff
    (name ≠ "" ∧ name.toList.all (fun char => char.isAlphanum || char = '_' || char = '.') = true)
    (and_congr_right fun _ => List.all_eq_true)

theorem IsPlainName.isName {name : String} (isPlain : IsPlainName name) :
    SourceType.IsName name := by
  refine ⟨isPlain.1, fun char member => ?_⟩
  have plain := isPlain.2 char member
  rw [Bool.or_assoc, Bool.or_eq_true] at plain
  rw [Text.isNameChar, Bool.or_assoc, Bool.or_eq_true]
  refine plain.imp_left fun letterOrDigit => ?_
  have small : char.toNat < 128 := by
    change (decide ('A'.val ≤ char.val ∧ char.val ≤ 'Z'.val) ||
      decide ('a'.val ≤ char.val) && decide (char.val ≤ 'z'.val) ||
      decide ('0'.val ≤ char.val) && decide (char.val ≤ '9'.val)) = true at letterOrDigit
    simp only [Bool.or_eq_true, Bool.and_eq_true, decide_eq_true_eq, UInt32.le_iff_toNat_le,
      Char.reduceVal, UInt32.reduceToNat] at letterOrDigit
    rw [Char.toNat]
    omega
  rwa [Text.isAlphanumeric_of_ascii small]

/-- Reading a displayed type gives the type with its names looked up, and the type itself if names
stand for themselves. -/
theorem resolve_parse_display (type : TypeRef) (plain : ∀ name ∈ type.names, IsPlainName name) :
    (∀ lookUp, (WrittenType.parse type.display.toList).resolve lookUp = type.rename lookUp) ∧
      (WrittenType.parse type.display.toList).resolve id = type := by
  have named : (SourceType.ofReference type).WellNamed :=
    SourceType.wellNamed_ofReference type fun name member => (plain name member).isName
  have read : ∀ lookUp,
      (WrittenType.parse type.display.toList).resolve lookUp = type.rename lookUp := by
    intro lookUp
    rw [← SourceType.text_ofReference,
      named.parse_eq_written (SourceType.readable_ofReference type), SourceType.resolve_written,
      SourceType.reference_ofReference]
  exact ⟨read, (read id).trans type.rename_id⟩

/-- A map from a nested type that may be missing to lists, itself maybe missing. -/
theorem nestedMap_resolve_parse_display :
    let type : TypeRef := .of "kotlin.collections.Map"
      [.of "a.b_1.Key" [.of "kotlin.Int" [] true] false,
        .of "kotlin.collections.List" [.of "T" [] false, .of "in.out" [] true] true] true
    (∀ name ∈ type.names, IsPlainName name) ∧
      type.display =
        "kotlin.collections.Map<a.b_1.Key<kotlin.Int?>, kotlin.collections.List<T, in.out?>?>?" ∧
      (∀ lookUp, (WrittenType.parse type.display.toList).resolve lookUp = type.rename lookUp) ∧
      (WrittenType.parse type.display.toList).resolve id = type := by
  intro type
  have plain : ∀ name ∈ type.names, IsPlainName name := by decide
  exact ⟨plain, by decide, type.resolve_parse_display plain⟩

end TypeRef

end SourceCapture
