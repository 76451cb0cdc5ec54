/-
What types of a source file stand for. A text is read as what its type stands for exactly if the type
is read as it is meant, since two types that are read differently stand for different things as soon
as their names do. So a type stands for what it should if in every function of it the result does not
end with a question mark and the receiver is a class in which no function has a receiver.
-/

import SourceCapture.Proofs.Types.Misread

namespace SourceCapture

/-! ### Types that stand for the same -/

namespace WrittenType

/-- A name that is neither that of a class of functions nor the one that stands for any type. -/
def dotted (name : String) : String := "." ++ name

mutual

/-- The type that stands for a reference, if names are looked up with a dot in front of them. -/
def ofReference : TypeRef → WrittenType
  | .of fqn arguments nullable =>
    match fqn.toList with
    | '*' :: _ => .star nullable
    | '.' :: name => .named (String.ofList name) (ofReferences arguments) nullable
    | _ =>
      let types := ofReferences arguments
      .function types.dropLast (types.getLastD default) nullable

/-- The types that stand for references, in order. -/
def ofReferences : List TypeRef → List WrittenType
  | [] => []
  | first :: rest => ofReference first :: ofReferences rest

end

theorem ofReferences_eq_map (types : List TypeRef) : ofReferences types = types.map ofReference := by
  induction types with
  | nil => rfl
  | cons first rest inductionHypothesis => rw [ofReferences, inductionHypothesis, List.map_cons]

mutual

theorem ofReference_resolve : ∀ type : WrittenType, ofReference (type.resolve dotted) = type
  | .star _ => rfl
  | .named name arguments nullable => by
    have spelled : (dotted name).toList = '.' :: name.toList := String.toList_append
    rw [resolve, ofReference, spelled, ofReferences_resolveAll arguments]
    exact congrArg (WrittenType.named · arguments nullable) String.ofList_toList
  | .function parameters result nullable => by
    have spelled : (functionClass parameters.length).toList =
        'k' :: ("otlin.Function".toList ++ (toString parameters.length).toList) := by
      show ("kotlin.Function" ++ toString parameters.length).toList = _
      rw [String.toList_append]
      rfl
    have types := ofReferences_resolveAll parameters
    rw [ofReferences_eq_map] at types
    rw [resolve, ofReference, spelled, ofReferences_eq_map, List.map_append, types,
      List.map_singleton, ofReference_resolve result]
    dsimp only
    rw [List.dropLast_concat, List.getLastD_concat]
    rfl

theorem ofReferences_resolveAll : ∀ types : List WrittenType,
    ofReferences (resolveAll dotted types) = types
  | [] => rfl
  | first :: rest => by
    rw [resolveAll, ofReferences, ofReference_resolve first, ofReferences_resolveAll rest]

end

/-- Types that are read differently stand for different things once their names do. -/
theorem resolve_dotted_injective : Function.Injective (resolve dotted) :=
  Function.LeftInverse.injective ofReference_resolve

end WrittenType

/-! ### What the text of a type stands for -/

namespace SourceType

open WrittenType (parse)

/-- The text of a type is read as what the type stands for, whatever its names mean, just if in every
function of the type the result does not end with a question mark and the receiver is a class in
which no function has a receiver. -/
theorem resolve_parse_text_iff {type : SourceType} (named : type.WellNamed) :
    (∀ lookUp, (parse type.text).resolve lookUp = type.reference lookUp) ↔ type.Readable := by
  rw [← named.parse_eq_written_iff]
  constructor
  · intro same
    refine WrittenType.resolve_dotted_injective ?_
    rw [same, resolve_written]
  · intro read lookUp
    rw [read, resolve_written]

/-- A suspending function with a receiver, a named parameter, a parameter that is a function, and a
result that is one. -/
theorem handler_resolve_parse_text :
    let type : SourceType := .function true
      (some (.named "Map" [.named "K" [] false, .named "List" [.named "V" [] true] false] true))
      [(some "first", .named "A" [] true), (none, .function false none [] (.named "B" [] false) true)]
      (.function false none [(none, .named "C" [] false)] (.named "a.D" [] false) false) false
    type.WellNamed ∧
      type.text = "suspend Map<K, List<V?>>?.(first: A?, (() -> B)?) -> (C) -> a.D".toList ∧
      ((∀ lookUp, (parse type.text).resolve lookUp = type.reference lookUp) ↔ type.Readable) ∧
      type.Readable := by
  intro type
  have names : ∀ name ∈ ["Map", "K", "List", "V", "first", "A", "B", "C", "a.D"], IsName name := by
    decide
  have named : type.WellNamed := by
    simp [type, WellNamed, everywhere_named_iff, everywhere_function_iff, inputs, OwnNames, names]
  have readable : type.Readable := by
    simp [type, Readable, everywhere_named_iff, everywhere_function_iff, inputs, ReadsHere,
      IsPlainClass, HasNoReceiver, endsInMark]
  exact ⟨named, by decide, resolve_parse_text_iff named, readable⟩

/-- A question mark behind the result of a function is read as one behind the function. -/
theorem nullableResult_resolve_parse_text_ne :
    let type : SourceType := .function false none [] (.named "B" [] true) false
    type.WellNamed ∧ type.text = "() -> B?".toList ∧
      (parse type.text).resolve id = .of "kotlin.Function0" [.of "B" [] false] true ∧
      type.reference id = .of "kotlin.Function0" [.of "B" [] true] false ∧
      (parse type.text).resolve id ≠ type.reference id := by
  intro type
  have isName : IsName "B" := by decide
  have resultNamed : (SourceType.named "B" [] true).WellNamed :=
    everywhere_named_iff.mpr ⟨isName, List.forall_mem_nil _⟩
  have named : type.WellNamed :=
    everywhere_function_iff.mpr ⟨List.forall_mem_nil _, List.forall_mem_nil _, resultNamed⟩
  have read : parse type.text = .function [] (.named "B" [] false) true := by
    rw [named.printsInside.parse_text, named.parse_unmarked nofun,
      parse_unmarked_named isName (List.forall_mem_nil _) true]
    rfl
  have resolved : (parse type.text).resolve id = .of "kotlin.Function0" [.of "B" [] false] true := by
    rw [read]
    rfl
  have meant : type.reference id = .of "kotlin.Function0" [.of "B" [] true] false := rfl
  refine ⟨named, by decide, resolved, meant, ?_⟩
  rw [resolved, meant]
  exact fun same => Bool.false_ne_true (TypeRef.of.inj same).2.2.symm

end SourceType

end SourceCapture
