/-
The names in a type, at any depth of its type arguments. Erasing type parameters leaves those
names that stand neither for one of them nor in the type arguments behind one, and what is known
of no type.
-/

import SourceCapture.TypeRef

namespace SourceCapture.TypeRef

/-! ### Names -/

mutual

/-- The names in a type. -/
def names : TypeRef → List String
  | .of fqn arguments _ => fqn :: namesOfAll arguments

/-- The names in the types, in order. -/
def namesOfAll : List TypeRef → List String
  | [] => []
  | first :: rest => names first ++ namesOfAll rest

end

mutual

/-- The names in a type without some type parameters and without what is in the type arguments
behind them. -/
def namesBeside (parameters : List String) : TypeRef → List String
  | .of fqn arguments _ =>
    if parameters.contains fqn then [] else fqn :: namesBesideInAll parameters arguments

/-- The names in the types without some type parameters, in order. -/
def namesBesideInAll (parameters : List String) : List TypeRef → List String
  | [] => []
  | first :: rest => namesBeside parameters first ++ namesBesideInAll parameters rest

end

/-- Whether one of some names is a type parameter. The name of the unknown type is none. -/
def Mentions (names parameters : List String) : Prop :=
  ∃ name ∈ names, name ∈ parameters ∧ name ≠ unknown.fqn

/-! ### Erasing -/

variable {parameters : List String} {name : String}

mutual

/-- What is erased leaves the name of the unknown type, and everything else stays. -/
theorem mem_names_erase_iff (other : name ≠ unknown.fqn) : ∀ type : TypeRef,
    name ∈ (type.erase parameters).names ↔ name ∈ type.namesBeside parameters
  | .of fqn arguments nullable => by
    rw [erase, namesBeside]
    split
    · exact iff_of_false (fun member => other (List.mem_singleton.mp member)) List.not_mem_nil
    · rw [names, List.mem_cons, List.mem_cons, mem_namesOfAll_eraseAll_iff other arguments]

theorem mem_namesOfAll_eraseAll_iff (other : name ≠ unknown.fqn) : ∀ types : List TypeRef,
    name ∈ namesOfAll (eraseAll parameters types) ↔ name ∈ namesBesideInAll parameters types
  | [] => Iff.rfl
  | first :: rest => by
    rw [eraseAll, namesOfAll, namesBesideInAll, List.mem_append, List.mem_append,
      mem_names_erase_iff other first, mem_namesOfAll_eraseAll_iff other rest]

end

mutual

theorem not_mem_of_mem_namesBeside : ∀ {type : TypeRef}, name ∈ type.namesBeside parameters →
    name ∉ parameters
  | .of fqn arguments nullable, member => by
    rw [namesBeside] at member
    split at member
    · cases member
    case isFalse kept =>
      rcases List.mem_cons.mp member with rfl | inside
      · rwa [List.contains_iff_mem] at kept
      · exact not_mem_of_mem_namesBesideInAll inside

theorem not_mem_of_mem_namesBesideInAll : ∀ {types : List TypeRef},
    name ∈ namesBesideInAll parameters types → name ∉ parameters
  | [], member => by cases member
  | first :: rest, member => by
    rcases List.mem_append.mp member with here | later
    · exact not_mem_of_mem_namesBeside here
    · exact not_mem_of_mem_namesBesideInAll later

end

/-- An erased type mentions no type parameter that is erased, and of others those that it
mentioned outside of what is erased. -/
theorem mentions_erase_append_iff (type : TypeRef) (others : List String) :
    Mentions (type.erase parameters).names (parameters ++ others) ↔
      Mentions (type.namesBeside parameters) others := by
  refine exists_congr fun name => ?_
  constructor
  · rintro ⟨member, mentioned, other⟩
    have beside := (mem_names_erase_iff other type).mp member
    exact ⟨beside, (List.mem_append.mp mentioned).resolve_left
      (not_mem_of_mem_namesBeside beside), other⟩
  · rintro ⟨beside, mentioned, other⟩
    exact ⟨(mem_names_erase_iff other type).mpr beside, List.mem_append_right _ mentioned, other⟩

/-- Type arguments of which nothing is known mention nothing. -/
theorem mentions_cons_unknown_iff {Item : Type} (fqn : String) (items : List Item)
    (others : List String) :
    Mentions (fqn :: namesOfAll (items.map fun _ => unknown)) others ↔ Mentions [fqn] others := by
  have known : ∀ name ∈ namesOfAll (items.map fun _ => unknown), name = unknown.fqn := by
    induction items with
    | nil => exact fun name member => absurd member List.not_mem_nil
    | cons item rest inductionHypothesis =>
      intro name member
      rcases List.mem_append.mp member with here | later
      · exact List.mem_singleton.mp here
      · exact inductionHypothesis name later
  constructor
  · rintro ⟨name, member, mentioned, other⟩
    rcases List.mem_cons.mp member with rfl | inside
    · exact ⟨name, List.mem_singleton_self name, mentioned, other⟩
    · exact absurd (known name inside) other
  · rintro ⟨name, member, mentioned, other⟩
    rw [List.mem_singleton.mp member] at mentioned other
    exact ⟨fqn, List.mem_cons_self, mentioned, other⟩

end SourceCapture.TypeRef
