/-
Which argument of an annotation is for a parameter. An argument with a name is for the parameter of
that name, and one without is for the parameter at its own place among all arguments. Looking an
argument up counts the arguments without a name only, and the two counts agree as long as no name
stands in front of an argument without one. Otherwise the last argument without a name is missed.
-/

import Mathlib.Data.List.Basic
import SourceCapture.Declaration

namespace SourceCapture

namespace AnnotationArgument

/-- Whether an argument, with its place in the list, is for a parameter with its position. -/
def IsFor (argument : AnnotationArgument × Nat) (parameter : String × Nat) : Prop :=
  argument.1.name = some parameter.1 ∨ argument.1.name = none ∧ argument.2 = parameter.2

instance (argument : AnnotationArgument × Nat) (parameter : String × Nat) :
    Decidable (IsFor argument parameter) :=
  inferInstanceAs (Decidable (_ ∨ _))

/-- Whether a list of arguments can be given to these parameters: each argument is for one of them,
and no parameter is given twice. -/
structure FitsParameters (parameters : List String) (arguments : List AnnotationArgument) :
    Prop where
  known : ∀ argument ∈ arguments.zipIdx, ∃ parameter ∈ parameters.zipIdx, IsFor argument parameter
  once : ∀ parameter ∈ parameters.zipIdx, ∀ first ∈ arguments.zipIdx, ∀ second ∈ arguments.zipIdx,
    IsFor first parameter → IsFor second parameter → first = second

instance (parameters : List String) (arguments : List AnnotationArgument) :
    Decidable (FitsParameters parameters arguments) :=
  decidable_of_iff (_ ∧ _) ⟨fun both => ⟨both.1, both.2⟩, fun fits => ⟨fits.known, fits.once⟩⟩

/-- Whether arguments give a parameter this value. -/
def Gives (arguments : List AnnotationArgument) (parameter : String × Nat) (value : Const) : Prop :=
  ∃ argument ∈ arguments.zipIdx, IsFor argument parameter ∧ argument.1.value = value

/-- Whether the arguments without a name come before all others. -/
def UnnamedFirst (arguments : List AnnotationArgument) : Prop :=
  ∃ unnamed named, arguments = unnamed ++ named ∧
    (∀ argument ∈ unnamed, argument.name = none) ∧ ∀ argument ∈ named, argument.name ≠ none

variable {arguments : List AnnotationArgument} {parameters : List String}

theorem forall_named_or_exists_last (arguments : List AnnotationArgument) :
    (∀ argument ∈ arguments, argument.name ≠ none) ∨
      ∃ front last back, arguments = front ++ last :: back ∧ last.name = none ∧
        ∀ argument ∈ back, argument.name ≠ none := by
  induction arguments with
  | nil => exact Or.inl (List.forall_mem_nil _)
  | cons argument rest inductionHypothesis =>
    rcases inductionHypothesis with named | ⟨front, last, back, rfl, unnamed, named⟩
    · by_cases unnamed : argument.name = none
      · exact Or.inr ⟨[], argument, rest, rfl, unnamed, named⟩
      · exact Or.inl (List.forall_mem_cons.mpr ⟨unnamed, named⟩)
    · exact Or.inr ⟨argument :: front, last, back, rfl, unnamed, named⟩

end AnnotationArgument

namespace Annotation

open AnnotationArgument

variable {note : Annotation} {parameters : List String} {parameter : String × Nat}

theorem argument?_of_named {name : String} {argument : AnnotationArgument}
    (found : (note.arguments.find? fun argument => argument.name = some name) = some argument)
    (position : Nat) : note.argument? name position = some argument.value := by
  rw [argument?, found]
  rfl

theorem argument?_of_not_named {name : String}
    (missing : (note.arguments.find? fun argument => argument.name = some name) = none)
    (position : Nat) : note.argument? name position =
      (note.arguments.filter (·.name.isNone))[position]?.map (·.value) := by
  rw [argument?, missing]
  rfl

/-- A parameter that is given without its name is not given by name too. -/
theorem find?_name_eq_none (fits : FitsParameters parameters note.arguments)
    (isParameter : parameter ∈ parameters.zipIdx) {argument : AnnotationArgument} {place : Nat}
    (placed : (argument, place) ∈ note.arguments.zipIdx) (isFor : IsFor (argument, place) parameter)
    (unnamed : argument.name = none) :
    (note.arguments.find? fun argument => argument.name = some parameter.1) = none := by
  rw [List.find?_eq_none]
  intro other member
  rw [decide_eq_true_iff]
  intro named
  obtain ⟨otherPlace, isOther⟩ := List.mem_iff_getElem?.mp member
  have same := fits.once parameter isParameter _ (List.mk_mem_zipIdx_iff_getElem?.mpr isOther) _
    placed (Or.inl named) isFor
  rw [(Prod.mk.inj same).1, unnamed] at named
  cases named

/-- Behind a name, the last argument without a name is not found. -/
theorem exists_missed (fits : FitsParameters parameters note.arguments)
    {front back : List AnnotationArgument} {last : AnnotationArgument}
    (split : note.arguments = front ++ last :: back) (unnamed : last.name = none)
    (named : ∀ argument ∈ back, argument.name ≠ none)
    (mixed : ∃ argument ∈ front, argument.name ≠ none) :
    ∃ parameter ∈ parameters.zipIdx, Gives note.arguments parameter last.value ∧
      note.argument? parameter.1 parameter.2 = none := by
  have placed : (last, front.length) ∈ note.arguments.zipIdx := by
    rw [List.mk_mem_zipIdx_iff_getElem?, split, List.getElem?_append_right (Nat.le_refl _),
      Nat.sub_self]
    rfl
  obtain ⟨parameter, isParameter, isFor⟩ := fits.known _ placed
  have position : front.length = parameter.2 := by
    rcases isFor with named | ⟨-, place⟩
    · rw [unnamed] at named
      cases named
    · exact place
  refine ⟨parameter, isParameter, ⟨_, placed, isFor, rfl⟩, ?_⟩
  -- There are too few arguments without a name for the last of them to be at its place.
  have fewer : (front.filter (·.name.isNone)).length < front.length := by
    rw [List.length_filter_lt_length_iff_exists]
    simpa using mixed
  have none : back.filter (·.name.isNone) = [] := by
    rw [List.filter_eq_nil_iff]
    simpa using named
  have count : (note.arguments.filter (·.name.isNone)).length ≤ parameter.2 := by
    rw [split, List.filter_append, List.filter_cons_of_pos (by simp [unnamed]), none,
      List.length_append, List.length_singleton]
    omega
  rw [argument?_of_not_named (find?_name_eq_none fits isParameter placed isFor unnamed),
    List.getElem?_eq_none count]
  rfl

/-- Where the arguments without a name come first, each of them is at its place among them. -/
theorem getElem?_filter_unnamed {unnamed named : List AnnotationArgument}
    (split : note.arguments = unnamed ++ named) (isUnnamed : ∀ argument ∈ unnamed, argument.name = none)
    (isNamed : ∀ argument ∈ named, argument.name ≠ none) (place : Nat)
    (argument : AnnotationArgument) :
    (note.arguments.filter (·.name.isNone))[place]? = some argument ↔
      note.arguments[place]? = some argument ∧ argument.name = none := by
  have kept : note.arguments.filter (·.name.isNone) = unnamed := by
    have all : unnamed.filter (·.name.isNone) = unnamed := by
      rw [List.filter_eq_self]
      simpa using isUnnamed
    have none : named.filter (·.name.isNone) = [] := by
      rw [List.filter_eq_nil_iff]
      simpa using isNamed
    rw [split, List.filter_append, all, none, List.append_nil]
  rw [kept, split]
  by_cases inside : place < unnamed.length
  · rw [List.getElem?_append_left inside]
    exact (and_iff_left_of_imp fun found => isUnnamed argument (List.mem_of_getElem? found)).symm
  · rw [List.getElem?_eq_none (Nat.le_of_not_lt inside),
      List.getElem?_append_right (Nat.le_of_not_lt inside)]
    refine iff_of_false nofun ?_
    rintro ⟨found, unnamed⟩
    exact isNamed argument (List.mem_of_getElem? found) unnamed

theorem argument?_eq_some_iff_of_unnamedFirst (fits : FitsParameters parameters note.arguments)
    (first : UnnamedFirst note.arguments) (isParameter : parameter ∈ parameters.zipIdx)
    (value : Const) :
    note.argument? parameter.1 parameter.2 = some value ↔ Gives note.arguments parameter value := by
  obtain ⟨unnamed, named, split, isUnnamed, isNamed⟩ := first
  cases found : note.arguments.find? fun argument => argument.name = some parameter.1 with
  | some argument =>
    obtain ⟨place, placed⟩ := List.mem_iff_getElem?.mp (List.mem_of_find?_eq_some found)
    have member := List.mk_mem_zipIdx_iff_getElem?.mpr placed
    have isFor : IsFor (argument, place) parameter := Or.inl (by simpa using List.find?_some found)
    rw [argument?_of_named found, Option.some.injEq]
    constructor
    · intro same
      exact ⟨_, member, isFor, same⟩
    · rintro ⟨other, isOther, otherFor, rfl⟩
      rw [← fits.once parameter isParameter _ member other isOther isFor otherFor]
  | none =>
    have unnamedOnly : ∀ argument ∈ note.arguments, argument.name ≠ some parameter.1 := by
      simpa using List.find?_eq_none.mp found
    rw [argument?_of_not_named found, Option.map_eq_some_iff]
    simp only [getElem?_filter_unnamed split isUnnamed isNamed]
    constructor
    · rintro ⟨argument, ⟨placed, unnamed⟩, same⟩
      exact ⟨(argument, parameter.2), List.mk_mem_zipIdx_iff_getElem?.mpr placed,
        Or.inr ⟨unnamed, rfl⟩, same⟩
    · rintro ⟨⟨argument, place⟩, member, named | ⟨unnamed, rfl⟩, same⟩
      · exact absurd named (unnamedOnly argument (List.fst_mem_of_mem_zipIdx member))
      · exact ⟨argument, ⟨List.mk_mem_zipIdx_iff_getElem?.mp member, unnamed⟩, same⟩

/-- Of arguments that can be given, each parameter finds the one that is for it, and nothing if there
is none, just when the arguments without a name come first. -/
theorem findsArguments_iff (fits : FitsParameters parameters note.arguments) :
    (∀ parameter ∈ parameters.zipIdx, ∀ value,
        note.argument? parameter.1 parameter.2 = some value ↔ Gives note.arguments parameter value) ↔
      UnnamedFirst note.arguments := by
  constructor
  · intro finds
    rcases forall_named_or_exists_last note.arguments with named | ⟨front, last, back, split,
      unnamed, named⟩
    · exact ⟨[], note.arguments, rfl, List.forall_mem_nil _, named⟩
    · refine ⟨front ++ [last], back, by rw [split, List.append_cons], ?_, named⟩
      by_contra mixed
      rw [List.forall_mem_append, List.forall_mem_singleton] at mixed
      have before : ∃ argument ∈ front, argument.name ≠ none := by
        by_contra none
        push Not at none
        exact mixed ⟨none, unnamed⟩
      obtain ⟨parameter, isParameter, given, missed⟩ := exists_missed fits split unnamed named before
      have found := (finds parameter isParameter last.value).mpr given
      rw [missed] at found
      cases found
  · exact fun first parameter isParameter =>
      argument?_eq_some_iff_of_unnamedFirst fits first isParameter

/-! ### A name in front -/

/-- The annotation `@N("to", fromJsConverter = "from")`. -/
def unnamedThenNamed : Annotation :=
  ⟨"N", none, none, [⟨none, .text "to"⟩, ⟨some "fromJsConverter", .text "from"⟩]⟩

theorem findsArguments_unnamedThenNamed :
    FitsParameters ["toJsConverter", "fromJsConverter"] unnamedThenNamed.arguments ∧
      ∀ parameter ∈ ["toJsConverter", "fromJsConverter"].zipIdx, ∀ value,
        unnamedThenNamed.argument? parameter.1 parameter.2 = some value ↔
          Gives unnamedThenNamed.arguments parameter value := by
  have fits : FitsParameters ["toJsConverter", "fromJsConverter"] unnamedThenNamed.arguments := by
    decide
  exact ⟨fits, (findsArguments_iff fits).mpr
    ⟨[⟨none, .text "to"⟩], [⟨some "fromJsConverter", .text "from"⟩], rfl, by decide, by decide⟩⟩

/-- The annotation `@N(toJsConverter = "to", "from")`. -/
def namedThenUnnamed : Annotation :=
  ⟨"N", none, none, [⟨some "toJsConverter", .text "to"⟩, ⟨none, .text "from"⟩]⟩

/-- Behind a name, the argument for the second parameter is not found. -/
theorem argument?_namedThenUnnamed :
    FitsParameters ["toJsConverter", "fromJsConverter"] namedThenUnnamed.arguments ∧
      Gives namedThenUnnamed.arguments ("fromJsConverter", 1) (.text "from") ∧
      namedThenUnnamed.argument? "fromJsConverter" 1 = none := by
  refine ⟨by decide, ⟨(⟨none, .text "from"⟩, 1), by decide, by decide, rfl⟩, by decide⟩

end Annotation

end SourceCapture
