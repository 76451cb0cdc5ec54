/-
What ends up in a set of imports. A set that was empty holds what was added to it, each name at
its first place. What an expression adds are the names that its items ask for, since the walk
through it is one note after the other. The handles of a set are told from those of other sets by
their place, and so the set behind a handle depends on nothing but what was added through its
own handles.
-/

import SourceCapture.Import
import SourceCapture.Proofs.Tables
import SourceCapture.Proofs.Traversal

namespace SourceCapture

/-! ### First places -/

theorem eraseDups_concat (names : List String) (name : String) :
    (names ++ [name]).eraseDups =
      if name ∈ names then names.eraseDups else names.eraseDups ++ [name] := by
  rw [List.eraseDups_append, List.removeAll]
  split
  case isTrue known => simp [known]
  case isFalse fresh => simp [fresh, List.eraseDups_cons]

/-- The import that an item asks for: the name of the called function, if that is an extension
and none of its annotations says that it is not to be imported. -/
def Item.import? : Item → Option String
  | .expression (.call _ (some callee) _ _) =>
    if callee.isExtension = true ∧ ∀ note ∈ callee.annotations, note.marker ≠ some .noImport then
      some callee.fqn
    else none
  | _ => none

namespace ImportSet

theorem needOf?_eq_import? (item : Item) : needOf? item = item.import? := by
  have skips (callee : Callee) : (callee.isExtension && !callee.skipsImport) = true ↔
      callee.isExtension = true ∧ ∀ note ∈ callee.annotations, note.marker ≠ some .noImport := by
    simp [Callee.skipsImport, Annotation.marks]
  cases item with
  | declaration declaration => rfl
  | expression expr =>
    cases expr with
    | call span callee receiver arguments =>
      cases callee with
      | none => rfl
      | some callee => exact if_congr (skips callee) rfl rfl
    | conversion | lambda | declaration | group => rfl

/-- The set holds what was added, each name at its first place. -/
def Holds (set : ImportSet) (added : List String) : Prop := set.names = added.eraseDups

variable {set : ImportSet} {added : List String}

theorem contains_iff (holds : set.Holds added) (name : String) :
    set.contains name = true ↔ name ∈ added := by
  rw [contains, set.agree, holds, List.mem_eraseDups]

theorem add_fst (holds : set.Holds added) (name : String) :
    (set.add name).1 = true ↔ name ∉ added := by
  rw [← contains_iff holds, add]
  split
  case isTrue known => exact iff_of_false Bool.false_ne_true (not_not_intro known)
  case isFalse fresh => exact iff_of_true rfl fresh

theorem holds_insert (holds : set.Holds added) (name : String) :
    (set.insert name).Holds (added ++ [name]) := by
  rw [Holds, eraseDups_concat, insert, add]
  by_cases known : name ∈ added
  · rw [if_pos ((contains_iff holds name).mpr known), if_pos known]
    exact holds
  · rw [if_neg (mt (contains_iff holds name).mp known), if_neg known]
    exact congrArg (· ++ [name]) holds

theorem holds_note (holds : set.Holds added) (item : Item) :
    (note item set).2.Holds (added ++ item.import?.toList) := by
  rw [note, needOf?_eq_import?]
  cases item.import? with
  | none => exact (List.append_nil added).symm ▸ holds
  | some name => exact holds_insert holds name

theorem holds_forM_note (holds : set.Holds added) (items : List Item) :
    ((forM items note : StateM ImportSet Unit) set).2.Holds
      (added ++ items.filterMap Item.import?) := by
  induction items generalizing set added with
  | nil => exact (List.append_nil added).symm ▸ holds
  | cons first rest inductionHypothesis =>
    rw [List.forM_cons]
    have after := inductionHypothesis (holds_note holds first)
    cases asked : first.import? with
    | none =>
      rw [asked, Option.toList_none, List.append_nil] at after
      rw [List.filterMap_cons_none asked]
      exact after
    | some name =>
      rw [asked, Option.toList_some, List.append_assoc, List.singleton_append] at after
      rw [List.filterMap_cons_some asked]
      exact after

theorem holds_discover (holds : set.Holds added) (expr : Expr) :
    (set.discover expr).Holds (added ++ expr.items.filterMap Item.import?) := by
  rw [discover, walkExpr_eq_forM]
  exact holds_forM_note holds expr.items

theorem holds_empty : Holds {} [] := rfl

end ImportSet

/-- The imports of an expression are what its items ask for, in their order. -/
theorem importsOf_eq (expr : Expr) :
    importsOf expr = (expr.items.filterMap Item.import?).eraseDups :=
  ImportSet.holds_discover ImportSet.holds_empty expr

/-! ### Shared sets -/

/-- What can be done with the sets in use. -/
inductive ImportUse where
  | create
  | add (handle : ImportHandle) (name : String)
  | discover (handle : ImportHandle) (expr : Expr)

namespace ImportUse

/-- The sets after a use of them. -/
def run (sets : List ImportSet) : ImportUse → List ImportSet
  | create => (ImportHandle.create sets).2
  | add handle name => (handle.add name sets).2
  | discover handle expr => (handle.discover expr sets).2

/-- What a use adds to the set of a handle. -/
def addedTo (handle : ImportHandle) : ImportUse → List String
  | create => []
  | add other name => if other.place = handle.place then [name] else []
  | discover other expr =>
    if other.place = handle.place then expr.items.filterMap Item.import? else []

end ImportUse

namespace ImportHandle

/-- The set of the handle is in use and holds what was added. -/
def Holds (handle : ImportHandle) (sets : List ImportSet) (added : List String) : Prop :=
  ∃ set, sets[handle.place]? = some set ∧ set.Holds added

variable {handle other : ImportHandle} {sets : List ImportSet} {added : List String}

theorem set_of_getElem? {set : ImportSet} (found : sets[handle.place]? = some set) :
    handle.set sets = set := by
  rw [ImportHandle.set, List.getD_eq_getElem?_getD, found, Option.getD_some]

theorem holds_create (sets : List ImportSet) : (create sets).1.Holds (create sets).2 [] :=
  ⟨{}, List.getElem?_concat_length, ImportSet.holds_empty⟩

/-- A change of one set leaves the other sets as they are. -/
theorem holds_modify {further : List String} {change : ImportSet → ImportSet}
    (holds : handle.Holds sets added)
    (changes : ∀ set : ImportSet, set.Holds added → (change set).Holds (added ++ further)) :
    handle.Holds (sets.modify other.place change)
      (added ++ if other.place = handle.place then further else []) := by
  obtain ⟨set, found, setHolds⟩ := holds
  refine ⟨if other.place = handle.place then change set else set, ?_, ?_⟩
  · rw [List.getElem?_modify, found]
    rfl
  · split
    case isTrue same => exact changes set setHolds
    case isFalse apart => exact (List.append_nil added).symm ▸ setHolds

theorem holds_run (holds : handle.Holds sets added) (use : ImportUse) :
    handle.Holds (use.run sets) (added ++ use.addedTo handle) := by
  cases use with
  | create =>
    obtain ⟨set, found, setHolds⟩ := holds
    have inUse : handle.place < sets.length := (List.getElem?_eq_some_iff.mp found).1
    refine ⟨set, ?_, (List.append_nil added).symm ▸ setHolds⟩
    rw [ImportUse.run, create, List.getElem?_append_left inUse, found]
  | add other name =>
    exact holds_modify holds fun set setHolds => ImportSet.holds_insert setHolds name
  | discover other expr =>
    exact holds_modify holds fun set setHolds => ImportSet.holds_discover setHolds expr

theorem holds_foldl_run (holds : handle.Holds sets added) (uses : List ImportUse) :
    handle.Holds (uses.foldl ImportUse.run sets)
      (added ++ uses.flatMap (ImportUse.addedTo handle)) := by
  induction uses generalizing sets added with
  | nil => exact (List.append_nil added).symm ▸ holds
  | cons first rest inductionHypothesis =>
    rw [List.foldl_cons, List.flatMap_cons, ← List.append_assoc]
    exact inductionHypothesis (holds_run holds first)

end ImportHandle

/-- What there is to know of the set of a handle after some uses: whichever handle of it is asked,
it holds what was added through its handles, and it says of a name whether that was new. -/
structure ImportHandle.Collects (handle : ImportHandle) (uses : List ImportUse)
    (sets : List ImportSet) : Prop where
  names : ∀ clone : ImportHandle, clone.place = handle.place →
    (clone.set sets).names = (uses.flatMap (ImportUse.addedTo handle)).eraseDups
  add : ∀ clone : ImportHandle, clone.place = handle.place → ∀ name,
    (clone.add name sets).1 = true ↔ name ∉ uses.flatMap (ImportUse.addedTo handle)

/-- The imports of an expression are what its items ask for, each at its first place, and so are
the names in a shared set after all the uses that were made of it. -/
theorem ImportHandle.imports_at_first_places :
    (∀ expr, importsOf expr = (expr.items.filterMap Item.import?).eraseDups) ∧
      ∀ (sets : List ImportSet) (uses : List ImportUse),
        (create sets).1.Collects uses (uses.foldl ImportUse.run (create sets).2) := by
  refine ⟨importsOf_eq, fun sets uses => ?_⟩
  obtain ⟨set, found, holds⟩ := holds_foldl_run (holds_create sets) uses
  rw [List.nil_append] at holds
  refine ⟨fun clone same => ?_, fun clone same name => ?_⟩ <;> rw [← same] at found
  · rw [set_of_getElem? found]
    exact holds
  · rw [ImportHandle.add, set_of_getElem? found]
    exact ImportSet.add_fst holds name

end SourceCapture
