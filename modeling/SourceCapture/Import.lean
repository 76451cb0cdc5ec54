/-
The imports that a captured block needs: the extension functions called anywhere inside it,
each of them once, in the order in which they are first called.
-/

import SourceCapture.Table
import SourceCapture.Traversal

namespace SourceCapture

/-- Names without repetition, in the order in which they were added. -/
structure ImportSet where
  names : List String
  /-- The same names, for the look-up. -/
  seen : Table String Unit
  agree : ∀ name, seen.contains name = true ↔ name ∈ names

namespace ImportSet

instance : EmptyCollection ImportSet :=
  ⟨[], .empty, fun _ => iff_of_false Bool.false_ne_true List.not_mem_nil⟩

instance : Inhabited ImportSet := ⟨{}⟩

/-- Whether a name was added. -/
def contains (set : ImportSet) (name : String) : Bool := set.seen.contains name

theorem agree_insert (set : ImportSet) (name other : String) :
    (set.seen.insert name ()).contains other = true ↔ other ∈ set.names ++ [name] := by
  rw [List.mem_append, List.mem_singleton, ← set.agree, Table.contains, Table.contains]
  by_cases same : other = name
  · rw [same, Table.get?_insert_self]
    exact iff_of_true rfl (.inr rfl)
  · rw [Table.get?_insert_other set.seen same]
    exact ⟨.inl, fun known => known.resolve_right same⟩

/-- Adds a name at the end, unless it is there. Says whether it was new. -/
def add (set : ImportSet) (name : String) : Bool × ImportSet :=
  if set.contains name then (false, set)
  else (true, ⟨set.names ++ [name], set.seen.insert name (), set.agree_insert name⟩)

/-- Adds a name at the end, unless it is there. -/
def insert (set : ImportSet) (name : String) : ImportSet := (set.add name).2

/-- The number of names. -/
def size (set : ImportSet) : Nat := set.names.length

/-- The import that an item asks for: the called function, if it is an extension that does
not opt out. -/
def needOf? : Item → Option String
  | .expression (.call _ (some callee) _ _) =>
    if callee.isExtension && !callee.skipsImport then some callee.fqn else none
  | _ => none

/-- Adds what an item asks for. -/
def note (item : Item) : StateM ImportSet Unit :=
  match needOf? item with
  | some name => modify (·.insert name)
  | none => pure ()

/-- Adds what an expression and everything inside it ask for. -/
def discover (set : ImportSet) (expr : Expr) : ImportSet := (walkExpr note expr set).2

end ImportSet

/-- The imports that an expression needs. -/
def importsOf (expr : Expr) : List String := (ImportSet.discover {} expr).names

/-! ### Shared sets -/

/-- A handle of one of the sets that are in use. -/
structure ImportHandle where
  place : Nat
  deriving Repr, DecidableEq

namespace ImportHandle

/-- A handle of a new set. -/
def create : StateM (List ImportSet) ImportHandle := fun sets => (⟨sets.length⟩, sets ++ [{}])

/-- Another handle of the same set. -/
def clone (handle : ImportHandle) : ImportHandle := handle

@[simp] theorem place_clone (handle : ImportHandle) : handle.clone.place = handle.place := rfl

/-- The set behind a handle. -/
def set (handle : ImportHandle) (sets : List ImportSet) : ImportSet :=
  sets.getD handle.place {}

/-- Adds a name to the set, unless it is there. Says whether it was new. -/
def add (handle : ImportHandle) (name : String) : StateM (List ImportSet) Bool := fun sets =>
  (((handle.set sets).add name).1, sets.modify handle.place (·.insert name))

/-- Adds to the set what an expression and everything inside it ask for. -/
def discover (handle : ImportHandle) (expr : Expr) : StateM (List ImportSet) Unit :=
  modify (·.modify handle.place (·.discover expr))

end ImportHandle

end SourceCapture
