/-
The values of TOML and its tables. A document is put together statement by statement, and
how a table came to be decides what later statements may add to it: a table that was written
out is closed to dotted keys, one that only stands on the way to another may still be
written out once, and one made by dotted keys takes more dotted keys.
-/

namespace SourceCapture.Toml

/-- How a table came to be. -/
inductive TableKind where
  /-- Written out under a header of its own, or the document itself. -/
  | header
  /-- On the way to a table with a header. -/
  | implied
  /-- Made by dotted keys. -/
  | dotted
  /-- Written as a value between braces. -/
  | inline
  deriving Repr, DecidableEq, Inhabited

/-- A value. Fractional numbers and dates keep the text that writes them. -/
inductive Value where
  | text (value : String)
  | integer (value : Int)
  | fraction (written : String)
  | bool (value : Bool)
  | date (written : String)
  | list (elements : List Value)
  | table (kind : TableKind) (entries : List (String × Value))
  /-- A list of tables, each written out under the same header. -/
  | tables (elements : List (List (String × Value)))
  deriving Inhabited

/-- The entries of a table, each key once. -/
abbrev Entries := List (String × Value)

namespace Entries

/-- The value of a key. -/
def get? (entries : Entries) (key : String) : Option Value :=
  (entries.find? fun entry => entry.1 = key).map (·.2)

/-- The entries with another value for a key that has one. -/
def replace (entries : Entries) (key : String) (value : Value) : Entries :=
  entries.map fun entry => if entry.1 = key then (key, value) else entry

/-- Whether dotted keys may go on inside a table. -/
def admitsDotted : TableKind → Bool
  | .implied => true
  | .dotted => true
  | _ => false

/-- Changes the table that a path of keys leads to, or has none if the path leads through a
value that is no table. Missing tables are made. The path is that of a header or that of a
dotted key, which may not go into tables that are written out. The last table of a list
stands for the list. -/
def changeAt (isDotted : Bool) (change : TableKind → Entries → Option Entries) :
    List String → TableKind → Entries → Option Entries
  | [], kind, entries => change kind entries
  | key :: rest, _, entries =>
    match entries.get? key with
    | none => do
      let kind := if isDotted then TableKind.dotted else .implied
      let inner ← changeAt isDotted change rest kind []
      return entries ++ [(key, .table kind inner)]
    | some (.table kind inner) =>
      if kind = .inline || (isDotted && !admitsDotted kind) then none
      else do
        let changed ← changeAt isDotted change rest kind inner
        return entries.replace key (.table kind changed)
    | some (.tables elements) => do
      let last ← elements.getLast?
      let changed ← changeAt isDotted change rest .header last
      return entries.replace key (.tables (elements.dropLast ++ [changed]))
    | some _ => none

/-- Adds a key with its value. A plain key may not go into a table of dotted keys, nor a
dotted one into a table of another kind, and no key may come twice. -/
def addLeaf (isDotted : Bool) (key : String) (value : Value) (kind : TableKind)
    (entries : Entries) : Option Entries :=
  if (kind == .dotted) == isDotted && (entries.get? key).isNone then
    some (entries ++ [(key, value)])
  else none

/-- Adds a value under a dotted key, given as the keys before the last one and that. -/
def add (path : List String) (key : String) (value : Value) (kind : TableKind)
    (entries : Entries) : Option Entries :=
  changeAt true (addLeaf (!path.isEmpty) key value) path kind entries

/-- Opens the table of a header. -/
def openTable (key : String) (_ : TableKind) (entries : Entries) : Option Entries :=
  match entries.get? key with
  | none => some (entries ++ [(key, .table .header [])])
  | some (.table .implied inner) => some (entries.replace key (.table .header inner))
  | some _ => none

/-- Opens one more table of a list of tables. -/
def openElement (key : String) (_ : TableKind) (entries : Entries) : Option Entries :=
  match entries.get? key with
  | none => some (entries ++ [(key, .tables [[]])])
  | some (.tables elements) => some (entries.replace key (.tables (elements ++ [[]])))
  | some _ => none

end Entries

/-! ### Documents -/

/-- A statement of a document. Keys are given as the part before the last dot and the part
after it. -/
inductive Statement where
  | header (path : List String) (key : String)
  | elementHeader (path : List String) (key : String)
  | entry (path : List String) (key : String) (value : Value)
  deriving Inhabited

/-- A document under way: its entries, and the keys that lead to the table whose header came
last. -/
structure Draft where
  entries : Entries := []
  current : List String := []

namespace Draft

/-- Adds what a statement says, if it may come here. -/
def take (draft : Draft) : Statement → Option Draft
  | .header path key => do
    let entries ← Entries.changeAt false (Entries.openTable key) path .header draft.entries
    return ⟨entries, path ++ [key]⟩
  | .elementHeader path key => do
    let entries ← Entries.changeAt false (Entries.openElement key) path .header draft.entries
    return ⟨entries, path ++ [key]⟩
  | .entry path key value => do
    let entries ← Entries.changeAt false (Entries.add path key value) draft.current .header
      draft.entries
    return { draft with entries := entries }

end Draft

/-- The entries of the document that statements make up. -/
def assemble? (statements : List Statement) : Option Entries :=
  (statements.foldlM Draft.take {}).map (·.entries)

end SourceCapture.Toml
