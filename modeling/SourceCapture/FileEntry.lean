/-
Files and folders as a tree. A folder gives names to the entries in it, and a list of names
leads from a folder to an entry at some depth below it. What is put at a place is found
there again, and a place that neither lies on the way there nor below it keeps what it had.
-/

import SourceCapture.Table

namespace SourceCapture

/-- Names that lead from a folder to an entry below it. -/
abbrev Place := List String

/-- A file with its bytes, or a folder with its entries by name. -/
inductive FileEntry where
  | file (bytes : ByteArray)
  | folder (entries : Table String FileEntry)

namespace FileEntry

/-- A folder with nothing in it. -/
def emptyFolder : FileEntry := .folder .empty

instance : Inhabited FileEntry := ⟨emptyFolder⟩

/-- Whether the entry is a folder. -/
def isFolder : FileEntry → Bool
  | .folder _ => true
  | .file _ => false

/-- The bytes of a file. -/
def bytes? : FileEntry → Option ByteArray
  | .file bytes => some bytes
  | .folder _ => none

/-- The entries of a folder. There are none in a file. -/
def entries : FileEntry → Table String FileEntry
  | .folder entries => entries
  | .file _ => .empty

/-- The entry of a name. -/
def child? (entry : FileEntry) (name : String) : Option FileEntry := entry.entries.get? name

/-- The names in a folder, in order. -/
def names (entry : FileEntry) : List String :=
  entry.entries.keys.mergeSort fun left right => !decide (right < left)

/-- The entry to which names lead. -/
def at? : FileEntry → Place → Option FileEntry
  | entry, [] => some entry
  | entry, name :: rest => (entry.child? name).bind (at? · rest)

/-- Puts an entry at a place. Folders on the way there that are missing are made. -/
def put : FileEntry → Place → FileEntry → FileEntry
  | _, [], new => new
  | entry, name :: rest, new =>
    .folder (entry.entries.insert name (((entry.child? name).getD emptyFolder).put rest new))

/-- Takes out what is at a place. -/
def remove : FileEntry → Place → FileEntry
  | _, [] => emptyFolder
  | entry, [name] => .folder (entry.entries.eraseWhere (· = name))
  | entry, name :: next :: rest =>
    match entry.child? name with
    | some inner => .folder (entry.entries.insert name (inner.remove (next :: rest)))
    | none => entry

mutual

/-- The entries at any depth below a folder, each with the names that lead to it. -/
def contents : FileEntry → List (Place × FileEntry)
  | .file _ => []
  | .folder ⟨entries⟩ => contentsAll entries

/-- The named entries and those at any depth below them. -/
def contentsAll : List (String × FileEntry) → List (Place × FileEntry)
  | [] => []
  | (name, entry) :: rest =>
    let inside := (contents entry).map fun inner => (name :: inner.1, inner.2)
    ([name], entry) :: inside ++ contentsAll rest

end

/-! ### What is found after an entry was put somewhere -/

theorem at?_cons (entry : FileEntry) (name : String) (rest : Place) :
    entry.at? (name :: rest) = (entry.child? name).bind (·.at? rest) := rfl

@[simp] theorem child?_emptyFolder (name : String) : emptyFolder.child? name = none := rfl

theorem child?_put_self (entry : FileEntry) (name : String) (rest : Place) (new : FileEntry) :
    (entry.put (name :: rest) new).child? name =
      some (((entry.child? name).getD emptyFolder).put rest new) :=
  Table.get?_insert_self ..

theorem child?_put_other (entry : FileEntry) {name other : String} (different : other ≠ name)
    (rest : Place) (new : FileEntry) :
    (entry.put (name :: rest) new).child? other = entry.child? other :=
  Table.get?_insert_other _ different _

theorem at?_put_self (entry : FileEntry) (place : Place) (new : FileEntry) :
    (entry.put place new).at? place = some new := by
  induction place generalizing entry with
  | nil => rfl
  | cons name rest inductionHypothesis =>
    rw [at?_cons, child?_put_self, Option.bind_some, inductionHypothesis]

theorem at?_put_apart (entry : FileEntry) {place other : Place} (notAbove : ¬ other <+: place)
    (notBelow : ¬ place <+: other) (new : FileEntry) :
    (entry.put place new).at? other = entry.at? other := by
  induction place generalizing other entry with
  | nil => exact absurd List.nil_prefix notBelow
  | cons name rest inductionHypothesis =>
    cases other with
    | nil => exact absurd List.nil_prefix notAbove
    | cons first others =>
      by_cases same : first = name
      · subst same
        simp only [List.cons_prefix_cons, true_and] at notAbove notBelow
        rw [at?_cons, at?_cons, child?_put_self, Option.bind_some,
          inductionHypothesis _ notAbove notBelow]
        cases entry.child? first with
        | some child => rfl
        | none =>
          cases others with
          | nil => exact absurd List.nil_prefix notAbove
          | cons second more => rfl
      · rw [at?_cons, at?_cons, child?_put_other entry same]

end FileEntry

end SourceCapture
