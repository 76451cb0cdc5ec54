/-
A table gives each key at most one value. It is kept as a list of entries in the
order in which the keys first came, because the tables of this library are small
and because a list is easy to reason about: a look-up takes the first entry of its
key, and an insertion overwrites that entry or adds one at the end.
-/

namespace SourceCapture

/-- A finite map, its keys in the order of their first insertion. -/
structure Table (Key Value : Type) where
  entries : List (Key × Value) := []

namespace Table

variable {Key Value : Type} [DecidableEq Key]

/-- The table without entries. -/
def empty : Table Key Value := ⟨[]⟩

instance : Inhabited (Table Key Value) := ⟨empty⟩

/-- The value of the first entry with this key. -/
def find? (key : Key) : List (Key × Value) → Option Value
  | [] => none
  | (other, value) :: rest => if other = key then some value else find? key rest

/-- The entries with the value of `key` replaced, or with a new entry at the end. -/
def put (key : Key) (value : Value) : List (Key × Value) → List (Key × Value)
  | [] => [(key, value)]
  | (other, old) :: rest =>
    if other = key then (key, value) :: rest else (other, old) :: put key value rest

/-- The value of a key. -/
def get? (table : Table Key Value) (key : Key) : Option Value := find? key table.entries

/-- Whether a key has a value. -/
def contains (table : Table Key Value) (key : Key) : Bool := (table.get? key).isSome

/-- Gives a key a value, in place of the one it may have had. -/
def insert (table : Table Key Value) (key : Key) (value : Value) : Table Key Value :=
  ⟨put key value table.entries⟩

/-- Takes every entry whose key satisfies the test out of the table. -/
def eraseWhere (table : Table Key Value) (test : Key → Bool) : Table Key Value :=
  ⟨table.entries.filter fun entry => !test entry.1⟩

/-- The keys, each of them once. -/
def keys (table : Table Key Value) : List Key := table.entries.map (·.1)

/-- The number of keys with a value. -/
def size (table : Table Key Value) : Nat := table.entries.length

/-- Inserts the entries one after the other; of two with one key the later stays. -/
def ofList (entries : List (Key × Value)) : Table Key Value :=
  entries.foldl (fun table entry => table.insert entry.1 entry.2) empty

/-! ### What an insertion changes -/

theorem find?_put_self (key : Key) (value : Value) (entries : List (Key × Value)) :
    find? key (put key value entries) = some value := by
  induction entries with
  | nil => simp [put, find?]
  | cons entry rest inductionHypothesis =>
    by_cases same : entry.1 = key
    · simp [put, find?, same]
    · simp [put, find?, same, inductionHypothesis]

theorem find?_put_other {key other : Key} (different : other ≠ key) (value : Value)
    (entries : List (Key × Value)) :
    find? other (put key value entries) = find? other entries := by
  induction entries with
  | nil => simp [put, find?, Ne.symm different]
  | cons entry rest inductionHypothesis =>
    by_cases same : entry.1 = key
    · have apart : entry.1 ≠ other := fun equal => different (equal ▸ same)
      simp [put, find?, same, Ne.symm different]
    · by_cases found : entry.1 = other
      · simp [put, find?, found, different]
      · simp [put, find?, same, found, inductionHypothesis]

@[simp] theorem get?_empty (key : Key) : (empty : Table Key Value).get? key = none := rfl

@[simp] theorem get?_insert_self (table : Table Key Value) (key : Key) (value : Value) :
    (table.insert key value).get? key = some value :=
  find?_put_self key value table.entries

theorem get?_insert_other (table : Table Key Value) {key other : Key} (different : other ≠ key)
    (value : Value) : (table.insert key value).get? other = table.get? other :=
  find?_put_other different value table.entries

end Table

end SourceCapture
