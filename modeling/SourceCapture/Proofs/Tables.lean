/-
What a table answers after insertions. A table is only ever looked at through the value of
a key, so two lists of entries are the same table when they give every key the same value.
For lists whose keys are distinct the value of a key is a question of membership, and the
order of the entries does not matter. That is what the files and the definitions of a run
are compared by, whatever order they are taken in.
-/

import Mathlib.Data.List.Perm.Basic
import Mathlib.Data.List.Nodup
import SourceCapture.Table

namespace SourceCapture.Table

variable {Key Value : Type} [DecidableEq Key]

/-! ### Single insertions -/

theorem get?_insert (table : Table Key Value) (key other : Key) (value : Value) :
    (table.insert key value).get? other =
      if other = key then some value else table.get? other := by
  by_cases same : other = key
  · rw [if_pos same, same, get?_insert_self]
  · rw [if_neg same, get?_insert_other table same]

theorem contains_iff (table : Table Key Value) (key : Key) :
    table.contains key = true ↔ ∃ value, table.get? key = some value :=
  Option.isSome_iff_exists

theorem contains_eq_false_iff (table : Table Key Value) (key : Key) :
    table.contains key = false ↔ table.get? key = none := by
  rw [contains, Option.isSome_eq_false_iff, Option.isNone_iff_eq_none]

/-! ### Entries with distinct keys -/

theorem find?_eq_none_iff (key : Key) (entries : List (Key × Value)) :
    find? key entries = none ↔ key ∉ entries.map Prod.fst := by
  induction entries with
  | nil => simp [find?]
  | cons entry rest inductionHypothesis =>
    obtain ⟨other, value⟩ := entry
    by_cases same : other = key
    · simp [find?, same]
    · simp [find?, same, Ne.symm same, inductionHypothesis]

theorem mem_of_find? {key : Key} {value : Value} {entries : List (Key × Value)}
    (found : find? key entries = some value) : (key, value) ∈ entries := by
  induction entries with
  | nil => simp [find?] at found
  | cons entry rest inductionHypothesis =>
    obtain ⟨other, old⟩ := entry
    by_cases same : other = key
    · rw [find?, if_pos same, Option.some.injEq] at found
      rw [← same, ← found]
      exact List.mem_cons_self
    · rw [find?, if_neg same] at found
      exact List.mem_cons_of_mem _ (inductionHypothesis found)

/-- Where no key comes twice, the value of a key is the one it stands beside. -/
theorem find?_eq_some_iff {entries : List (Key × Value)}
    (distinct : (entries.map Prod.fst).Nodup) (key : Key) (value : Value) :
    find? key entries = some value ↔ (key, value) ∈ entries := by
  refine ⟨mem_of_find?, fun member => ?_⟩
  induction entries with
  | nil => simp at member
  | cons entry rest inductionHypothesis =>
    obtain ⟨other, old⟩ := entry
    rw [List.map_cons, List.nodup_cons] at distinct
    rcases List.mem_cons.mp member with here | later
    · cases here
      rw [find?, if_pos rfl]
    · have apart : other ≠ key := by
        rintro rfl
        exact distinct.1 (List.mem_map.mpr ⟨(other, value), later, rfl⟩)
      rw [find?, if_neg apart]
      exact inductionHypothesis distinct.2 later

/-- The order of entries with distinct keys does not matter. -/
theorem find?_of_perm {left right : List (Key × Value)}
    (distinct : (left.map Prod.fst).Nodup) (perm : left.Perm right) (key : Key) :
    find? key left = find? key right := by
  have distinctRight : (right.map Prod.fst).Nodup := (perm.map Prod.fst).nodup_iff.mp distinct
  refine Option.ext fun value => ?_
  rw [find?_eq_some_iff distinct, find?_eq_some_iff distinctRight, perm.mem_iff]

/-- Inserting entries with distinct keys puts their values before those of the table. -/
theorem get?_foldl_insert {entries : List (Key × Value)}
    (distinct : (entries.map Prod.fst).Nodup) (table : Table Key Value) (key : Key) :
    (entries.foldl (fun current entry => current.insert entry.1 entry.2) table).get? key =
      (find? key entries).or (table.get? key) := by
  induction entries generalizing table with
  | nil => rfl
  | cons entry rest inductionHypothesis =>
    obtain ⟨other, value⟩ := entry
    rw [List.map_cons, List.nodup_cons] at distinct
    rw [List.foldl_cons, inductionHypothesis distinct.2, get?_insert]
    by_cases same : other = key
    · have absent : find? key rest = none := by
        rw [find?_eq_none_iff, ← same]
        exact distinct.1
      rw [find?, if_pos same, if_pos same.symm, absent, Option.none_or, Option.some_or]
    · rw [find?, if_neg same, if_neg (Ne.symm same)]

theorem get?_ofList {entries : List (Key × Value)} (distinct : (entries.map Prod.fst).Nodup)
    (key : Key) : (ofList entries).get? key = find? key entries := by
  rw [ofList, get?_foldl_insert distinct, get?_empty, Option.or_none]

/-! ### Keys -/

theorem mem_keys_iff (table : Table Key Value) (key : Key) :
    key ∈ table.keys ↔ table.contains key = true := by
  rw [← Bool.not_eq_false, contains_eq_false_iff, get?, find?_eq_none_iff, keys, not_not]

theorem entries_insert_of_fresh (table : Table Key Value) {key : Key} (value : Value)
    (fresh : table.get? key = none) :
    (table.insert key value).entries = table.entries ++ [(key, value)] := by
  obtain ⟨entries⟩ := table
  simp only [get?, insert] at fresh ⊢
  induction entries with
  | nil => rfl
  | cons entry rest inductionHypothesis =>
    obtain ⟨other, old⟩ := entry
    by_cases same : other = key
    · rw [find?, if_pos same] at fresh
      cases fresh
    · rw [find?, if_neg same] at fresh
      rw [put, if_neg same, inductionHypothesis fresh, List.cons_append]

theorem keys_insert_of_fresh (table : Table Key Value) {key : Key} (value : Value)
    (fresh : table.contains key = false) : (table.insert key value).keys = table.keys ++ [key] := by
  rw [contains_eq_false_iff] at fresh
  rw [keys, entries_insert_of_fresh table value fresh, List.map_append]
  rfl

theorem nodup_keys_insert_of_fresh {table : Table Key Value} {key : Key} (value : Value)
    (fresh : table.contains key = false) (distinct : table.keys.Nodup) :
    (table.insert key value).keys.Nodup := by
  rw [keys_insert_of_fresh table value fresh, List.nodup_append]
  refine ⟨distinct, List.nodup_singleton key, fun other member last same => ?_⟩
  rintro rfl
  rw [List.mem_singleton] at same
  rw [mem_keys_iff, same, fresh] at member
  cases member

omit [DecidableEq Key] in
theorem size_eq_length_keys (table : Table Key Value) : table.size = table.keys.length := by
  rw [size, keys, List.length_map]

theorem size_insert_of_fresh (table : Table Key Value) {key : Key} (value : Value)
    (fresh : table.contains key = false) : (table.insert key value).size = table.size + 1 := by
  rw [size_eq_length_keys, keys_insert_of_fresh table value fresh, List.length_append,
    size_eq_length_keys, List.length_singleton]

end SourceCapture.Table
