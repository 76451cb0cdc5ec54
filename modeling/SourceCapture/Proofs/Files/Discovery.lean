/-
The source files that are found in a store which has grown at a folder. A source root that has no
wildcards, only steps back from folders that are there and is not around the folder leads to a
folder with the same entries as before. So the same files are found below it, and they hold the
same bytes.
-/

import SourceCapture.Extraction
import SourceCapture.Proofs.Files.Search
import SourceCapture.Proofs.Fragments.OutputFolder

namespace SourceCapture

/-! ### What is at any depth below a folder -/

namespace FileEntry

theorem ne_nil_of_mem_contents (entry : FileEntry) :
    ∀ inner ∈ entry.contents, inner.1 ≠ [] := by
  cases entry with
  | file bytes => exact fun inner member => nomatch member
  | folder table =>
    obtain ⟨entries⟩ := table
    intro inner member
    rw [contents] at member
    induction entries with
    | nil => cases member
    | cons first rest inductionHypothesis =>
      obtain ⟨name, child⟩ := first
      rw [contentsAll] at member
      rcases List.mem_append.mp member with here | later
      · rcases List.mem_cons.mp here with rfl | below
        · exact List.cons_ne_nil _ _
        · obtain ⟨deeper, -, rfl⟩ := List.mem_map.mp below
          exact List.cons_ne_nil _ _
      · exact inductionHypothesis later

theorem mem_contents_of_child? {entry child : FileEntry} {name : String} {inner : Place × FileEntry}
    (found : entry.child? name = some child) (member : inner ∈ child.contents) :
    (name :: inner.1, inner.2) ∈ entry.contents := by
  cases entry with
  | file bytes => cases found
  | folder table =>
    obtain ⟨entries⟩ := table
    change Table.find? name entries = some child at found
    rw [contents]
    induction entries with
    | nil => cases found
    | cons first rest inductionHypothesis =>
      obtain ⟨other, otherChild⟩ := first
      rw [contentsAll]
      rw [Table.find?] at found
      split at found
      case isTrue same =>
        cases found
        rw [← same]
        refine List.mem_append_left _ (List.mem_cons_of_mem _ (List.mem_map.mpr ⟨inner, member, rfl⟩))
      case isFalse => exact List.mem_append_right _ (inductionHypothesis found)

/-- What is below an entry is below the folders around it. -/
theorem mem_contents_of_at? {entry found : FileEntry} {place : Place} {inner : Place × FileEntry}
    (here : entry.at? place = some found) (member : inner ∈ found.contents) :
    (place ++ inner.1, inner.2) ∈ entry.contents := by
  induction place generalizing entry with
  | nil =>
    cases here
    exact member
  | cons name rest inductionHypothesis =>
    rw [at?_cons] at here
    obtain ⟨child, first, below⟩ := Option.bind_eq_some_iff.mp here
    exact mem_contents_of_child? first (inductionHypothesis below)

end FileEntry

/-! ### Paths that are found -/

/-- Whether the names in a store are names of entries, as in every file system. -/
def FileStore.WellNamed (store : FileStore) : Prop :=
  ∀ inner ∈ store.root.contents, ∀ name ∈ inner.1, Path.IsEntryName name

instance (name : String) : Decidable (Path.IsEntryName name) :=
  decidable_of_iff ('/' ∉ name.toList ∧ name.toList ≠ [] ∧ name.toList ≠ ['.'] ∧
      name.toList ≠ ['.', '.'])
    ⟨fun ⟨noSlash, nonempty, notDot, notDots⟩ => ⟨noSlash, nonempty, notDot, notDots⟩,
      fun ⟨noSlash, nonempty, notDot, notDots⟩ => ⟨noSlash, nonempty, notDot, notDots⟩⟩

instance (store : FileStore) : Decidable store.WellNamed :=
  inferInstanceAs (Decidable (∀ inner ∈ store.root.contents, ∀ name ∈ inner.1, _))

namespace Path

theorem movesOf_names {names : List String} (proper : ∀ name ∈ names, IsEntryName name) :
    movesOf (names.map String.toList) = names.map .entry := by
  induction names with
  | nil => rfl
  | cons name rest inductionHypothesis =>
    rw [List.map_cons, (proper name List.mem_cons_self).movesOf_cons,
      inductionHypothesis fun other member => proper other (List.mem_cons_of_mem _ member)]
    rfl

/-- Names that are joined to a path lead further down by these names. -/
theorem join_names (path : Path) {names : List String} (nonempty : names ≠ [])
    (proper : ∀ name ∈ names, IsEntryName name) :
    (path.join ("/".intercalate names)).isAbsolute = path.isAbsolute ∧
      (path.join ("/".intercalate names)).writtenPlace = path.writtenPlace ++ names := by
  have segments : ("/".intercalate names).toList.splitOn '/' = names.map String.toList := by
    rw [String.toList_intercalate]
    refine List.splitOn_intercalate '/' (fun segment member => ?_) ?_
    · obtain ⟨name, inside, rfl⟩ := List.mem_map.mp member
      exact (proper name inside).noSlash
    · rw [ne_eq, List.map_eq_nil_iff]
      exact nonempty
  have relative : ("/".intercalate names).toList.head? ≠ some '/' := by
    intro slash
    obtain ⟨rest, text⟩ := List.head?_eq_some_iff.mp slash
    obtain ⟨first, others, rfl⟩ := List.exists_cons_of_ne_nil nonempty
    have starts : ('/' :: rest).splitOn '/' = [] :: rest.splitOn '/' :=
      List.splitOn_append_cons_self [] rest
    rw [text, starts, List.map_cons] at segments
    exact (proper first List.mem_cons_self).nonempty (List.cons.inj segments).1.symm
  refine ⟨isAbsolute_join path relative, ?_⟩
  rw [writtenPlace, moves_join path relative, segments, movesOf_names proper, placeAfter,
    List.foldl_append, foldl_moveFrom_entries]
  rfl

end Path

namespace FileStore

variable {store after : FileStore} {folder : Place} {path : Path}

theorem mem_leadsInto {entry : FileEntry} {lead : Lead} (member : lead ∈ leadsInto path entry) :
    ∃ inner ∈ entry.contents, lead.path = path.join ("/".intercalate inner.1) := by
  rw [leadsInto] at member
  obtain ⟨inner, sorted, rfl⟩ := List.mem_map.mp member
  exact ⟨inner, List.mem_mergeSort.mp sorted, rfl⟩

/-- A path is found below a folder. -/
def FoundBelow (place : Place) (path : Path) : Prop :=
  path.isAbsolute = true ∧ ∃ names, names ≠ [] ∧ path.writtenPlace = place ++ names

theorem foundBelow_of_leadsBelow (named : store.WellNamed) (absolute : path.isAbsolute = true)
    {leads : List Lead} (found : store.leadsBelow ⟨path, true⟩ = .ok leads) :
    ∀ lead ∈ leads, FoundBelow path.writtenPlace lead.path := by
  intro lead member
  obtain ⟨place, entries, located, rfl, -⟩ := (leadsBelow_eq_ok_iff path leads).mp found
  obtain ⟨inner, below, same⟩ := mem_leadsInto member
  have nonempty := FileEntry.ne_nil_of_mem_contents _ inner below
  have inStore := FileEntry.mem_contents_of_at? (entryAt?_of_locate located) below
  have proper : ∀ name ∈ inner.1, Path.IsEntryName name := fun name inside =>
    named _ inStore name (List.mem_append_right _ inside)
  obtain ⟨still, written⟩ := Path.join_names path nonempty proper
  rw [same]
  exact ⟨still.trans absolute, inner.1, nonempty, written⟩

/-! ### Two stores -/

theorem GrowsTo.isFolder (grows : store.GrowsTo after) (here : store.isFolder path = true) :
    after.isFolder path = true := by
  obtain ⟨place, entries, located⟩ := (isFolder_iff_locate path).mp here
  obtain ⟨others, there⟩ := grows.folder place ⟨entries, entryAt?_of_locate located⟩
  exact (isFolder_iff_locate path).mpr ⟨place, others, grows.locate located there⟩

/-- Whether what is below a path is looked for in a folder that is not around another one, and on
the way to it nothing is stepped back from but folders that are there. -/
structure LooksApart (store : FileStore) (folder : Place) (path : Path) : Prop where
  plain : Glob.IsPlain path.text.toList
  inside : store.StepsBackInside path.moves
  notAround : ¬ path.writtenPlace <+: folder

instance (store : FileStore) (folder : Place) (path : Path) :
    Decidable (store.LooksApart folder path) :=
  decidable_of_iff (Glob.IsPlain path.text.toList ∧ store.StepsBackInside path.moves ∧
      ¬ path.writtenPlace <+: folder)
    ⟨fun ⟨plain, inside, notAround⟩ => ⟨plain, inside, notAround⟩,
      fun ⟨plain, inside, notAround⟩ => ⟨plain, inside, notAround⟩⟩

namespace GrowsAt

/-- A path that is not around the folder at which a store has grown leads to a folder if it did. -/
theorem isFolder_eq (grows : store.GrowsAt folder after) (rooted : store.Rooted)
    (absolute : path.isAbsolute = true) (inside : store.StepsBackInside path.moves)
    (notAround : ¬ path.writtenPlace <+: folder) : after.isFolder path = store.isFolder path := by
  refine Bool.eq_iff_iff.mpr ⟨fun there => ?_, grows.grows.isFolder⟩
  obtain ⟨faultless, passes, short⟩ :=
    (isFolder_iff (grows.grows.rooted rooted) absolute).mp there
  refine (isFolder_iff rooted absolute).mpr ⟨faultless, ?_, short⟩
  refine inside.passes (fun move member => Path.eq_parent_or_entry_of_mem_movesOf member) ?_
  exact (grows.hasFolder_iff notAround).mp passes.hasFolder

theorem leadsBelow (grows : store.GrowsAt folder after) (absolute : path.isAbsolute = true)
    (notAround : ¬ path.writtenPlace <+: folder) {leads : List Lead}
    (found : store.leadsBelow ⟨path, true⟩ = .ok leads) :
    after.leadsBelow ⟨path, true⟩ = .ok leads := by
  obtain ⟨place, entries, located, rfl, folders⟩ := (leadsBelow_eq_ok_iff path leads).mp found
  have here : place = path.writtenPlace := eq_writtenPlace_of_locate absolute located
  rw [← here] at notAround
  have there := (grows.entries_iff place notAround entries).mpr (entryAt?_of_locate located)
  exact (leadsBelow_eq_ok_iff path _).mpr ⟨place, entries, grows.grows.locate located there, rfl,
    fun lead member inner => grows.grows.isFolder (folders lead member inner)⟩

/-- A search below a path finds the same in a store that has not grown below the path. -/
theorem search (grows : store.GrowsAt folder after) (rooted : store.Rooted)
    (named : store.WellNamed) (absolute : path.isAbsolute = true)
    (looks : store.LooksApart folder path) {extension : String} (noSlash : '/' ∉ extension.toList)
    {paths : List Path} (found : store.search (patternBelow path extension).toList = .ok paths) :
    after.search (patternBelow path extension).toList = .ok paths ∧
      ∀ found ∈ paths, FoundBelow path.writtenPlace found := by
  obtain ⟨plain, inside, notAround⟩ := looks
  obtain ⟨keep, search⟩ := exists_search_eq absolute plain noSlash found
  have rootAbsolute := isAbsolute_searchRoot path
  have moves := moves_searchRoot absolute
  have written : (searchRoot path).writtenPlace = path.writtenPlace := congrArg Path.placeAfter moves
  rw [← written] at notAround ⊢
  rw [← moves] at inside
  rw [search after (grows.grows.rooted rooted), grows.isFolder_eq rooted rootAbsolute inside notAround]
  rw [search store rooted] at found
  split at found
  case isFalse noFolder =>
    cases found
    rw [if_neg noFolder]
    exact ⟨rfl, fun _ member => nomatch member⟩
  case isTrue there =>
    rw [if_pos there]
    cases listed : store.leadsBelow ⟨searchRoot path, true⟩ with
    | error cause =>
      rw [listed] at found
      cases found
    | ok leads =>
      rw [listed] at found
      cases found
      rw [grows.leadsBelow rootAbsolute notAround listed]
      refine ⟨rfl, fun found member => ?_⟩
      obtain ⟨lead, kept, rfl⟩ := List.mem_map.mp member
      exact foundBelow_of_leadsBelow named rootAbsolute listed lead (List.mem_of_mem_filter kept)

/-- A text that is found below a path is read as before in a store that has not grown below it. -/
theorem readText (grows : store.GrowsAt folder after) {place : Place} {found : Path}
    (notAround : ¬ place <+: folder) (below : FoundBelow place found) {text : String}
    (read : store.readText found = .ok text) : after.readText found = .ok text := by
  obtain ⟨absolute, names, nonempty, written⟩ := below
  rw [FileStore.readText] at read ⊢
  cases bytes : store.readBytes found with
  | error cause =>
    rw [bytes] at read
    cases read
  | ok bytesThere =>
    obtain ⟨spot, here, held⟩ := (readBytes_eq_ok_iff found bytesThere).mp bytes
    have same : ∀ name, spot ≠ folder ++ [name] := by
      intro name same
      obtain ⟨front, last, rfl⟩ := (List.eq_nil_or_concat names).resolve_left nonempty
      have spotWritten := (eq_writtenPlace_of_place? absolute here).trans written
      rw [same, List.concat_eq_append, ← List.append_assoc] at spotWritten
      obtain ⟨around, -⟩ := List.append_inj' spotWritten rfl
      exact notAround (around ▸ List.prefix_append place front)
    have again : after.readBytes found = .ok bytesThere := by
      refine (readBytes_eq_ok_iff _ _).mpr ⟨spot, grows.grows.place? here, ?_⟩
      rw [grows.bytesAt? spot same, held]
    rw [again]
    rw [bytes] at read
    exact read

end GrowsAt

end FileStore

end SourceCapture
