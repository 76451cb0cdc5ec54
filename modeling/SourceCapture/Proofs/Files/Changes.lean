/-
What writing a file and making folders change. Both put something at one place, in a folder
that is there and where no folder is. So all that was in the store stays, the folders too, and
only at that one place there are other bytes than before. Making folders changes no file.
-/

import SourceCapture.Proofs.Files.Following

namespace SourceCapture

namespace FileEntry

/-- On the way to what was put somewhere there are folders. -/
theorem exists_folder_put (entry : FileEntry) (place : Place) (name : String) (rest : Place)
    (new : FileEntry) :
    ∃ entries, (entry.put (place ++ name :: rest) new).at? place = some (.folder entries) := by
  induction place generalizing entry with
  | nil => exact ⟨_, rfl⟩
  | cons first more inductionHypothesis =>
    rw [List.cons_append, at?_cons, child?_put_self, Option.bind_some]
    exact inductionHypothesis _

end FileEntry

namespace FileStore

variable {store : FileStore} {place : Place}

/-- Whether something can be put at a place and nothing is lost by it. -/
structure Takes (store : FileStore) (place : Place) : Prop where
  noFolder : ¬ store.HasFolder place
  around : ∀ front name, place = front ++ [name] → store.HasFolder front

namespace Takes

theorem hasFolder {front : Place} {name : String} {rest : Place}
    (takes : store.Takes (front ++ name :: rest)) : store.HasFolder front := by
  rcases List.eq_nil_or_concat rest with rfl | ⟨inner, last, rfl⟩
  · exact takes.around front name rfl
  · obtain ⟨entries, found⟩ := takes.around (front ++ name :: inner) last (by simp)
    exact store.hasFolder_of_entryAt?_append found

/-- Below a place that can be taken there is nothing. -/
theorem entryAt?_below (takes : store.Takes place) (name : String) (rest : Place) :
    store.entryAt? (place ++ name :: rest) = none := by
  refine Option.eq_none_iff_forall_ne_some.mpr fun entry found => ?_
  exact takes.noFolder (store.hasFolder_of_entryAt?_append found)

/-- A place other than the one where something is put is around it, below it or apart from it. -/
theorem cases_put (takes : store.Takes place) (entry : FileEntry) {other : Place}
    (different : other ≠ place) :
    store.HasFolder other ∧ (store.put place entry).HasFolder other ∨
      (∃ name rest, other = place ++ name :: rest) ∨
        (store.put place entry).entryAt? other = store.entryAt? other := by
  by_cases above : other <+: place
  · obtain ⟨between, rfl⟩ := above
    cases between with
    | nil => exact absurd (List.append_nil other).symm different
    | cons name rest =>
      exact Or.inl ⟨takes.hasFolder, FileEntry.exists_folder_put store.root other name rest entry⟩
  by_cases below : place <+: other
  · obtain ⟨between, rfl⟩ := below
    cases between with
    | nil => exact absurd (List.append_nil place) different
    | cons name rest => exact Or.inr (Or.inl ⟨name, rest, rfl⟩)
  exact Or.inr (Or.inr (store.entryAt?_put_apart above below entry))

theorem hasFolder_put (takes : store.Takes place) (entry : FileEntry) {other : Place}
    (folder : store.HasFolder other) : (store.put place entry).HasFolder other := by
  have different : other ≠ place := by
    rintro rfl
    exact takes.noFolder folder
  rcases takes.cases_put entry different with ⟨_, there⟩ | ⟨name, rest, rfl⟩ | same
  · exact there
  · obtain ⟨entries, found⟩ := folder
    rw [takes.entryAt?_below] at found
    cases found
  · rw [HasFolder, same]
    exact folder

end Takes

theorem HasFolder.bytesAt? (folder : store.HasFolder place) : store.bytesAt? place = none := by
  obtain ⟨entries, found⟩ := folder
  rw [FileStore.bytesAt?, found]
  rfl

/-- What has nothing in it is put at a place without a change of other files. -/
theorem Takes.bytesAt?_put (takes : store.Takes place) {entry : FileEntry}
    (childless : ∀ name, entry.child? name = none) (other : Place) :
    (store.put place entry).bytesAt? other =
      if other = place then entry.bytes? else store.bytesAt? other := by
  by_cases same : other = place
  · rw [if_pos same, same, bytesAt?, entryAt?_put_self, Option.bind_some]
  · rw [if_neg same]
    rcases takes.cases_put entry same with ⟨here, there⟩ | ⟨name, rest, rfl⟩ | same
    · rw [here.bytesAt?, there.bytesAt?]
    · have nothing : (store.put place entry).entryAt? (place ++ name :: rest) = none := by
        have there := store.entryAt?_put_self place entry
        rw [entryAt?] at there ⊢
        rw [FileEntry.at?_append, there, Option.bind_some, FileEntry.at?_cons, childless]
        rfl
      rw [bytesAt?, bytesAt?, nothing, takes.entryAt?_below]
    · rw [bytesAt?, bytesAt?, same]

/-! ### Reading -/

theorem place?_eq_some_iff (path : Path) :
    store.place? path = some place ↔ ∃ entry, store.locate path = .ok (.taken place entry) := by
  rw [place?]
  constructor
  · intro found
    split at found
    case h_1 here entry located =>
      cases found
      exact ⟨entry, located⟩
    case h_2 => cases found
  · rintro ⟨entry, located⟩
    rw [located]

theorem locate_eq_ok_iff (path : Path) (spot : Spot) :
    store.locate path = .ok spot ↔ faultOf? path = none ∧
      store.Follows [] (store.startOf path ++ path.text.toList.splitOn '/') spot := by
  rw [locate, locateAlong, ← follow_eq_ok_iff]
  cases faultOf? path with
  | none => rw [eq_self, true_and]
  | some cause =>
    constructor
    · rintro ⟨⟩
    · rintro ⟨⟨⟩, -⟩

theorem entryAt?_of_locate {path : Path} {entry : FileEntry}
    (located : store.locate path = .ok (.taken place entry)) :
    store.entryAt? place = some entry :=
  ((locate_eq_ok_iff path _).mp located).2.entryAt?_of_taken leads_nil

/-- The bytes that are read are those at the place to which the path leads. -/
theorem readBytes_eq_ok_iff (path : Path) (bytes : ByteArray) :
    store.readBytes path = .ok bytes ↔
      ∃ place, store.place? path = some place ∧ store.bytesAt? place = some bytes := by
  constructor
  · intro read
    rw [readBytes] at read
    split at read
    case h_1 place others located =>
      cases read
      refine ⟨place, (place?_eq_some_iff path).mpr ⟨_, located⟩, ?_⟩
      exact (store.bytesAt?_eq_some_iff place _).mpr (entryAt?_of_locate located)
    case h_2 => cases read
    case h_3 => cases read
    case h_4 => cases read
  · rintro ⟨place, here, found⟩
    obtain ⟨entry, located⟩ := (place?_eq_some_iff path).mp here
    rw [store.bytesAt?_eq_some_iff, entryAt?_of_locate located] at found
    cases found
    rw [readBytes, located]

namespace GrowsTo

variable {before after : FileStore}

theorem locate (grows : before.GrowsTo after) {path : Path} {spot : Spot} {entry : FileEntry}
    (located : before.locate path = .ok spot) (found : after.entryAt? spot.place = some entry) :
    after.locate path = .ok (.taken spot.place entry) := by
  obtain ⟨faultless, follows⟩ := (locate_eq_ok_iff path spot).mp located
  have start : after.startOf path = before.startOf path := by
    rw [startOf, startOf, grows.workingPlace]
  rw [locate_eq_ok_iff, start]
  exact ⟨faultless, grows.follows leads_nil leads_nil rfl follows found⟩

/-- A path leads to the same place in a store that has grown. -/
theorem place? (grows : before.GrowsTo after) {path : Path} (found : before.place? path = some place) :
    after.place? path = some place := by
  obtain ⟨entry, located⟩ := (place?_eq_some_iff path).mp found
  obtain ⟨other, there⟩ := grows.entryAt? (entryAt?_of_locate located)
  exact (place?_eq_some_iff path).mpr ⟨other, grows.locate located there⟩

theorem rooted (grows : before.GrowsTo after) (rooted : before.Rooted) : after.Rooted :=
  grows.folder [] rooted

end GrowsTo

/-! ### Writing -/

theorem takes_of_bytesAt? {bytes : ByteArray} (found : store.bytesAt? place = some bytes) :
    store.Takes place where
  noFolder folder := by
    rw [folder.bytesAt?] at found
    cases found
  around front name same := by
    rw [bytesAt?_eq_some_iff, same] at found
    exact store.hasFolder_of_entryAt?_append found

theorem takes_of_locateAlong_free {path : Path} {segments : List (List Char)}
    (rooted : store.Rooted) (located : store.locateAlong path segments = .ok (.free place)) :
    store.Takes place ∧ store.entryAt? place = none := by
  rw [locateAlong] at located
  split at located
  case h_1 => cases located
  case h_2 =>
    obtain ⟨nothing, front, name, rfl, folder⟩ :=
      (follow_eq_ok_iff.mp located).exists_folder_of_free rooted leads_nil
    refine ⟨⟨fun ⟨entries, found⟩ => ?_, fun other last same => ?_⟩, nothing⟩
    · rw [nothing] at found
      cases found
    · obtain ⟨rfl, -⟩ := List.append_inj' same rfl
      exact folder

/-- A path without a slash at its end is followed whole when a file is written. -/
theorem withoutTrailingSlashes_eq {path : Path}
    (none : (withoutTrailingSlashes path).2 = false) :
    (withoutTrailingSlashes path).1 = path.text.toList.splitOn '/' := by
  rw [withoutTrailingSlashes] at none ⊢
  dsimp only at none ⊢
  rw [decide_eq_false_iff_not, Nat.not_lt, List.length_reverse] at none
  have suffix := List.dropWhile_suffix List.isEmpty (l := (path.text.toList.splitOn '/').reverse)
  rw [suffix.eq_of_length_le (by rw [List.length_reverse]; exact none), List.reverse_reverse]

/-- A file that is written is at one place afterwards, and nothing else has changed. -/
theorem exists_put_of_writeBytes {path : Path} {bytes : ByteArray} {after : FileStore}
    (rooted : store.Rooted) (wrote : store.writeBytes path bytes = .ok after) :
    ∃ place, store.Takes place ∧ after = store.put place (.file bytes) ∧
      ∃ spot, spot.place = place ∧ store.locate path = .ok spot := by
  rw [writeBytes] at wrote
  dsimp only at wrote
  split at wrote
  case h_1 => cases wrote
  case h_2 place others located =>
    split at wrote
    · cases wrote
    case isFalse noSlash =>
      cases wrote
      rw [withoutTrailingSlashes_eq (by simpa using noSlash)] at located
      refine ⟨place, ?_, rfl, _, rfl, located⟩
      exact takes_of_bytesAt? ((bytesAt?_eq_some_iff ..).mpr (entryAt?_of_locate located))
  case h_3 place located =>
    split at wrote
    · cases wrote
    case isFalse noSlash =>
      cases wrote
      refine ⟨place, (takes_of_locateAlong_free rooted located).1, rfl, ?_⟩
      rw [withoutTrailingSlashes_eq (by simpa using noSlash)] at located
      exact ⟨_, rfl, located⟩
  case h_4 => cases wrote

theorem growsTo_put_file (takes : store.Takes place) (bytes : ByteArray) :
    store.GrowsTo (store.put place (.file bytes)) where
  workingPlace := rfl
  folder _ folder := takes.hasFolder_put _ folder
  file other here := by
    rw [takes.bytesAt?_put (FileEntry.child?_file bytes)]
    split
    · rfl
    · exact here

/-- A written file is read back, and all other files are as before. What was at its place
could be read before. -/
theorem writeBytes_spec {path : Path} {bytes : ByteArray} {after : FileStore}
    (rooted : store.Rooted) (wrote : store.writeBytes path bytes = .ok after) :
    store.GrowsTo after ∧ ∃ place, after.place? path = some place ∧
      (∀ other,
        after.bytesAt? other = if other = place then some bytes else store.bytesAt? other) ∧
      ∀ old, store.bytesAt? place = some old → store.readBytes path = .ok old := by
  obtain ⟨place, takes, rfl, spot, rfl, located⟩ := exists_put_of_writeBytes rooted wrote
  have grows := growsTo_put_file takes bytes
  have there := store.entryAt?_put_self spot.place (.file bytes)
  refine ⟨grows, spot.place, ?_, takes.bytesAt?_put (FileEntry.child?_file bytes), ?_⟩
  · exact (place?_eq_some_iff path).mpr ⟨_, grows.locate located there⟩
  · intro old found
    have here := (bytesAt?_eq_some_iff ..).mp found
    have same := (GrowsTo.refl store).locate located here
    exact (readBytes_eq_ok_iff path old).mpr ⟨_, (place?_eq_some_iff path).mpr ⟨_, same⟩, found⟩

/-! ### Making folders -/

/-- Whether a store has grown by nothing but folders. -/
structure AddsFolders (before after : FileStore) : Prop where
  grows : before.GrowsTo after
  bytesAt? : ∀ place, after.bytesAt? place = before.bytesAt? place

namespace AddsFolders

variable {before after later : FileStore}

theorem refl (store : FileStore) : store.AddsFolders store := ⟨.refl store, fun _ => rfl⟩

theorem trans (first : before.AddsFolders after) (second : after.AddsFolders later) :
    before.AddsFolders later :=
  ⟨first.grows.trans second.grows, fun place => (second.bytesAt? place).trans (first.bytesAt? place)⟩

end AddsFolders

theorem addsFolders_put {place : Place} (takes : store.Takes place)
    (nothing : store.entryAt? place = none) : store.AddsFolders (store.put place .emptyFolder) := by
  have same : ∀ other, (store.put place .emptyFolder).bytesAt? other = store.bytesAt? other := by
    intro other
    rw [takes.bytesAt?_put FileEntry.child?_emptyFolder]
    split
    case isTrue here =>
      rw [here, bytesAt?, nothing]
      rfl
    case isFalse => rfl
  refine ⟨⟨rfl, fun _ folder => takes.hasFolder_put _ folder, fun other here => ?_⟩, same⟩
  rw [same]
  exact here

/-- A made folder is put where a path leads and nothing is yet. -/
theorem exists_put_of_makeFolder {path : Path} {made : FileStore} (rooted : store.Rooted)
    (makes : store.makeFolder path = .ok made) :
    ∃ place, store.locateAlong path (withoutTrailingSlashes path).1 = .ok (.free place) ∧
      store.Takes place ∧ store.entryAt? place = none ∧ made = store.put place .emptyFolder := by
  rw [makeFolder] at makes
  split at makes
  case h_1 => cases makes
  case h_2 place located =>
    cases makes
    obtain ⟨takes, nothing⟩ := takes_of_locateAlong_free rooted located
    exact ⟨place, located, takes, nothing, rfl⟩
  case h_3 => cases makes

theorem addsFolders_makeFolder {path : Path} {made : FileStore} (rooted : store.Rooted)
    (makes : store.makeFolder path = .ok made) : store.AddsFolders made := by
  obtain ⟨place, -, takes, nothing, rfl⟩ := exists_put_of_makeFolder rooted makes
  exact addsFolders_put takes nothing

/-- What every made folder keeps is kept when folders are made. -/
theorem kept_by_makeFoldersAlong (Keeps : FileStore → FileStore → Prop)
    (refl : ∀ store, Keeps store store)
    (trans : ∀ before after later, Keeps before after → Keeps after later → Keeps before later)
    {paths : List (List (List Char))}
    (step : ∀ backwards ∈ paths, ∀ before made, Keeps store before →
      before.makeFolder ⟨String.ofList (['/'].intercalate backwards.reverse)⟩ = .ok made →
        Keeps before made) :
    Keeps store (store.makeFoldersAlong paths).2 := by
  induction paths with
  | nil => exact refl store
  | cons backwards around inductionHypothesis =>
    have last := step backwards List.mem_cons_self
    have others := inductionHypothesis fun other member => step other (List.mem_cons_of_mem _ member)
    rw [makeFoldersAlong]
    split
    case h_1 made makes => exact last store made (refl store) makes
    case h_2 =>
      split
      case h_1 within makes =>
        rw [makes] at others
        split
        case h_1 made more => exact trans _ _ _ others (last within made others more)
        case h_2 => exact others
      case h_2 cause within makes =>
        rw [makes] at others
        exact others
    case h_3 => exact refl store

/-- Making a folder and those around it changes no file. -/
theorem addsFolders_makeFolders (rooted : store.Rooted) (path : Path) :
    store.AddsFolders (store.makeFolders path).2 :=
  kept_by_makeFoldersAlong AddsFolders .refl (fun _ _ _ => .trans) fun _ _ _ _ kept makes =>
    addsFolders_makeFolder (kept.grows.rooted rooted) makes

end FileStore

end SourceCapture
