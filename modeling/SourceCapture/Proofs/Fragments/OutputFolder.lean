/-
What emitting fragments changes in the tree of files. The folders that are made are on the way to
the output folder, provided its path only steps back from folders that are there, and the files are
in that folder. So a folder elsewhere has the same entries as before.
-/

import Mathlib.Data.List.TakeWhile
import SourceCapture.Proofs.Files.Moves
import SourceCapture.Proofs.Fragments.Answers
import SourceCapture.Proofs.Text.Splits

namespace SourceCapture

namespace FileStore

variable {store made after later : FileStore} {place folder : Place}

/-! ### Growing at a folder -/

/-- Whether a store has grown by no more than the folders on the way to one and files in it. -/
structure GrowsAt (before : FileStore) (folder : Place) (after : FileStore) : Prop where
  grows : before.GrowsTo after
  entries_iff : ∀ other, ¬ other <+: folder → ∀ entries,
    after.entryAt? other = some (.folder entries) ↔ before.entryAt? other = some (.folder entries)
  bytesAt? : ∀ other, (∀ name, other ≠ folder ++ [name]) →
    after.bytesAt? other = before.bytesAt? other

namespace GrowsAt

theorem refl (store : FileStore) (folder : Place) : store.GrowsAt folder store :=
  ⟨.refl store, fun _ _ _ => Iff.rfl, fun _ _ => rfl⟩

theorem trans (first : store.GrowsAt folder made) (second : made.GrowsAt folder after) :
    store.GrowsAt folder after where
  grows := first.grows.trans second.grows
  entries_iff other notAbove entries :=
    (second.entries_iff other notAbove entries).trans (first.entries_iff other notAbove entries)
  bytesAt? other elsewhere := (second.bytesAt? other elsewhere).trans (first.bytesAt? other elsewhere)

theorem hasFolder_iff (grows : store.GrowsAt folder after) (notAbove : ¬ place <+: folder) :
    after.HasFolder place ↔ store.HasFolder place :=
  exists_congr (grows.entries_iff place notAbove)

end GrowsAt

/-- What has nothing in it is put at a place without a change of what is not around it. -/
theorem Takes.entryAt?_put {entry : FileEntry} {other : Place} (takes : store.Takes place)
    (childless : ∀ name, entry.child? name = none) (notAbove : ¬ other <+: place) :
    (store.put place entry).entryAt? other = store.entryAt? other := by
  by_cases below : place <+: other
  · obtain ⟨between, rfl⟩ := below
    cases between with
    | nil =>
      rw [List.append_nil] at notAbove
      exact absurd List.prefix_rfl notAbove
    | cons name rest =>
      have there := store.entryAt?_put_self place entry
      rw [takes.entryAt?_below]
      rw [entryAt?] at there ⊢
      rw [FileEntry.at?_append, there, Option.bind_some, FileEntry.at?_cons, childless]
      rfl
  · exact store.entryAt?_put_apart notAbove below entry

theorem growsAt_put_folder (takes : store.Takes place) (nothing : store.entryAt? place = none)
    (onTheWay : place <+: folder) : store.GrowsAt folder (store.put place .emptyFolder) := by
  have adds := addsFolders_put takes nothing
  refine ⟨adds.grows, fun other notAbove entries => ?_, fun other _ => adds.bytesAt? other⟩
  rw [takes.entryAt?_put FileEntry.child?_emptyFolder fun above => notAbove (above.trans onTheWay)]

theorem growsAt_put_file {name : String} (takes : store.Takes (folder ++ [name]))
    (bytes : ByteArray) : store.GrowsAt folder (store.put (folder ++ [name]) (.file bytes)) := by
  refine ⟨growsTo_put_file takes bytes, fun other notAbove entries => ?_, fun other elsewhere => ?_⟩
  · by_cases same : other = folder ++ [name]
    · rw [same, entryAt?_put_self]
      refine iff_of_false (fun file => nomatch file) fun found => takes.noFolder ⟨entries, found⟩
    · have outside : ¬ other <+: folder ++ [name] := fun above =>
        (List.prefix_concat_iff.mp above).elim same notAbove
      rw [takes.entryAt?_put (FileEntry.child?_file bytes) outside]
  · rw [takes.bytesAt?_put (FileEntry.child?_file bytes), if_neg (elsewhere name)]

/-! ### Making a folder and those around it -/

theorem movesOf_withoutTrailingSlashes (path : Path) :
    Path.movesOf (withoutTrailingSlashes path).1 = path.moves := by
  rw [withoutTrailingSlashes, Path.moves]
  dsimp only
  generalize path.text.toList.splitOn '/' = segments
  have kept : segments = ((segments.reverse.dropWhile (·.isEmpty)).reverse ++
      (segments.reverse.takeWhile (·.isEmpty)).reverse) := by
    rw [← List.reverse_append, List.takeWhile_append_dropWhile, List.reverse_reverse]
  have idle : Path.movesOf (segments.reverse.takeWhile (·.isEmpty)).reverse = [] := by
    refine List.filterMap_eq_nil_iff.mpr fun segment member => ?_
    have empty := List.mem_takeWhile_imp (List.mem_reverse.mp member)
    rw [List.isEmpty_iff.mp empty]
    rfl
  conv_rhs => rw [kept, Path.movesOf_append, idle, List.append_nil]

/-- Whether a path leads to a folder that is there, or its place is on the way to a folder. -/
def OnTheWay (store : FileStore) (folder : Place) (path : Path) : Prop :=
  path.isAbsolute = true ∧
    (store.HasFolder path.writtenPlace ∨ path.writtenPlace <+: folder)

theorem OnTheWay.mono {path : Path} (onTheWay : store.OnTheWay folder path)
    (grows : store.GrowsTo after) : after.OnTheWay folder path :=
  ⟨onTheWay.1, onTheWay.2.imp_left (grows.folder _)⟩

theorem growsAt_makeFolder {path : Path} (rooted : store.Rooted)
    (onTheWay : store.OnTheWay folder path) (makes : store.makeFolder path = .ok made) :
    store.GrowsAt folder made := by
  obtain ⟨place, located, takes, nothing, rfl⟩ := exists_put_of_makeFolder rooted makes
  have here : place = path.writtenPlace := by
    rw [locateAlong, startOf_of_isAbsolute onTheWay.1, List.nil_append] at located
    split at located
    case h_1 => cases located
    case h_2 =>
      rw [Path.writtenPlace, ← movesOf_withoutTrailingSlashes]
      exact (follow_eq_ok_iff.mp located).place_eq
  have there := onTheWay.2
  rw [← here] at there
  exact growsAt_put_folder takes nothing (there.resolve_left takes.noFolder)

theorem mem_tailsAtNames {backwards tail : List (List Char)} (member : tail ∈ tailsAtNames backwards) :
    tail <:+ backwards ∧ ∃ segment rest, tail = segment :: rest ∧ segment ≠ [] := by
  induction backwards with
  | nil => cases member
  | cons segment rest inductionHypothesis =>
    rw [tailsAtNames] at member
    split at member
    case isTrue =>
      obtain ⟨suffix, named⟩ := inductionHypothesis member
      exact ⟨suffix.trans (List.suffix_cons _ _), named⟩
    case isFalse named =>
      rcases List.mem_cons.mp member with rfl | later
      · refine ⟨List.suffix_rfl, segment, rest, rfl, ?_⟩
        rintro rfl
        exact named rfl
      · obtain ⟨suffix, named⟩ := inductionHypothesis later
        exact ⟨suffix.trans (List.suffix_cons _ _), named⟩

/-- The paths of the folders around one start as its path does, with at least one slash. -/
theorem exists_of_mem_pathAndFolders {path : Path} (absolute : path.isAbsolute = true)
    {backwards : List (List Char)} (member : backwards ∈ pathAndFolders path) :
    backwards.reverse <+: path.text.toList.splitOn '/' ∧
      ∃ second rest, backwards.reverse = [] :: second :: rest := by
  obtain ⟨second, rest, segments⟩ := Path.splitOn_of_isAbsolute absolute
  rw [pathAndFolders] at member
  split at member
  case h_1 => cases member
  case h_2 tails =>
    rcases List.mem_cons.mp member with rfl | later
    · rw [List.reverse_reverse]
      exact ⟨List.prefix_rfl, second, rest, segments⟩
    · obtain ⟨suffix, last, before, rfl, named⟩ :=
        mem_tailsAtNames (tails ▸ List.mem_cons_of_mem _ later)
      have front := List.reverse_prefix.mpr suffix
      rw [List.reverse_reverse] at front
      refine ⟨front, ?_⟩
      rw [segments] at front
      rw [List.reverse_cons] at front ⊢
      generalize before.reverse = start at front ⊢
      cases start with
      | nil =>
        rw [List.nil_append, List.cons_prefix_cons] at front
        exact absurd front.1 named
      | cons first more =>
        rw [List.cons_append, List.cons_prefix_cons] at front
        rw [front.1, List.cons_append]
        obtain ⟨next, others, same⟩ := List.exists_cons_of_ne_nil (List.concat_ne_nil last more)
        exact ⟨next, others, congrArg _ same⟩

theorem onTheWay_of_mem_pathAndFolders {path : Path} (absolute : path.isAbsolute = true)
    (inside : store.StepsBackInside path.moves) {backwards : List (List Char)}
    (member : backwards ∈ pathAndFolders path) :
    store.OnTheWay path.writtenPlace (.ofSegments backwards.reverse) := by
  obtain ⟨⟨more, segments⟩, second, rest, front⟩ := exists_of_mem_pathAndFolders absolute member
  have noSlash : ∀ segment ∈ backwards.reverse, '/' ∉ segment := fun segment inFront =>
    Text.not_mem_of_mem_splitOn (segments ▸ List.mem_append_left more inFront)
  have moves : (Path.ofSegments backwards.reverse).moves = Path.movesOf backwards.reverse := by
    rw [Path.moves, Path.splitOn_ofSegments (front ▸ List.cons_ne_nil _ _) noSlash]
  have whole : path.moves = Path.movesOf backwards.reverse ++ Path.movesOf more := by
    rw [Path.moves, ← segments, Path.movesOf_append]
  refine ⟨front ▸ Path.isAbsolute_ofSegments second rest, ?_⟩
  rw [Path.writtenPlace, moves, Path.writtenPlace, whole]
  by_cases there : store.HasFolder (Path.placeAfter (Path.movesOf backwards.reverse))
  · exact Or.inl there
  · refine Or.inr (StepsBackInside.prefix_placeAfter (whole ▸ inside) (fun move inMore => ?_) there)
    exact Path.eq_parent_or_entry_of_mem_movesOf inMore

/-- Making a folder changes nothing but on the way to it. -/
theorem growsAt_makeFolders {path : Path} (rooted : store.Rooted)
    (absolute : path.isAbsolute = true) (inside : store.StepsBackInside path.moves) :
    store.GrowsAt path.writtenPlace (store.makeFolders path).2 :=
  kept_by_makeFoldersAlong (·.GrowsAt path.writtenPlace) (.refl · _) (fun _ _ _ => .trans)
    fun _ member _ _ kept makes => growsAt_makeFolder (kept.grows.rooted rooted)
      ((onTheWay_of_mem_pathAndFolders absolute inside member).mono kept.grows) makes

/-- Making a folder that is there changes nothing at all. -/
theorem makeFolders_of_isFolder {path : Path} (rooted : store.Rooted)
    (absolute : path.isAbsolute = true) (folder : store.isFolder path = true) :
    store.makeFolders path = (.ok (), store) := by
  obtain ⟨faultless, passes, short⟩ := (isFolder_iff rooted absolute).mp folder
  rw [← movesOf_withoutTrailingSlashes] at passes short
  obtain ⟨place, entries, follows⟩ :=
    (exists_follows_folder_iff rooted leads_nil _).mpr ⟨passes, short⟩
  have there : store.makeFolder path = .error .alreadyExists := by
    rw [makeFolder, locateAlong, faultless]
    dsimp only
    rw [startOf_of_isAbsolute absolute, List.nil_append, follows.follow_eq]
  rw [makeFolders, pathAndFolders]
  split
  case h_1 => rfl
  case h_2 =>
    have whole : Path.mk (String.ofList (['/'].intercalate
        (path.text.toList.splitOn '/').reverse.reverse)) = path := by
      rw [List.reverse_reverse, List.intercalate_splitOn, String.ofList_toList]
    rw [makeFoldersAlong, whole, there]
    dsimp only
    rw [if_pos folder]

end FileStore

namespace Emitter

variable {emitter after : Emitter} {store left : FileStore} {request : FragmentRequest}
  {fragment : Fragment}

/-- Whether the files of an emitter are right in its folder, and the path of the folder is absolute
and only steps back from folders that are there. -/
structure StaysInFolder (emitter : Emitter) (store : FileStore) : Prop where
  noSlash : '/' ∉ emitter.fragmentExtension.toList
  absolute : emitter.outDir.isAbsolute = true
  inside : store.StepsBackInside emitter.outDir.moves

/-- The place of the folder of an emitter. -/
def folder (emitter : Emitter) : Place := emitter.outDir.writtenPlace

theorem StaysInFolder.mono (stays : emitter.StaysInFolder store) (grows : store.GrowsTo left) :
    emitter.StaysInFolder left where
  noSlash := stays.noSlash
  absolute := stays.absolute
  inside front rest same := grows.folder _ (stays.inside front rest same)

theorem writtenPlace_pathOf (noSlash : '/' ∉ emitter.fragmentExtension.toList) (text : String) :
    (emitter.pathOf text).writtenPlace =
      emitter.folder ++ [fragmentHash text ++ "." ++ emitter.fragmentExtension] :=
  (isEntryName_fragmentHash text noSlash).writtenPlace_join emitter.outDir

theorem isAbsolute_pathOf (absolute : emitter.outDir.isAbsolute = true)
    (noSlash : '/' ∉ emitter.fragmentExtension.toList) (text : String) :
    (emitter.pathOf text).isAbsolute = true :=
  (Path.isAbsolute_join _ (isEntryName_fragmentHash text noSlash).head?_ne).trans absolute

theorem growsAt_of_writeIfChanged {text : String} {bytes : ByteArray} {written : Bool}
    (rooted : store.Rooted) (stays : emitter.StaysInFolder store)
    (ran : (writeIfChanged (emitter.pathOf text) bytes).run (emitter, store) =
      (.ok written, after, left)) : store.GrowsAt emitter.folder left := by
  rw [run_writeIfChanged] at ran
  split at ran
  · cases ran
    exact .refl store emitter.folder
  · split at ran
    case h_1 changed wrote =>
      cases ran
      obtain ⟨place, takes, rfl, spot, rfl, located⟩ := FileStore.exists_put_of_writeBytes rooted wrote
      have here := FileStore.eq_writtenPlace_of_locate
        (isAbsolute_pathOf stays.absolute stays.noSlash text) located
      rw [writtenPlace_pathOf stays.noSlash] at here
      rw [here] at takes ⊢
      exact FileStore.growsAt_put_file takes bytes
    case h_2 => cases ran

/-- A request changes nothing but on the way to the folder of the emitter and in it. -/
theorem growsAt_of_emit (rooted : store.Rooted) (stays : emitter.StaysInFolder store)
    (ran : (emit request).run (emitter, store) = (.ok fragment, after, left)) :
    store.GrowsAt emitter.folder left := by
  rcases known_or_wrote_of_emit ran with
    ⟨first, known, rfl, rfl, rfl⟩ | ⟨fresh, made, written, makes, wrote, rfl, rfl⟩
  · exact .refl _ _
  · have grows := FileStore.growsAt_makeFolders rooted stays.absolute stays.inside
    rw [makes] at grows
    exact grows.trans (growsAt_of_writeIfChanged (grows.grows.rooted rooted)
      (stays.mono grows.grows) wrote)

theorem settings_of_emit (ran : (emit request).run (emitter, store) = (.ok fragment, after, left)) :
    ∃ table, after = { emitter with emitted := table } := by
  rcases known_or_wrote_of_emit ran with
    ⟨first, known, rfl, rfl, rfl⟩ | ⟨fresh, made, written, makes, wrote, rfl, rfl⟩
  · exact ⟨_, rfl⟩
  · exact ⟨_, rfl⟩

/-- Requests change nothing but on the way to the folder of the emitter and in it. -/
theorem growsAt_of_mapM {requests : List FragmentRequest} {fragments : List Fragment}
    {state : Emitter × FileStore} (rooted : store.Rooted) (stays : emitter.StaysInFolder store)
    (ran : (requests.mapM emit).run (emitter, store) = (.ok fragments, state)) :
    store.GrowsAt emitter.folder state.2 := by
  induction requests generalizing emitter store fragments with
  | nil =>
    cases ran
    exact .refl _ _
  | cons request rest inductionHypothesis =>
    obtain ⟨fragment, ⟨after, left⟩, others, first, later, rfl⟩ :=
      Work.run_mapM_cons_eq_ok_iff.mp ran
    have grows := growsAt_of_emit rooted stays first
    obtain ⟨table, rfl⟩ := settings_of_emit first
    have still : StaysInFolder { emitter with emitted := table } left :=
      ⟨stays.noSlash, stays.absolute, (stays.mono grows.grows).inside⟩
    have further := inductionHypothesis (grows.grows.rooted rooted) still later
    exact grows.trans further

end Emitter

end SourceCapture
