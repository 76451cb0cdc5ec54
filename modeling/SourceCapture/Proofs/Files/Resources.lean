/-
What a resource folder reads. A name is refused unless it says something, starts below the folder
and never goes up. For any other name a path is read that has the segments of the folder and then
those of the name, and nothing else that leads anywhere. So by what is written it leads to an entry
at some depth below the folder, and the text that comes back is that of the file there.
-/

import SourceCapture.Proofs.Files.Moves
import SourceCapture.Resources

namespace SourceCapture

/-! ### Segments that lead somewhere -/

namespace Path

/-- The segments of a path that are neither empty nor single dots. -/
def steps (path : Path) : List (List Char) :=
  (path.text.toList.splitOn '/').filter fun segment => segment ≠ [] ∧ segment ≠ ['.']

variable {segments : List (List Char)}

/-- A text that is joined to a path is behind all segments of the path. -/
theorem steps_join (path : Path) {below : String} (relative : below.toList.head? ≠ some '/') :
    (path.join below).steps = path.steps ++ (Path.mk below).steps := by
  obtain ⟨idle, segments, empty⟩ := path.exists_splitOn_eq
  have nothing : idle.filter (fun segment => segment ≠ [] ∧ segment ≠ ['.']) = [] :=
    List.filter_eq_nil_iff.mpr fun segment member => by simp [empty segment member]
  rw [steps, splitOn_join path relative, List.filter_append, steps, steps, segments,
    List.filter_append, nothing, List.append_nil]

/-- Segments that never go up lead down by their names. -/
theorem movesOf_of_noParent (noParent : ['.', '.'] ∉ segments) :
    movesOf segments = ((segments.filter fun segment => segment ≠ [] ∧ segment ≠ ['.']).map
      String.ofList).map .entry := by
  induction segments with
  | nil => rfl
  | cons segment rest inductionHypothesis =>
    rw [List.mem_cons, not_or] at noParent
    have further := inductionHypothesis noParent.2
    by_cases idle : segment = [] ∨ segment = ['.']
    · rw [movesOf_cons_idle idle, further, List.filter_cons_of_neg]
      rw [decide_eq_true_iff, not_and_or, not_not, not_not]
      exact idle
    · rw [not_or] at idle
      have kept : decide (segment ≠ [] ∧ segment ≠ ['.']) = true := decide_eq_true idle
      rw [movesOf_cons_name idle.1 idle.2 (Ne.symm noParent.1), further, List.filter_cons, if_pos kept]
      rfl

theorem all_isPlain_movesOf_iff :
    (movesOf segments).all Component.isPlain = true ↔ ['.', '.'] ∉ segments := by
  constructor
  · intro plain up
    have parent : .parent ∈ movesOf segments := List.mem_filterMap.mpr ⟨_, up, rfl⟩
    exact Bool.false_ne_true (List.all_eq_true.mp plain _ parent)
  · intro noParent
    rw [movesOf_of_noParent noParent, List.all_map, List.all_eq_true]
    exact fun _ _ => rfl

/-- A path that does not start at the root has its moves as components, and maybe the dot at its
start. -/
theorem components_of_relative {path : Path} (relative : path.isAbsolute = false) :
    path.components = path.moves ∨ path.components = .current :: path.moves := by
  obtain ⟨first, rest, segments⟩ :=
    List.exists_cons_of_ne_nil (List.splitOn_ne_nil '/' path.text.toList)
  rw [components, moves, segments]
  dsimp only
  split
  case isTrue empty =>
    rw [List.isEmpty_iff] at empty
    cases rest with
    | nil => exact Or.inl (by rw [empty]; rfl)
    | cons second more =>
      have absolute := isAbsolute_ofSegments second more
      rw [empty] at segments
      rw [ofSegments, ← segments, List.intercalate_splitOn, String.ofList_toList] at absolute
      rw [absolute] at relative
      cases relative
  case isFalse =>
    split
    case isTrue dot => exact Or.inr (by rw [dot]; rfl)
    case isFalse =>
      refine Or.inl ?_
      rw [movesOf, List.filterMap_cons]
      cases componentOf? first <;> rfl

end Path

/-! ### Names that are refused -/

namespace ResourceFolder

/-- Whether a name can only lead down: it says something, does not start at the root, and none of
its segments goes up. -/
structure LeadsDown (name : String) : Prop where
  nonempty : name ≠ ""
  relative : name.toList.head? ≠ some '/'
  noParent : ['.', '.'] ∉ name.toList.splitOn '/'

instance (name : String) : Decidable (LeadsDown name) :=
  decidable_of_iff (name ≠ "" ∧ name.toList.head? ≠ some '/' ∧
      ['.', '.'] ∉ name.toList.splitOn '/')
    ⟨fun down => ⟨down.1, down.2.1, down.2.2⟩, fun down => ⟨down.nonempty, down.relative, down.noParent⟩⟩

theorem accepts_iff (name : String) : accepts name = true ↔ LeadsDown name := by
  have plain : (Path.mk name).components.all Component.isPlain = true ↔
      name.toList.head? ≠ some '/' ∧ ['.', '.'] ∉ name.toList.splitOn '/' := by
    by_cases absolute : (Path.mk name).isAbsolute = true
    · have slash : name.toList.head? = some '/' := of_decide_eq_true absolute
      rw [Path.components_of_isAbsolute absolute]
      exact iff_of_false (fun all => nomatch all) fun both => both.1 slash
    · have relative : name.toList.head? ≠ some '/' := fun slash => absolute (decide_eq_true slash)
      rw [Bool.not_eq_true] at absolute
      rw [and_iff_right relative, ← Path.all_isPlain_movesOf_iff]
      rcases Path.components_of_relative absolute with same | same
      · rw [same]
        rfl
      · rw [same, List.all_cons]
        rfl
  rw [accepts, Bool.and_eq_true, Bool.not_eq_true', String.isEmpty_eq_false_iff, plain]
  exact ⟨fun both => ⟨both.1, both.2.1, both.2.2⟩,
    fun down => ⟨down.nonempty, down.relative, down.noParent⟩⟩

/-- A resource folder hands out its entries. -/
theorem accepts_of_isEntryName {name : String} (named : Path.IsEntryName name) :
    accepts name = true := by
  refine (accepts_iff name).mpr ⟨?_, named.head?_ne, ?_⟩
  · exact fun empty => named.nonempty (String.toList_eq_nil_iff.mpr empty)
  · rw [List.splitOn_eq_singleton named.noSlash, List.mem_singleton]
    exact Ne.symm named.notDots

/-! ### What is read -/

variable {folder : ResourceFolder} {name : String} {path : Path}

/-- The place that a name has below a folder, by what is written. -/
def placeBelow (folder : ResourceFolder) (store : FileStore) (name : String) : Place :=
  store.writtenPlaceOf folder.root ++ (Path.mk name).steps.map String.ofList

/-- Whether a path is what is read for a name of a folder: it starts where the folder does, has the
segments of the folder and then those of the name, and so it leads below the folder. -/
structure ReadsBelow (folder : ResourceFolder) (name : String) (path : Path) : Prop where
  /-- Nothing but the text at the path is asked for. -/
  read_eq : ∀ store, folder.read store name = (store.readText path).mapError .file
  isAbsolute_eq : path.isAbsolute = folder.root.isAbsolute
  steps_eq : path.steps = folder.root.steps ++ (Path.mk name).steps
  place_eq : ∀ store : FileStore, store.writtenPlaceOf path = folder.placeBelow store name
  /-- What comes back is the text of the file at the place below the folder. -/
  held : ∀ store text, folder.read store name = .ok text →
    (store.bytesAt? (folder.placeBelow store name)).bind String.fromUTF8? = some text

theorem LeadsDown.readsBelow (folder : ResourceFolder) (down : LeadsDown name) :
    folder.ReadsBelow name (folder.root.join name) := by
  have read : ∀ store, folder.read store name =
      (store.readText (folder.root.join name)).mapError .file := by
    intro store
    rw [ResourceFolder.read, if_pos ((accepts_iff name).mpr down)]
  have absolute := Path.isAbsolute_join folder.root down.relative
  have place : ∀ store : FileStore,
      store.writtenPlaceOf (folder.root.join name) = folder.placeBelow store name := by
    intro store
    rw [FileStore.writtenPlaceOf, FileStore.startOf, absolute, ← FileStore.startOf,
      Path.moves_join folder.root down.relative, Path.movesOf_of_noParent down.noParent,
      ← List.append_assoc, Path.placeAfter, List.foldl_append, Path.foldl_moveFrom_entries]
    rfl
  refine ⟨read, absolute, Path.steps_join folder.root down.relative, place, ?_⟩
  intro store text found
  rw [read, FileStore.readText] at found
  cases bytes : store.readBytes (folder.root.join name) with
  | error cause =>
    rw [bytes] at found
    cases found
  | ok bytesThere =>
    obtain ⟨spot, here, held⟩ := (FileStore.readBytes_eq_ok_iff _ _).mp bytes
    rw [FileStore.eq_writtenPlaceOf_of_place? here, place] at held
    rw [held, Option.bind_some]
    rw [bytes] at found
    dsimp only at found
    cases decoded : String.fromUTF8? bytesThere with
    | none =>
      rw [decoded] at found
      cases found
    | some decodedText =>
      rw [decoded] at found
      cases found
      rfl

/-- A name is refused, whatever the files are, just if it does not lead down. For every other name
one path is read, and it stays below the folder. -/
theorem readsBelow_or_refuses (folder : ResourceFolder) (name : String) :
    (∀ store, folder.read store name = .error (.refusedName name) ↔ ¬ LeadsDown name) ∧
      (LeadsDown name → ∃ path, folder.ReadsBelow name path) := by
  refine ⟨fun store => ⟨fun refused down => ?_, fun escapes => ?_⟩,
    fun down => ⟨_, down.readsBelow folder⟩⟩
  · rw [(down.readsBelow folder).read_eq] at refused
    cases text : store.readText (folder.root.join name) with
    | ok found =>
      rw [text] at refused
      cases refused
    | error cause =>
      rw [text] at refused
      cases refused
  · rw [ResourceFolder.read, if_neg (mt (accepts_iff name).mp escapes)]

/-- Dots and repeated slashes lead nowhere. A name that goes up is refused, also if it comes back. -/
theorem readsBelow_or_refuses_scripts : LeadsDown "js//./a.js" ∧
    (∃ path, (ResourceFolder.mk ⟨"../res/."⟩).ReadsBelow "js//./a.js" path) ∧
      ¬ LeadsDown "js/../js/a.js" ∧ ∀ store, (ResourceFolder.mk ⟨"../res/."⟩).read store
        "js/../js/a.js" = .error (.refusedName "js/../js/a.js") := by
  have down : LeadsDown "js//./a.js" := by decide
  have escapes : ¬ LeadsDown "js/../js/a.js" := by decide
  exact ⟨down, (readsBelow_or_refuses _ _).2 down, escapes,
    fun store => ((readsBelow_or_refuses _ _).1 store).mpr escapes⟩

end ResourceFolder

end SourceCapture
