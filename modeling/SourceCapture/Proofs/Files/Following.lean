/-
Where following a path ends. A trail of folders from the root is known by the names on it, as
long as the store has these folders. So a path leads to the same place in every store that has
the folders and files of another one, whatever else was added, and a name at the end of a path
is a name in the folder that the rest of the path leads to.
-/

import Mathlib.Data.List.Basic
import SourceCapture.FileStore

namespace SourceCapture

/-! ### Places in a tree -/

namespace FileEntry

theorem at?_append (entry : FileEntry) (place inner : Place) :
    entry.at? (place ++ inner) = (entry.at? place).bind (·.at? inner) := by
  induction place generalizing entry with
  | nil => rfl
  | cons name rest inductionHypothesis =>
    rw [List.cons_append, at?_cons, at?_cons]
    cases entry.child? name with
    | none => rfl
    | some child => exact inductionHypothesis child

theorem at?_concat (entry : FileEntry) (place : Place) (name : String) :
    entry.at? (place ++ [name]) = (entry.at? place).bind (·.child? name) := by
  rw [at?_append]
  congr 1
  funext child
  rw [at?_cons]
  cases child.child? name <;> rfl

theorem child?_file (bytes : ByteArray) (name : String) : (file bytes).child? name = none := rfl

end FileEntry

namespace FileStore

variable (store : FileStore)

/-- Whether there is a folder at a place. -/
def HasFolder (place : Place) : Prop := ∃ entries, store.entryAt? place = some (.folder entries)

theorem entryAt?_concat (place : Place) (name : String) :
    store.entryAt? (place ++ [name]) = (store.entryAt? place).bind (·.child? name) :=
  FileEntry.at?_concat store.root place name

/-- Whether the store has a folder as its root, as every file system has. -/
def Rooted : Prop := store.HasFolder []

/-- Around an entry there are only folders. -/
theorem hasFolder_of_entryAt?_append {place : Place} {name : String} {rest : Place}
    {entry : FileEntry} (found : store.entryAt? (place ++ name :: rest) = some entry) :
    store.HasFolder place := by
  rw [entryAt?, FileEntry.at?_append] at found
  obtain ⟨around, here, below⟩ := Option.bind_eq_some_iff.mp found
  cases around with
  | folder entries => exact ⟨entries, here⟩
  | file bytes =>
    rw [FileEntry.at?_cons, FileEntry.child?_file] at below
    cases below

theorem bytesAt?_eq_some_iff (place : Place) (bytes : ByteArray) :
    store.bytesAt? place = some bytes ↔ store.entryAt? place = some (.file bytes) := by
  rw [bytesAt?, Option.bind_eq_some_iff]
  constructor
  · rintro ⟨entry, found, same⟩
    cases entry with
    | folder entries => cases same
    | file other =>
      cases same
      exact found
  · exact fun found => ⟨_, found, rfl⟩

/-! ### Trails -/

/-- Whether a trail leads through folders of the store. -/
def Leads : Trail → Prop
  | [] => True
  | (name, folder) :: around =>
    folder.isFolder = true ∧ (store.folderOf around).child? name = some folder ∧ Leads around

variable {store}

theorem leads_nil : store.Leads [] := trivial

theorem placeOf_cons (name : String) (folder : FileEntry) (around : Trail) :
    placeOf ((name, folder) :: around) = placeOf around ++ [name] := by
  rw [placeOf, placeOf, List.map_cons, List.reverse_cons]

theorem placeOf_congr {trail around : Trail} (same : around.map Prod.fst = trail.map Prod.fst) :
    placeOf around = placeOf trail := by
  rw [placeOf, placeOf, same]

theorem entryAt?_placeOf {trail : Trail} (leads : store.Leads trail) :
    store.entryAt? (placeOf trail) = some (store.folderOf trail) := by
  induction trail with
  | nil => rfl
  | cons step around inductionHypothesis =>
    obtain ⟨name, folder⟩ := step
    obtain ⟨_, child, leadsAround⟩ := leads
    rw [placeOf_cons, entryAt?_concat, inductionHypothesis leadsAround]
    exact child

/-- What a name means at the end of a trail is what stands at the place of the name. -/
theorem child?_folderOf {trail : Trail} (leads : store.Leads trail) (name : String) :
    (store.folderOf trail).child? name = store.entryAt? (placeOf trail ++ [name]) := by
  rw [entryAt?_concat, entryAt?_placeOf leads, Option.bind_some]

theorem Leads.hasFolder {trail : Trail} (leads : store.Leads trail) (rooted : store.Rooted) :
    store.HasFolder (placeOf trail) := by
  cases trail with
  | nil => exact rooted
  | cons step around =>
    obtain ⟨name, folder⟩ := step
    rw [HasFolder, entryAt?_placeOf leads]
    cases folder with
    | folder entries => exact ⟨entries, rfl⟩
    | file bytes => cases leads.1

theorem Leads.tail {trail : Trail} (leads : store.Leads trail) : store.Leads trail.tail := by
  cases trail with
  | nil => exact leads
  | cons step around => exact leads.2.2

theorem Leads.cons {trail : Trail} {name : String} {entries : Table String FileEntry}
    (leads : store.Leads trail)
    (child : (store.folderOf trail).child? name = some (.folder entries)) :
    store.Leads ((name, .folder entries) :: trail) :=
  ⟨rfl, child, leads⟩

/-! ### Where a path ends -/

namespace Spot

/-- The place of a spot, whether something is there or not. -/
def place : Spot → Place
  | .taken place _ => place
  | .free place => place

end Spot

/-- Whether a segment of a path is the name of an entry. -/
def IsName (segment : List Char) : Prop :=
  segment ≠ [] ∧ segment ≠ ['.'] ∧ segment ≠ ['.', '.'] ∧ ¬ longestName < Text.byteLength segment

/-- How a path is followed to a spot, segment by segment. -/
inductive Follows (store : FileStore) : Trail → List (List Char) → Spot → Prop where
  | arrived (trail : Trail) :
      Follows store trail [] (.taken (placeOf trail) (store.folderOf trail))
  | stay {trail : Trail} {segment : List Char} {rest : List (List Char)} {spot : Spot}
      (idle : segment = [] ∨ segment = ['.']) (onwards : Follows store trail rest spot) :
      Follows store trail (segment :: rest) spot
  | up {trail : Trail} {rest : List (List Char)} {spot : Spot}
      (onwards : Follows store trail.tail rest spot) :
      Follows store trail (['.', '.'] :: rest) spot
  | down {trail : Trail} {segment : List Char} {rest : List (List Char)} {spot : Spot}
      {entries : Table String FileEntry} (named : IsName segment)
      (child : (store.folderOf trail).child? (String.ofList segment) = some (.folder entries))
      (onwards : Follows store ((String.ofList segment, .folder entries) :: trail) rest spot) :
      Follows store trail (segment :: rest) spot
  | file {trail : Trail} {segment : List Char} {bytes : ByteArray} (named : IsName segment)
      (child : (store.folderOf trail).child? (String.ofList segment) = some (.file bytes)) :
      Follows store trail [segment] (.taken (placeOf trail ++ [String.ofList segment]) (.file bytes))
  | free {trail : Trail} {segment : List Char} (named : IsName segment)
      (child : (store.folderOf trail).child? (String.ofList segment) = none) :
      Follows store trail [segment] (.free (placeOf trail ++ [String.ofList segment]))

/-- Following a segment that is a name. -/
theorem follow_name (trail : Trail) {segment : List Char} (named : IsName segment)
    (rest : List (List Char)) :
    store.follow trail (segment :: rest) =
      match (store.folderOf trail).child? (String.ofList segment) with
      | some (.folder entries) =>
        store.follow ((String.ofList segment, .folder entries) :: trail) rest
      | some (.file bytes) =>
        if rest.isEmpty then
          .ok (.taken (placeOf trail ++ [String.ofList segment]) (.file bytes))
        else .error .notADirectory
      | none =>
        if rest.isEmpty then .ok (.free (placeOf trail ++ [String.ofList segment]))
        else .error .notFound := by
  obtain ⟨nonempty, notDot, notDots, short⟩ := named
  exact (follow.eq_5 store trail segment rest nonempty notDot notDots).trans (if_neg short)

theorem Follows.follow_eq {trail : Trail} {segments : List (List Char)} {spot : Spot}
    (follows : store.Follows trail segments spot) : store.follow trail segments = .ok spot := by
  induction follows with
  | arrived trail => rw [follow]
  | stay idle _ inductionHypothesis =>
    rcases idle with rfl | rfl
    · rw [follow, inductionHypothesis]
    · rw [follow, inductionHypothesis]
  | up _ inductionHypothesis => rw [follow, inductionHypothesis]
  | down named child _ inductionHypothesis =>
    rw [follow_name _ named, child]
    exact inductionHypothesis
  | file named child =>
    rw [follow_name _ named, child]
    rfl
  | free named child =>
    rw [follow_name _ named, child]
    rfl

theorem follows_of_follow_eq {trail : Trail} {segments : List (List Char)} {spot : Spot}
    (same : store.follow trail segments = .ok spot) : store.Follows trail segments spot := by
  induction segments generalizing trail with
  | nil =>
    rw [follow] at same
    cases same
    exact .arrived trail
  | cons segment rest inductionHypothesis =>
    by_cases empty : segment = []
    · rw [empty, follow] at same
      exact .stay (Or.inl empty) (inductionHypothesis same)
    by_cases dot : segment = ['.']
    · rw [dot, follow] at same
      exact .stay (Or.inr dot) (inductionHypothesis same)
    by_cases dots : segment = ['.', '.']
    · rw [dots, follow] at same
      rw [dots]
      exact .up (inductionHypothesis same)
    by_cases long : longestName < Text.byteLength segment
    · rw [follow.eq_5 store trail segment rest empty dot dots, if_pos long] at same
      cases same
    have named : IsName segment := ⟨empty, dot, dots, long⟩
    rw [follow_name trail named] at same
    cases child : (store.folderOf trail).child? (String.ofList segment) with
    | none =>
      rw [child] at same
      cases rest with
      | nil =>
        cases same
        exact .free named child
      | cons next more => cases same
    | some entry =>
      rw [child] at same
      cases entry with
      | folder entries => exact .down named child (inductionHypothesis same)
      | file bytes =>
        cases rest with
        | nil =>
          cases same
          exact .file named child
        | cons next more => cases same

/-- Following a path is the search for the way that leads to its end. -/
theorem follow_eq_ok_iff {trail : Trail} {segments : List (List Char)} {spot : Spot} :
    store.follow trail segments = .ok spot ↔ store.Follows trail segments spot :=
  ⟨follows_of_follow_eq, Follows.follow_eq⟩

namespace Follows

variable {trail : Trail} {segments : List (List Char)} {spot : Spot}

/-- What is at the end of a path is what the store has there. -/
theorem entryAt?_of_taken {place : Place} {entry : FileEntry} (leads : store.Leads trail)
    (follows : store.Follows trail segments (.taken place entry)) :
    store.entryAt? place = some entry := by
  generalize ended : Spot.taken place entry = spot at follows
  induction follows with
  | arrived trail =>
    cases ended
    exact entryAt?_placeOf leads
  | stay _ _ inductionHypothesis => exact inductionHypothesis leads ended
  | up _ inductionHypothesis => exact inductionHypothesis leads.tail ended
  | down named child _ inductionHypothesis => exact inductionHypothesis (leads.cons child) ended
  | file named child =>
    cases ended
    rw [← child?_folderOf leads, child]
  | free => cases ended

/-- A path that ends at a free place ends in a folder. -/
theorem exists_folder_of_free {place : Place} (rooted : store.Rooted) (leads : store.Leads trail)
    (follows : store.Follows trail segments (.free place)) :
    store.entryAt? place = none ∧
      ∃ around name, place = around ++ [name] ∧ store.HasFolder around := by
  generalize ended : Spot.free place = spot at follows
  induction follows with
  | arrived => cases ended
  | stay _ _ inductionHypothesis => exact inductionHypothesis leads ended
  | up _ inductionHypothesis => exact inductionHypothesis leads.tail ended
  | down named child _ inductionHypothesis => exact inductionHypothesis (leads.cons child) ended
  | file => cases ended
  | free named child =>
    cases ended
    rw [← child?_folderOf leads, child]
    exact ⟨rfl, _, _, rfl, leads.hasFolder rooted⟩

/-- A name leads to what stands at its place. -/
theorem last {segment : List Char} {entry : FileEntry} (leads : store.Leads trail)
    (named : IsName segment)
    (found : store.entryAt? (placeOf trail ++ [String.ofList segment]) = some entry) :
    store.Follows trail [segment] (.taken (placeOf trail ++ [String.ofList segment]) entry) := by
  rw [← child?_folderOf leads] at found
  cases entry with
  | file bytes => exact .file named found
  | folder entries =>
    rw [← placeOf_cons _ (.folder entries)]
    exact .down named found (.arrived _)

/-- A path that ends with a name leads into the folder to which the rest of it leads. -/
theorem exists_folder_of_concat {segment : List Char} (leads : store.Leads trail)
    (nonempty : segment ≠ []) (notDot : segment ≠ ['.']) (notDots : segment ≠ ['.', '.'])
    (follows : store.Follows trail (segments ++ [segment]) spot) :
    ∃ around, store.Leads around ∧
      store.Follows trail segments (.taken (placeOf around) (store.folderOf around)) ∧
        spot.place = placeOf around ++ [String.ofList segment] := by
  induction segments generalizing trail with
  | nil =>
    refine ⟨trail, leads, .arrived trail, ?_⟩
    cases follows with
    | stay idle => exact absurd idle (not_or.mpr ⟨nonempty, notDot⟩)
    | up => exact absurd rfl notDots
    | down _ child onwards =>
      have arrived := onwards.follow_eq
      rw [follow] at arrived
      rw [← Except.ok.inj arrived]
      exact placeOf_cons ..
    | file => rfl
    | free => rfl
  | cons first rest inductionHypothesis =>
    rw [List.cons_append] at follows
    generalize more : rest ++ [segment] = others at follows
    have remains : others ≠ [] := more ▸ List.concat_ne_nil segment rest
    cases follows with
    | stay idle onwards =>
      obtain ⟨around, leadsAround, first, place⟩ := inductionHypothesis leads (more ▸ onwards)
      exact ⟨around, leadsAround, .stay idle first, place⟩
    | up onwards =>
      obtain ⟨around, leadsAround, first, place⟩ := inductionHypothesis leads.tail (more ▸ onwards)
      exact ⟨around, leadsAround, .up first, place⟩
    | down inner child onwards =>
      obtain ⟨around, leadsAround, first, place⟩ :=
        inductionHypothesis (leads.cons child) (more ▸ onwards)
      exact ⟨around, leadsAround, .down inner child first, place⟩
    | file => exact absurd rfl remains
    | free => exact absurd rfl remains

/-- From the folder to which a path leads, more segments lead where the whole path leads. -/
theorem exists_trail_of_folder {place : Place} {entries : Table String FileEntry}
    (leads : store.Leads trail)
    (follows : store.Follows trail segments (.taken place (.folder entries))) :
    ∃ around, store.Leads around ∧ placeOf around = place ∧ ∀ more spot,
      store.Follows around more spot → store.Follows trail (segments ++ more) spot := by
  generalize ended : Spot.taken place (.folder entries) = spot at follows
  induction follows with
  | arrived trail =>
    obtain ⟨rfl, _⟩ := Spot.taken.inj ended
    exact ⟨trail, leads, rfl, fun _ _ onwards => onwards⟩
  | stay idle _ inductionHypothesis =>
    obtain ⟨around, leadsAround, same, further⟩ := inductionHypothesis leads ended
    exact ⟨around, leadsAround, same, fun more spot onwards => .stay idle (further more spot onwards)⟩
  | up _ inductionHypothesis =>
    obtain ⟨around, leadsAround, same, further⟩ := inductionHypothesis leads.tail ended
    exact ⟨around, leadsAround, same, fun more spot onwards => .up (further more spot onwards)⟩
  | down named child _ inductionHypothesis =>
    obtain ⟨around, leadsAround, same, further⟩ := inductionHypothesis (leads.cons child) ended
    exact ⟨around, leadsAround, same,
      fun more spot onwards => .down named child (further more spot onwards)⟩
  | file => cases ended
  | free => cases ended

end Follows

/-! ### Stores with more in them -/

/-- Whether a store has the folders of another one, and files where that has files. -/
structure GrowsTo (before after : FileStore) : Prop where
  workingPlace : after.workingPlace = before.workingPlace
  folder : ∀ place, before.HasFolder place → after.HasFolder place
  file : ∀ place, (before.bytesAt? place).isSome → (after.bytesAt? place).isSome

namespace GrowsTo

variable {before after later : FileStore}

theorem refl (store : FileStore) : store.GrowsTo store :=
  ⟨rfl, fun _ folder => folder, fun _ file => file⟩

theorem trans (first : before.GrowsTo after) (second : after.GrowsTo later) :
    before.GrowsTo later where
  workingPlace := second.workingPlace.trans first.workingPlace
  folder place here := second.folder place (first.folder place here)
  file place here := second.file place (first.file place here)

/-- Where something was, something is. -/
theorem entryAt? (grows : before.GrowsTo after) {place : Place} {entry : FileEntry}
    (found : before.entryAt? place = some entry) : ∃ other, after.entryAt? place = some other := by
  cases entry with
  | folder entries =>
    obtain ⟨others, here⟩ := grows.folder place ⟨entries, found⟩
    exact ⟨_, here⟩
  | file bytes =>
    have here := (before.bytesAt?_eq_some_iff place bytes).mpr found
    obtain ⟨others, there⟩ :=
      Option.isSome_iff_exists.mp (grows.file place (Option.isSome_iff_exists.mpr ⟨bytes, here⟩))
    exact ⟨_, (after.bytesAt?_eq_some_iff place others).mp there⟩

/-- A path leads to the same place in a store that has grown. -/
theorem follows (grows : before.GrowsTo after) {trail around : Trail}
    {segments : List (List Char)} {spot : Spot} {entry : FileEntry}
    (leads : before.Leads trail) (leadsAround : after.Leads around)
    (same : around.map Prod.fst = trail.map Prod.fst)
    (follows : before.Follows trail segments spot)
    (found : after.entryAt? spot.place = some entry) :
    after.Follows around segments (.taken spot.place entry) := by
  induction follows generalizing around with
  | arrived trail =>
    have here := entryAt?_placeOf leadsAround
    rw [placeOf_congr same] at here
    have last : after.folderOf around = entry := Option.some.inj (here.symm.trans found)
    have arrived : after.Follows around [] _ := Follows.arrived around
    rw [placeOf_congr same, last] at arrived
    exact arrived
  | stay idle _ inductionHypothesis =>
    exact .stay idle (inductionHypothesis leads leadsAround same found)
  | up _ inductionHypothesis =>
    refine .up (inductionHypothesis leads.tail leadsAround.tail ?_ found)
    rw [List.map_tail, List.map_tail, same]
  | down named child _ inductionHypothesis =>
    have here := child
    rw [child?_folderOf leads] at here
    obtain ⟨entries, inside⟩ := grows.folder _ ⟨_, here⟩
    rw [← placeOf_congr same, ← child?_folderOf leadsAround] at inside
    refine .down named inside
      (inductionHypothesis (leads.cons child) (leadsAround.cons inside) ?_ found)
    rw [List.map_cons, List.map_cons, same]
  | file named _ =>
    rw [Spot.place, ← placeOf_congr same] at found ⊢
    exact .last leadsAround named found
  | free named _ =>
    rw [Spot.place, ← placeOf_congr same] at found ⊢
    exact .last leadsAround named found

end GrowsTo

end FileStore

end SourceCapture
