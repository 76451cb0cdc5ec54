/-
Paths as they are written. Each component of a path moves from one place to another, and so an
absolute path stands for a place whether or not anything is there. Where it leads to an entry, the
entry is at that place, and it leads to a folder if all its moves lead to folders. A path that only
steps back from folders which are there needs no more than the folder at its end.
-/

import Mathlib.Data.List.Induction
import SourceCapture.Proofs.Files.Below

namespace SourceCapture

/-! ### Segments between slashes -/

namespace Path

/-- The path of segments. -/
def ofSegments (segments : List (List Char)) : Path := ⟨String.ofList (['/'].intercalate segments)⟩

theorem splitOn_ofSegments {segments : List (List Char)} (nonempty : segments ≠ [])
    (noSlash : ∀ segment ∈ segments, '/' ∉ segment) :
    (ofSegments segments).text.toList.splitOn '/' = segments := by
  rw [ofSegments, String.toList_ofList]
  exact List.splitOn_intercalate '/' noSlash nonempty

/-- The segments of an absolute path start with nothing before the first slash. -/
theorem splitOn_of_isAbsolute {path : Path} (absolute : path.isAbsolute = true) :
    ∃ second rest, path.text.toList.splitOn '/' = [] :: second :: rest := by
  rw [isAbsolute, decide_eq_true_iff] at absolute
  obtain ⟨rest, text⟩ := List.head?_eq_some_iff.mp absolute
  have first : path.text.toList.splitOn '/' = [] :: rest.splitOn '/' := by
    rw [text]
    exact List.splitOn_append_cons_self [] rest
  obtain ⟨second, others, more⟩ := List.exists_cons_of_ne_nil (List.splitOn_ne_nil '/' rest)
  exact ⟨second, others, first.trans (congrArg _ more)⟩

theorem isAbsolute_ofSegments (second : List Char) (rest : List (List Char)) :
    (ofSegments ([] :: second :: rest)).isAbsolute = true := by
  rw [isAbsolute, ofSegments, String.toList_ofList, List.intercalate_cons_cons]
  rfl

end Path

/-! ### Moves -/

/-- The place to which a component leads from a place. -/
def Component.moveFrom (place : Place) : Component → Place
  | .root => []
  | .current => place
  | .parent => place.dropLast
  | .entry name => place ++ [name]

namespace Path

/-- The components of segments that lead elsewhere. -/
def movesOf (segments : List (List Char)) : List Component := segments.filterMap componentOf?

/-- The components of a path that lead elsewhere. -/
def moves (path : Path) : List Component := movesOf (path.text.toList.splitOn '/')

/-- The place to which moves lead from the root. -/
def placeAfter (moves : List Component) : Place := moves.foldl Component.moveFrom []

/-- The place for which an absolute path stands as it is written. -/
def writtenPlace (path : Path) : Place := placeAfter path.moves

theorem movesOf_cons_name {segment : List Char} (nonempty : segment ≠ [])
    (notDot : segment ≠ ['.']) (notDots : segment ≠ ['.', '.']) (rest : List (List Char)) :
    movesOf (segment :: rest) = .entry (String.ofList segment) :: movesOf rest :=
  List.filterMap_cons_some (componentOf?.eq_4 segment nonempty notDot notDots)

theorem movesOf_cons_idle {segment : List Char} (idle : segment = [] ∨ segment = ['.'])
    (rest : List (List Char)) : movesOf (segment :: rest) = movesOf rest := by
  rcases idle with rfl | rfl
  · rfl
  · rfl

theorem components_of_isAbsolute {path : Path} (absolute : path.isAbsolute = true) :
    path.components = .root :: path.moves := by
  obtain ⟨second, rest, segments⟩ := splitOn_of_isAbsolute absolute
  rw [components, moves, segments, movesOf_cons_idle (Or.inl rfl)]
  rfl

theorem movesOf_cons_dots (rest : List (List Char)) :
    movesOf (['.', '.'] :: rest) = .parent :: movesOf rest := rfl

theorem movesOf_append (segments more : List (List Char)) :
    movesOf (segments ++ more) = movesOf segments ++ movesOf more :=
  List.filterMap_append

theorem placeAfter_concat (moves : List Component) (last : Component) :
    placeAfter (moves ++ [last]) = last.moveFrom (placeAfter moves) := by
  rw [placeAfter, List.foldl_append]
  rfl

/-- Names lead further down. -/
theorem foldl_moveFrom_entries (names : List String) (place : Place) :
    (names.map Component.entry).foldl Component.moveFrom place = place ++ names := by
  induction names generalizing place with
  | nil => exact (List.append_nil place).symm
  | cons name rest inductionHypothesis =>
    rw [List.map_cons, List.foldl_cons, inductionHypothesis]
    exact List.append_assoc place [name] rest

/-- The moves of a path lead to an entry each, or back. -/
theorem eq_parent_or_entry_of_mem_movesOf {segments : List (List Char)} {move : Component}
    (member : move ∈ movesOf segments) : move = .parent ∨ ∃ name, move = .entry name := by
  obtain ⟨segment, -, leads⟩ := List.mem_filterMap.mp member
  unfold componentOf? at leads
  split at leads
  · cases leads
  · cases leads
  · cases leads
    exact Or.inl rfl
  · cases leads
    exact Or.inr ⟨_, rfl⟩

/-- What is before a joined text moves as the path does. -/
theorem movesOf_segmentsBefore (path : Path) : movesOf path.segmentsBefore = path.moves := by
  obtain ⟨idle, segments, empty⟩ := path.exists_splitOn_eq
  have nothing : movesOf idle = [] :=
    List.filterMap_eq_nil_iff.mpr fun segment member => by rw [empty segment member]; rfl
  rw [moves, segments, movesOf_append, nothing, List.append_nil]

theorem moves_join (path : Path) {below : String} (relative : below.toList.head? ≠ some '/') :
    (path.join below).moves = path.moves ++ movesOf (below.toList.splitOn '/') := by
  rw [moves, splitOn_join path relative, movesOf_append, movesOf_segmentsBefore]

theorem text_ne_of_isAbsolute {path : Path} (absolute : path.isAbsolute = true) :
    path.text ≠ "" := by
  intro empty
  rw [isAbsolute, empty] at absolute
  cases absolute

theorem IsEntryName.movesOf_cons {name : String} (named : IsEntryName name)
    (rest : List (List Char)) :
    movesOf (name.toList :: rest) = .entry name :: movesOf rest := by
  rw [movesOf_cons_name named.nonempty named.notDot named.notDots, String.ofList_toList]

/-- The place of a name that is joined to a path is a name in the folder of the path. -/
theorem IsEntryName.writtenPlace_join (path : Path) {name : String} (named : IsEntryName name) :
    (path.join name).writtenPlace = path.writtenPlace ++ [name] := by
  rw [writtenPlace, moves_join path named.head?_ne, List.splitOn_eq_singleton named.noSlash,
    named.movesOf_cons]
  exact placeAfter_concat path.moves (.entry name)

end Path

namespace FileStore

variable {store after : FileStore} {trail : Trail} {segments : List (List Char)} {spot : Spot}

theorem placeOf_tail (trail : Trail) : placeOf trail.tail = (placeOf trail).dropLast := by
  rw [placeOf, placeOf, List.map_tail, ← List.dropLast_reverse]

/-- A path that is followed leads to the place for which it stands. -/
theorem Follows.place_eq (follows : store.Follows trail segments spot) :
    spot.place = (Path.movesOf segments).foldl Component.moveFrom (placeOf trail) := by
  induction follows with
  | arrived trail => rfl
  | stay idle _ inductionHypothesis => rw [Path.movesOf_cons_idle idle, inductionHypothesis]
  | up _ inductionHypothesis =>
    rw [Path.movesOf_cons_dots, inductionHypothesis, placeOf_tail]
    rfl
  | down named child _ inductionHypothesis =>
    rw [Path.movesOf_cons_name named.1 named.2.1 named.2.2.1,
      inductionHypothesis, placeOf_cons]
    rfl
  | file named child =>
    rw [Path.movesOf_cons_name named.1 named.2.1 named.2.2.1]
    rfl
  | free named child =>
    rw [Path.movesOf_cons_name named.1 named.2.1 named.2.2.1]
    rfl

theorem startOf_of_isAbsolute {path : Path} (absolute : path.isAbsolute = true) :
    store.startOf path = [] := by
  rw [startOf, if_pos absolute]

/-- The place for which a path stands in a store as it is written. -/
def writtenPlaceOf (store : FileStore) (path : Path) : Place :=
  Path.placeAfter (Path.movesOf (store.startOf path) ++ path.moves)

theorem writtenPlaceOf_of_isAbsolute {path : Path} (absolute : path.isAbsolute = true) :
    store.writtenPlaceOf path = path.writtenPlace := by
  rw [writtenPlaceOf, startOf_of_isAbsolute absolute]
  rfl

theorem eq_writtenPlaceOf_of_locate {path : Path} (located : store.locate path = .ok spot) :
    spot.place = store.writtenPlaceOf path := by
  obtain ⟨-, follows⟩ := (locate_eq_ok_iff path spot).mp located
  rw [follows.place_eq, Path.movesOf_append]
  rfl

theorem eq_writtenPlaceOf_of_place? {path : Path} {place : Place}
    (here : store.place? path = some place) : place = store.writtenPlaceOf path := by
  obtain ⟨entry, located⟩ := (place?_eq_some_iff path).mp here
  exact eq_writtenPlaceOf_of_locate located

theorem eq_writtenPlace_of_locate {path : Path} (absolute : path.isAbsolute = true)
    (located : store.locate path = .ok spot) : spot.place = path.writtenPlace :=
  (eq_writtenPlaceOf_of_locate located).trans (writtenPlaceOf_of_isAbsolute absolute)

theorem eq_writtenPlace_of_place? {path : Path} {place : Place}
    (absolute : path.isAbsolute = true) (here : store.place? path = some place) :
    place = path.writtenPlace :=
  (eq_writtenPlaceOf_of_place? here).trans (writtenPlaceOf_of_isAbsolute absolute)

/-! ### Moves through folders -/

/-- Whether moves from a place lead to folders only. -/
def Passes (store : FileStore) (place : Place) (moves : List Component) : Prop :=
  ∀ front, front <+: moves → store.HasFolder (front.foldl Component.moveFrom place)

theorem passes_nil_iff (place : Place) : store.Passes place [] ↔ store.HasFolder place := by
  constructor
  · exact fun passes => passes [] List.nil_prefix
  · intro folder front prefix_
    rw [List.prefix_nil.mp prefix_]
    exact folder

theorem passes_cons_iff (place : Place) (move : Component) (moves : List Component) :
    store.Passes place (move :: moves) ↔
      store.HasFolder place ∧ store.Passes (move.moveFrom place) moves := by
  constructor
  · intro passes
    refine ⟨passes [] List.nil_prefix, fun front starts => ?_⟩
    exact passes (move :: front) (List.cons_prefix_cons.mpr ⟨rfl, starts⟩)
  · rintro ⟨here, passes⟩ front starts
    rcases List.prefix_cons_iff.mp starts with rfl | ⟨rest, rfl, further⟩
    · exact here
    · exact passes rest further

theorem Passes.hasFolder {place : Place} {moves : List Component}
    (passes : store.Passes place moves) :
    store.HasFolder (moves.foldl Component.moveFrom place) :=
  passes moves (List.prefix_refl moves)

theorem Passes.of_append {place : Place} {moves more : List Component}
    (passes : store.Passes place (moves ++ more)) : store.Passes place moves :=
  fun front starts => passes front (starts.trans (List.prefix_append moves more))

/-- Whether all entries that moves name have names that are short enough. -/
def ShortNames (moves : List Component) : Prop :=
  ∀ name, Component.entry name ∈ moves → ¬ longestName < Text.byteLength name.toList

theorem shortNames_cons_entry_iff (name : String) (moves : List Component) :
    ShortNames (.entry name :: moves) ↔
      ¬ longestName < Text.byteLength name.toList ∧ ShortNames moves := by
  simp only [ShortNames, List.mem_cons, Component.entry.injEq, forall_eq_or_imp]

theorem shortNames_cons_parent_iff (moves : List Component) :
    ShortNames (.parent :: moves) ↔ ShortNames moves := by
  simp only [ShortNames, List.mem_cons, reduceCtorEq, false_or]

theorem follows_cons_idle_iff {segment : List Char} (idle : segment = [] ∨ segment = ['.'])
    (rest : List (List Char)) :
    store.Follows trail (segment :: rest) spot ↔ store.Follows trail rest spot := by
  rw [← follow_eq_ok_iff, ← follow_eq_ok_iff]
  rcases idle with rfl | rfl
  · rw [follow]
  · rw [follow]

theorem follows_cons_dots_iff (rest : List (List Char)) :
    store.Follows trail (['.', '.'] :: rest) spot ↔ store.Follows trail.tail rest spot := by
  rw [← follow_eq_ok_iff, ← follow_eq_ok_iff, follow]

/-- To a folder, a name leads through a folder. -/
theorem follows_cons_name_folder_iff {segment : List Char} (named : IsName segment)
    (rest : List (List Char)) (place : Place) (entries : Table String FileEntry) :
    store.Follows trail (segment :: rest) (.taken place (.folder entries)) ↔
      ∃ inner, (store.folderOf trail).child? (String.ofList segment) = some (.folder inner) ∧
        store.Follows ((String.ofList segment, .folder inner) :: trail) rest
          (.taken place (.folder entries)) := by
  rw [← follow_eq_ok_iff, follow_name trail named]
  cases (store.folderOf trail).child? (String.ofList segment) with
  | none =>
    refine iff_of_false (fun ended => ?_) (fun ⟨inner, found, _⟩ => nomatch found)
    dsimp only at ended
    split at ended
    · cases ended
    · cases ended
  | some entry =>
    cases entry with
    | file bytes =>
      refine iff_of_false (fun ended => ?_) (fun ⟨inner, found, _⟩ => nomatch found)
      dsimp only at ended
      split at ended
      · cases ended
      · cases ended
    | folder inner =>
      rw [follow_eq_ok_iff]
      constructor
      · exact fun onwards => ⟨inner, rfl, onwards⟩
      · rintro ⟨_, ⟨⟩, onwards⟩
        exact onwards

/-- Segments lead to a folder if all their moves do. -/
theorem exists_follows_folder_iff (rooted : store.Rooted) (leads : store.Leads trail)
    (segments : List (List Char)) :
    (∃ place entries, store.Follows trail segments (.taken place (.folder entries))) ↔
      store.Passes (placeOf trail) (Path.movesOf segments) ∧ ShortNames (Path.movesOf segments) := by
  induction segments generalizing trail with
  | nil =>
    have folder := leads.hasFolder rooted
    refine iff_of_true ?_ ⟨(passes_nil_iff _).mpr folder, fun name member => nomatch member⟩
    obtain ⟨entries, here⟩ := folder
    rw [entryAt?_placeOf leads] at here
    exact ⟨placeOf trail, entries, Option.some.inj here ▸ .arrived trail⟩
  | cons segment rest inductionHypothesis =>
    by_cases idle : segment = [] ∨ segment = ['.']
    · rw [Path.movesOf_cons_idle idle, ← inductionHypothesis leads]
      simp only [follows_cons_idle_iff idle]
    by_cases dots : segment = ['.', '.']
    · rw [dots, Path.movesOf_cons_dots, passes_cons_iff, shortNames_cons_parent_iff,
        Component.moveFrom, ← placeOf_tail, and_assoc, ← inductionHypothesis leads.tail]
      simp only [follows_cons_dots_iff]
      exact (and_iff_right (leads.hasFolder rooted)).symm
    rw [not_or] at idle
    rw [Path.movesOf_cons_name idle.1 idle.2 dots, passes_cons_iff, shortNames_cons_entry_iff,
      String.toList_ofList, Component.moveFrom]
    by_cases long : longestName < Text.byteLength segment
    · refine iff_of_false ?_ fun ⟨_, short, _⟩ => short long
      rintro ⟨place, entries, follows⟩
      rw [← follow_eq_ok_iff, follow.eq_5 store trail segment rest idle.1 idle.2 dots,
        if_pos long] at follows
      cases follows
    simp only [follows_cons_name_folder_iff ⟨idle.1, idle.2, dots, long⟩]
    constructor
    · rintro ⟨place, entries, inner, child, follows⟩
      obtain ⟨passes, short⟩ := (inductionHypothesis (leads.cons child)).mp ⟨place, entries, follows⟩
      rw [placeOf_cons] at passes
      exact ⟨⟨leads.hasFolder rooted, passes⟩, long, short⟩
    · rintro ⟨⟨-, passes⟩, -, short⟩
      obtain ⟨inner, here⟩ := passes [] List.nil_prefix
      have child := (child?_folderOf leads _).trans here
      rw [← placeOf_cons _ (.folder inner)] at passes
      obtain ⟨place, entries, follows⟩ := (inductionHypothesis (leads.cons child)).mpr ⟨passes, short⟩
      exact ⟨place, entries, inner, child, follows⟩

theorem isFolder_iff_locate (path : Path) : store.isFolder path = true ↔
    ∃ place entries, store.locate path = .ok (.taken place (.folder entries)) := by
  rw [isFolder, entry?]
  constructor
  · intro folder
    split at folder
    case h_1 place entry located =>
      cases entry with
      | folder entries => exact ⟨place, entries, located⟩
      | file bytes => cases folder
    case h_2 => cases folder
  · rintro ⟨place, entries, located⟩
    rw [located]
    rfl

/-- An absolute path leads to a folder if all its moves do. -/
theorem isFolder_iff {path : Path} (rooted : store.Rooted) (absolute : path.isAbsolute = true) :
    store.isFolder path = true ↔
      faultOf? path = none ∧ store.Passes [] path.moves ∧ ShortNames path.moves := by
  rw [isFolder_iff_locate]
  simp only [locate_eq_ok_iff, startOf_of_isAbsolute absolute, List.nil_append, exists_and_left]
  exact and_congr_right fun _ => exists_follows_folder_iff rooted leads_nil _

theorem isFolder_of_join {path : Path} {below : String} (rooted : store.Rooted)
    (absolute : path.isAbsolute = true) (relative : below.toList.head? ≠ some '/')
    (folder : store.isFolder (path.join below) = true) : store.isFolder path = true := by
  have joined : (path.join below).isAbsolute = true :=
    (Path.isAbsolute_join path relative).trans absolute
  obtain ⟨faultless, passes, short⟩ := (isFolder_iff rooted joined).mp folder
  rw [Path.moves_join path relative] at passes short
  refine (isFolder_iff rooted absolute).mpr ⟨?_, passes.of_append, fun name member => ?_⟩
  · exact faultOf?_of_join (Path.text_ne_of_isAbsolute absolute) relative faultless
  · exact short name (List.mem_append_left _ member)

/-! ### Steps back -/

/-- Whether moves from the root step back only from folders that are there. -/
def StepsBackInside (store : FileStore) (moves : List Component) : Prop :=
  ∀ front rest, moves = front ++ .parent :: rest → store.HasFolder (Path.placeAfter front)

theorem hasFolder_iff_any (store : FileStore) (place : Place) :
    store.HasFolder place ↔ (store.entryAt? place).any FileEntry.isFolder = true := by
  rw [HasFolder]
  cases store.entryAt? place with
  | none => exact iff_of_false (by rintro ⟨_, ⟨⟩⟩) Bool.false_ne_true
  | some entry =>
    cases entry with
    | folder entries => exact iff_of_true ⟨entries, rfl⟩ rfl
    | file bytes => exact iff_of_false (by rintro ⟨_, ⟨⟩⟩) Bool.false_ne_true

instance (store : FileStore) (place : Place) : Decidable (store.HasFolder place) :=
  decidable_of_iff _ (store.hasFolder_iff_any place).symm

theorem stepsBackInside_iff_take (store : FileStore) (moves : List Component) :
    store.StepsBackInside moves ↔ ∀ index ∈ List.range moves.length,
      moves[index]? = some .parent → store.HasFolder (Path.placeAfter (moves.take index)) := by
  constructor
  · intro inside index _ back
    obtain ⟨inRange, here⟩ := List.getElem?_eq_some_iff.mp back
    refine inside (moves.take index) (moves.drop (index + 1)) ?_
    rw [← here, ← List.drop_eq_getElem_cons inRange, List.take_append_drop]
  · rintro checked front rest rfl
    have inRange : front.length ∈ List.range (front ++ Component.parent :: rest).length :=
      List.mem_range.mpr (by simp)
    have back : (front ++ Component.parent :: rest)[front.length]? = some .parent := by simp
    have folder := checked front.length inRange back
    rw [List.take_left] at folder
    exact folder

instance (store : FileStore) (moves : List Component) : Decidable (store.StepsBackInside moves) :=
  decidable_of_iff _ (store.stepsBackInside_iff_take moves).symm

theorem StepsBackInside.of_append {moves more : List Component}
    (inside : store.StepsBackInside (moves ++ more)) : store.StepsBackInside moves := by
  rintro front rest rfl
  exact inside front (rest ++ more) (List.append_assoc ..)

/-- Moves that step back only from folders lead through folders if they lead to one. -/
theorem StepsBackInside.passes {moves : List Component} (inside : store.StepsBackInside moves)
    (proper : ∀ move ∈ moves, move = .parent ∨ ∃ name, move = .entry name)
    (folder : store.HasFolder (Path.placeAfter moves)) : store.Passes [] moves := by
  induction moves using List.reverseRecOn with
  | nil => exact (passes_nil_iff []).mpr folder
  | append_singleton moves last inductionHypothesis =>
    have before : store.HasFolder (Path.placeAfter moves) := by
      rcases proper last List.mem_concat_self with rfl | ⟨name, rfl⟩
      · exact inside moves [] rfl
      · rw [Path.placeAfter_concat] at folder
        obtain ⟨entries, found⟩ := folder
        exact store.hasFolder_of_entryAt?_append found
    have passes := inductionHypothesis inside.of_append
      (fun move member => proper move (List.mem_append_left _ member)) before
    intro front starts
    rcases List.prefix_concat_iff.mp starts with rfl | starts
    · exact folder
    · exact passes front starts

/-- From a place where no folder is, moves that step back only from folders lead further down. -/
theorem StepsBackInside.prefix_placeAfter {moves more : List Component}
    (inside : store.StepsBackInside (moves ++ more))
    (proper : ∀ move ∈ more, move = .parent ∨ ∃ name, move = .entry name)
    (noFolder : ¬ store.HasFolder (Path.placeAfter moves)) :
    Path.placeAfter moves <+: Path.placeAfter (moves ++ more) := by
  induction more using List.reverseRecOn with
  | nil =>
    have same : Path.placeAfter (moves ++ []) = Path.placeAfter moves :=
      congrArg Path.placeAfter (List.append_nil moves)
    exact same ▸ List.prefix_rfl
  | append_singleton more last inductionHypothesis =>
    rw [← List.append_assoc] at inside ⊢
    have further := inductionHypothesis inside.of_append
      fun move member => proper move (List.mem_append_left _ member)
    rw [Path.placeAfter_concat]
    rcases proper last List.mem_concat_self with rfl | ⟨name, rfl⟩
    · obtain ⟨entries, folder⟩ := inside (moves ++ more) [] rfl
      obtain ⟨below, same⟩ := further
      cases below with
      | nil =>
        rw [List.append_nil] at same
        exact absurd ⟨entries, same ▸ folder⟩ noFolder
      | cons name rest =>
        rw [← same] at folder
        exact absurd (store.hasFolder_of_entryAt?_append folder) noFolder
    · exact further.trans (List.prefix_append _ _)

end FileStore

end SourceCapture
