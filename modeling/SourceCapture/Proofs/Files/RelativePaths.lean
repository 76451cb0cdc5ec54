/-
Relative paths. The way from a root to a path goes up for every component that only the root has,
and down along the components that only the path has. If the root never goes up itself, the way up
ends where the two paths part, and so the way leads from the root to the path, whatever else is
in the path. A path that goes on from the root is reached by going down alone.
-/

import SourceCapture.Proofs.Files.Discovery

namespace SourceCapture

namespace Path

/-! ### Components of absolute paths -/

theorem effectiveComponents_of_isAbsolute {path : Path} (absolute : path.isAbsolute = true) :
    path.effectiveComponents = path.components := by
  rw [effectiveComponents, List.filter_eq_self, components_of_isAbsolute absolute]
  intro component member
  rcases List.mem_cons.mp member with rfl | inside
  · rfl
  · rcases eq_parent_or_entry_of_mem_movesOf inside with rfl | ⟨name, rfl⟩
    · rfl
    · rfl

/-- The names in a path are those of entries. -/
theorem isEntryName_of_mem_moves {path : Path} {name : String}
    (member : .entry name ∈ path.moves) : IsEntryName name := by
  obtain ⟨segment, inside, leads⟩ := List.mem_filterMap.mp member
  have noSlash := Text.not_mem_of_mem_splitOn inside
  unfold componentOf? at leads
  split at leads
  · cases leads
  · cases leads
  · cases leads
  · cases leads
    rename_i nonempty notDot notDots
    refine ⟨?_, ?_, ?_, ?_⟩ <;> rw [String.toList_ofList]
    · exact noSlash
    · exact nonempty
    · exact notDot
    · exact notDots

/-! ### The part that two paths share -/

theorem exists_dropCommon (left right : List Component) :
    ∃ common, left = common ++ (dropCommon left right).1 ∧
      right = common ++ (dropCommon left right).2 := by
  induction left, right using dropCommon.induct with
  | case1 lefts first rights inductionHypothesis =>
    obtain ⟨common, leftParts, rightParts⟩ := inductionHypothesis
    rw [dropCommon, if_pos rfl]
    exact ⟨first :: common, congrArg _ leftParts, congrArg _ rightParts⟩
  | case2 left lefts right rights other =>
    rw [dropCommon, if_neg other]
    exact ⟨[], rfl, rfl⟩
  | case3 lefts rights other =>
    rw [dropCommon]
    · exact ⟨[], rfl, rfl⟩
    · exact other

theorem dropCommon_append (front rest : List Component) :
    dropCommon front (front ++ rest) = ([], rest) := by
  induction front with
  | nil => rw [List.nil_append, dropCommon]; exact nofun
  | cons first front inductionHypothesis =>
    rw [List.cons_append, dropCommon, if_pos rfl, inductionHypothesis]

/-- What two absolute paths share starts at the root, and the way from one to the other goes up
for the rest of the one and down along the rest of the other. -/
theorem exists_relativeTo {root path : Path} (rootAbsolute : root.isAbsolute = true)
    (absolute : path.isAbsolute = true) :
    ∃ common ups downs, root.moves = common ++ ups ∧ path.moves = common ++ downs ∧
      relativeTo root path = "/".intercalate
        ((ups.map (fun _ => Component.parent) ++ downs).map Component.text) := by
  obtain ⟨common, ups, downs⟩ := exists_dropCommon root.moves path.moves
  refine ⟨common, _, _, ups, downs, ?_⟩
  rw [relativeTo, effectiveComponents_of_isAbsolute rootAbsolute,
    effectiveComponents_of_isAbsolute absolute, components_of_isAbsolute rootAbsolute,
    components_of_isAbsolute absolute, dropCommon, if_pos rfl, List.map_append, List.map_map]
  rfl

/-! ### Walking -/

/-- The place to which the segments of a relative path lead from a place. Every `..` takes back
the name before it. -/
def placeFrom (place : Place) (relative : String) : Place :=
  (movesOf (relative.toList.splitOn '/')).foldl Component.moveFrom place

/-- Whether a move can stand in a relative path: up, or to an entry. -/
def IsMove (move : Component) : Prop :=
  move = .parent ∨ ∃ name, move = .entry name ∧ IsEntryName name

theorem isMove_of_mem_moves {path : Path} {move : Component} (member : move ∈ path.moves) :
    IsMove move := by
  refine (eq_parent_or_entry_of_mem_movesOf member).imp_right ?_
  rintro ⟨name, rfl⟩
  exact ⟨name, rfl, isEntryName_of_mem_moves member⟩

theorem movesOf_texts {steps : List Component} (proper : ∀ move ∈ steps, IsMove move) :
    movesOf (steps.map (String.toList ∘ Component.text)) = steps := by
  induction steps with
  | nil => rfl
  | cons move rest inductionHypothesis =>
    obtain ⟨here, later⟩ := List.forall_mem_cons.mp proper
    rw [List.map_cons, Function.comp_apply]
    rcases here with rfl | ⟨name, rfl, named⟩
    · exact congrArg _ (inductionHypothesis later)
    · exact (named.movesOf_cons _).trans (congrArg _ (inductionHypothesis later))

/-- Moves that are written with slashes between them are read back. -/
theorem movesOf_intercalate {steps : List Component} (proper : ∀ move ∈ steps, IsMove move) :
    movesOf (("/".intercalate (steps.map Component.text)).toList.splitOn '/') = steps := by
  by_cases empty : steps = []
  · rw [empty]
    rfl
  · have noSlash : ∀ segment ∈ steps.map (String.toList ∘ Component.text), '/' ∉ segment := by
      intro segment member
      obtain ⟨move, inside, rfl⟩ := List.mem_map.mp member
      rcases proper move inside with rfl | ⟨name, rfl, named⟩
      · decide
      · exact named.noSlash
    have segments := List.splitOn_intercalate '/' noSlash (by rwa [ne_eq, List.map_eq_nil_iff])
    rw [String.toList_intercalate, List.map_map]
    exact (congrArg movesOf segments).trans (movesOf_texts proper)

theorem foldl_moveFrom_parents {Item : Type} (items : List Item) (place : Place)
    {names : List String} (long : names.length = items.length) :
    (items.map fun _ => Component.parent).foldl Component.moveFrom (place ++ names) = place := by
  induction items generalizing names with
  | nil =>
    rw [List.length_eq_zero_iff.mp long]
    exact List.append_nil place
  | cons item rest inductionHypothesis =>
    have nonempty : names ≠ [] := List.ne_nil_of_length_eq_add_one long
    have shorter : names.dropLast.length = rest.length := by
      rw [List.length_dropLast, long]
      rfl
    rw [List.map_cons, List.foldl_cons, Component.moveFrom,
      List.dropLast_append_of_ne_nil nonempty, inductionHypothesis shorter]

/-- Going up once for every name that was gone down takes back all of them. -/
theorem foldl_moveFrom_entries_parents {moves : List Component}
    (entries : ∀ move ∈ moves, ∃ name, move = .entry name) (place : Place) :
    (moves.map fun _ => Component.parent).foldl Component.moveFrom
      (moves.foldl Component.moveFrom place) = place := by
  obtain ⟨names, rfl⟩ : ∃ names : List String, moves = names.map .entry := by
    induction moves with
    | nil => exact ⟨[], rfl⟩
    | cons move rest inductionHypothesis =>
      obtain ⟨⟨name, rfl⟩, later⟩ := List.forall_mem_cons.mp entries
      obtain ⟨names, rfl⟩ := inductionHypothesis later
      exact ⟨name :: names, rfl⟩
  rw [foldl_moveFrom_entries, foldl_moveFrom_parents]
  rw [List.length_map]

/-- The relative path leads from the root to the path. If the path goes on from the root, the
relative path is what is behind the root. -/
theorem placeFrom_relativeTo_and_eq_rest {root path : Path}
    (rootAbsolute : root.isAbsolute = true) (noParent : .parent ∉ root.components)
    (absolute : path.isAbsolute = true) :
    placeFrom root.writtenPlace (relativeTo root path) = path.writtenPlace ∧
      ∀ rest, path.components = root.components ++ rest →
        relativeTo root path = "/".intercalate (rest.map Component.text) := by
  constructor
  · obtain ⟨common, ups, downs, rootMoves, pathMoves, relative⟩ :=
      exists_relativeTo rootAbsolute absolute
    have entries : ∀ move ∈ ups, ∃ name, move = .entry name := by
      intro move member
      have inRoot : move ∈ root.moves := rootMoves ▸ List.mem_append_right common member
      refine (eq_parent_or_entry_of_mem_movesOf inRoot).resolve_left ?_
      rintro rfl
      rw [components_of_isAbsolute rootAbsolute] at noParent
      exact noParent (List.mem_cons_of_mem _ inRoot)
    have proper : ∀ move ∈ ups.map (fun _ => Component.parent) ++ downs, IsMove move := by
      intro move member
      rcases List.mem_append.mp member with up | down
      · obtain ⟨-, -, rfl⟩ := List.mem_map.mp up
        exact Or.inl rfl
      · exact isMove_of_mem_moves (pathMoves ▸ List.mem_append_right common down)
    rw [placeFrom, relative, movesOf_intercalate proper, writtenPlace, writtenPlace, rootMoves,
      pathMoves, placeAfter, placeAfter, List.foldl_append, List.foldl_append, List.foldl_append,
      foldl_moveFrom_entries_parents entries]
  · intro rest goesOn
    rw [relativeTo, effectiveComponents_of_isAbsolute rootAbsolute,
      effectiveComponents_of_isAbsolute absolute, goesOn, dropCommon_append]
    rfl

/-- A path that goes up above the root's own folder, and one that goes on from the root. -/
theorem placeFrom_relativeTo_folder :
    (Path.mk "/a/./b/").isAbsolute = true ∧ .parent ∉ (Path.mk "/a/./b/").components ∧
      (Path.mk "/a/../c//d/E.kt").isAbsolute = true ∧
      (placeFrom (Path.mk "/a/./b/").writtenPlace (relativeTo ⟨"/a/./b/"⟩ ⟨"/a/../c//d/E.kt"⟩) =
          (Path.mk "/a/../c//d/E.kt").writtenPlace ∧
        relativeTo ⟨"/a/./b/"⟩ ⟨"/a/../c//d/E.kt"⟩ = "../../c/d/E.kt" ∧
        (Path.mk "/a/../c//d/E.kt").writtenPlace = ["c", "d", "E.kt"]) ∧
      (Path.mk "/a/b/./c/E.kt").components =
          (Path.mk "/a/./b/").components ++ [.entry "c", .entry "E.kt"] ∧
        relativeTo ⟨"/a/./b/"⟩ ⟨"/a/b/./c/E.kt"⟩ = "c/E.kt" := by
  have rootAbsolute : (Path.mk "/a/./b/").isAbsolute = true := by decide
  have noParent : .parent ∉ (Path.mk "/a/./b/").components := by decide
  have absolute : (Path.mk "/a/../c//d/E.kt").isAbsolute = true := by decide
  have goesOn : (Path.mk "/a/b/./c/E.kt").components =
      (Path.mk "/a/./b/").components ++ [.entry "c", .entry "E.kt"] := by decide
  refine ⟨rootAbsolute, noParent, absolute, ⟨?_, by decide, by decide⟩, goesOn, ?_⟩
  · exact (placeFrom_relativeTo_and_eq_rest rootAbsolute noParent absolute).1
  · exact (placeFrom_relativeTo_and_eq_rest rootAbsolute noParent (by decide)).2 _ goesOn

end Path

end SourceCapture
