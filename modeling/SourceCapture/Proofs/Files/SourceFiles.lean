/-
The source files of a project, in a store which has grown apart from them. The same entries match
the patterns of the source roots, so the same files are read, and their texts are parsed as before.
-/

import SourceCapture.Proofs.Files.Discovery

namespace SourceCapture

/-! ### Entries in order -/

theorem SourceEntry.mem_of_mem_withoutRepeats {before : Option Path} {entries : List SourceEntry}
    {entry : SourceEntry} (member : entry ∈ withoutRepeats before entries) : entry ∈ entries := by
  induction entries generalizing before with
  | nil => exact member
  | cons first rest inductionHypothesis =>
    rw [withoutRepeats] at member
    split at member
    case isTrue => exact List.mem_cons_of_mem _ (inductionHypothesis member)
    case isFalse =>
      rcases List.mem_cons.mp member with rfl | later
      · exact List.mem_cons_self
      · exact List.mem_cons_of_mem _ (inductionHypothesis later)

/-- Entries of which no two have the same path have no repeats. -/
theorem SourceEntry.withoutRepeats_eq_self {before : Option Path} {entries : List SourceEntry}
    (first : ∀ entry ∈ entries, before.any entry.path.sameAs = false)
    (apart : entries.Pairwise fun left right => right.path.sameAs left.path = false) :
    withoutRepeats before entries = entries := by
  induction entries generalizing before with
  | nil => rfl
  | cons entry rest inductionHypothesis =>
    obtain ⟨here, others⟩ := List.pairwise_cons.mp apart
    have further : withoutRepeats (some entry.path) rest = rest := inductionHypothesis here others
    rw [withoutRepeats, if_neg (Bool.eq_false_iff.mp (first entry List.mem_cons_self)), further]

namespace Extraction

variable {extraction : Extraction} {store after : FileStore} {folder : Place}

/-- The path of a source root. -/
def rootPath (extraction : Extraction) (root : String) : Path := extraction.projectDir.join root

theorem exists_of_mem_patterns {pattern : String × Frontend}
    (member : pattern ∈ extraction.patterns) :
    ∃ root ∈ extraction.sourceRoots, pattern.2 ∈ extraction.frontends ∧
      ∃ extension ∈ pattern.2.extensions,
        pattern.1 = FileStore.patternBelow (extraction.rootPath root) extension := by
  obtain ⟨root, isRoot, member⟩ := List.mem_flatMap.mp member
  obtain ⟨frontend, registered, member⟩ := List.mem_flatMap.mp member
  obtain ⟨extension, parses, rfl⟩ := List.mem_map.mp member
  exact ⟨root, isRoot, registered, extension, parses, rfl⟩

theorem matching_eq_ok_iff {pattern : String × Frontend} {entries : List SourceEntry} :
    matching store pattern = .ok entries ↔
      ∃ paths, store.search pattern.1.toList = .ok paths ∧
        entries = paths.map (⟨·, pattern.2⟩) := by
  rw [matching]
  cases store.search pattern.1.toList with
  | ok paths =>
    constructor
    · rintro ⟨⟩
      exact ⟨paths, rfl, rfl⟩
    · rintro ⟨_, ⟨⟩, rfl⟩
      rfl
  | error cause =>
    cases cause with
    | malformed | unlistable =>
      exact iff_of_false (fun failed => nomatch failed) fun ⟨_, failed, _⟩ => nomatch failed

theorem readEntry_eq_ok_iff {entry : SourceEntry} {file : ParsedFile} :
    extraction.readEntry store entry = .ok file ↔
      ∃ text, store.readText entry.path = .ok text ∧
        file = ⟨Document.ofFile entry.path (Text.normalizeNewlines text.toList) extraction.projectDir,
          entry.frontend.parse (Text.normalizeNewlines text.toList)⟩ := by
  rw [readEntry]
  cases store.readText entry.path with
  | ok text =>
    constructor
    · rintro ⟨⟩
      exact ⟨text, rfl, rfl⟩
    · rintro ⟨_, ⟨⟩, rfl⟩
      rfl
  | error cause =>
    exact iff_of_false (fun failed => nomatch failed) fun ⟨_, failed, _⟩ => nomatch failed

/-- Where a source file comes from. -/
theorem exists_pattern_of_mem {entries : List SourceEntry}
    (found : extraction.sourceEntries store = .ok entries) {entry : SourceEntry}
    (member : entry ∈ entries) :
    ∃ pattern ∈ extraction.patterns, ∃ group, matching store pattern = .ok group ∧ entry ∈ group := by
  obtain ⟨groups, matched, found⟩ := bind_eq_ok_iff.mp found
  cases found
  have sorted := List.mem_mergeSort.mp (SourceEntry.mem_of_mem_withoutRepeats member)
  obtain ⟨group, isGroup, inGroup⟩ := List.mem_flatten.mp (List.mem_of_mem_filter sorted)
  obtain ⟨pattern, isPattern, there⟩ := exists_of_mem_of_mapM_ok matched isGroup
  exact ⟨pattern, isPattern, group, there, inGroup⟩

/-- Where nothing is left out and no two paths are the same, all that matches is a source file. -/
theorem exists_sourceEntries_perm {groups : List (List SourceEntry)}
    (matched : extraction.patterns.mapM (matching store) = .ok groups)
    (kept : ∀ entry ∈ groups.flatten, extraction.leavesOut entry.path = false)
    (apart : groups.flatten.Pairwise fun left right => left.path.sameAs right.path = false) :
    ∃ entries, extraction.sourceEntries store = .ok entries ∧ entries.Perm groups.flatten := by
  refine ⟨_, bind_eq_ok_iff.mpr ⟨groups, matched, rfl⟩, ?_⟩
  have all : groups.flatten.filter (fun entry => !extraction.leavesOut entry.path) =
      groups.flatten :=
    List.filter_eq_self.mpr fun entry member => by rw [kept entry member]; rfl
  rw [all]
  have sorted := groups.flatten.mergeSort_perm SourceEntry.isBefore
  have symmetric : ∀ left right : SourceEntry, left.path.sameAs right.path = false →
      right.path.sameAs left.path = false := by
    intro left right differ
    rw [Path.sameAs, decide_eq_false_iff_not] at differ ⊢
    exact fun same => differ same.symm
  have stillApart := sorted.symm.pairwise apart fun {left right} => symmetric left right
  rw [SourceEntry.withoutRepeats_eq_self (fun _ _ => rfl)
    (stillApart.imp fun {left right} => symmetric left right)]
  exact sorted

/-! ### A store that has grown -/

/-- What is needed of a project so that its source files are the same in a store which has grown
at a folder. -/
structure FindsApart (extraction : Extraction) (store : FileStore) (folder : Place) : Prop where
  absolute : extraction.projectDir.isAbsolute = true
  noSlash : ∀ frontend ∈ extraction.frontends, ∀ extension ∈ frontend.extensions,
    '/' ∉ extension.toList
  roots : ∀ root ∈ extraction.sourceRoots, store.LooksApart folder (extraction.rootPath root)

theorem matching_of_growsAt (apart : extraction.FindsApart store folder)
    (grows : store.GrowsAt folder after) (rooted : store.Rooted) (named : store.WellNamed)
    {pattern : String × Frontend} (member : pattern ∈ extraction.patterns)
    {entries : List SourceEntry} (found : matching store pattern = .ok entries) :
    matching after pattern = .ok entries ∧ ∀ entry ∈ entries, ∃ root ∈ extraction.sourceRoots,
      FileStore.FoundBelow (extraction.rootPath root).writtenPlace entry.path := by
  obtain ⟨root, isRoot, registered, extension, parses, same⟩ := exists_of_mem_patterns member
  obtain ⟨paths, searched, rfl⟩ := matching_eq_ok_iff.mp found
  rw [same] at searched
  obtain ⟨again, below⟩ := grows.search rooted named
    (Path.isAbsolute_join_of_isAbsolute apart.absolute root) (apart.roots root isRoot)
    (apart.noSlash _ registered extension parses) searched
  refine ⟨matching_eq_ok_iff.mpr ⟨paths, same ▸ again, rfl⟩, fun entry inside => ?_⟩
  obtain ⟨path, isFound, rfl⟩ := List.mem_map.mp inside
  exact ⟨root, isRoot, below path isFound⟩

/-- The same source files are found in a store that has grown apart from them. -/
theorem sourceEntries_of_growsAt (apart : extraction.FindsApart store folder)
    (grows : store.GrowsAt folder after) (rooted : store.Rooted) (named : store.WellNamed)
    {entries : List SourceEntry} (found : extraction.sourceEntries store = .ok entries) :
    extraction.sourceEntries after = .ok entries ∧ ∀ entry ∈ entries,
      ∃ root ∈ extraction.sourceRoots,
        FileStore.FoundBelow (extraction.rootPath root).writtenPlace entry.path := by
  obtain ⟨groups, matched, sorted⟩ := bind_eq_ok_iff.mp found
  cases sorted
  have again : extraction.patterns.mapM (matching after) = .ok groups :=
    mapM_eq_ok_of_imp matched fun pattern member entries there =>
      (matching_of_growsAt apart grows rooted named member there).1
  refine ⟨bind_eq_ok_iff.mpr ⟨groups, again, rfl⟩, fun entry member => ?_⟩
  obtain ⟨pattern, isPattern, group, there, inGroup⟩ := exists_pattern_of_mem found member
  exact (matching_of_growsAt apart grows rooted named isPattern there).2 entry inGroup

/-- The source files are parsed as before in a store that has grown apart from them. -/
theorem parsedFiles_of_growsAt (apart : extraction.FindsApart store folder)
    (grows : store.GrowsAt folder after) (rooted : store.Rooted) (named : store.WellNamed)
    {files : List ParsedFile} (parsed : extraction.parsedFiles store = .ok files) :
    extraction.parsedFiles after = .ok files := by
  obtain ⟨entries, found, parsed⟩ := bind_eq_ok_iff.mp parsed
  obtain ⟨again, below⟩ := sourceEntries_of_growsAt apart grows rooted named found
  refine bind_eq_ok_iff.mpr ⟨entries, again, mapM_eq_ok_of_imp parsed fun entry member file read => ?_⟩
  obtain ⟨root, isRoot, foundBelow⟩ := below entry member
  obtain ⟨text, there, rfl⟩ := readEntry_eq_ok_iff.mp read
  exact readEntry_eq_ok_iff.mpr
    ⟨text, grows.readText (apart.roots root isRoot).notAround foundBelow there, rfl⟩

end Extraction

end SourceCapture
