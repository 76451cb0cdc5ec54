/-
The search for files with an extension below a folder. Where the path of the folder has no
wildcards, the search follows it as it is, and if it leads to a folder, everything at any depth
below it is looked at. What is found depends on nothing but what that folder holds.
-/

import SourceCapture.Glob.Search
import SourceCapture.Proofs.Files.Moves
import SourceCapture.Proofs.Runs
import SourceCapture.Proofs.Text.Splits

namespace SourceCapture

/-! ### Text without wildcards -/

/-- Whether a text has no character that means something else in a pattern. -/
def Glob.IsPlain (text : List Char) : Prop :=
  ∀ char ∈ text, char ≠ '*' ∧ char ≠ '?' ∧ char ≠ '['

instance (text : List Char) : Decidable (Glob.IsPlain text) :=
  List.decidableBAll _ text

namespace Glob

theorem parseFrom_of_isPlain {text : List Char} (plain : IsPlain text) (componentStarts : Bool) :
    parseFrom componentStarts text = .ok (text.map .char) := by
  induction text generalizing componentStarts with
  | nil =>
    rw [parseFrom]
    rfl
  | cons char rest inductionHypothesis =>
    obtain ⟨notStar, notMark, notClass⟩ := plain char List.mem_cons_self
    have further := inductionHypothesis fun other member => plain other (List.mem_cons_of_mem _ member)
    rw [parseFrom, further]
    · rfl
    · exact notMark
    · exact fun _ star => absurd star notStar
    · exact fun _ star => absurd star notStar
    · exact notStar
    · exact notClass

theorem literal?_map_char (text : List Char) : literal? (text.map .char) = some text := by
  induction text with
  | nil => rfl
  | cons char rest inductionHypothesis =>
    rw [List.map_cons, literal?, inductionHypothesis]
    rfl

end Glob

theorem GlobStep.ofText_of_isPlain {text : List Char} (plain : Glob.IsPlain text) :
    ofText text = .ok (.named (String.ofList text)) := by
  have noFolders : text.map Wildcard.char ≠ [.anyFolders] := by
    intro same
    cases text with
    | nil => cases same
    | cons char rest => cases (List.cons.inj same).1
  rw [ofText, Glob.parse, Glob.parseFrom_of_isPlain plain]
  show Except.ok _ = _
  dsimp only
  rw [if_neg noFolders, Glob.literal?_map_char]

/-! ### Following names -/

/-- The path below another to which names lead. -/
def Path.joinAll (path : Path) (names : List String) : Path := names.foldl Path.join path

namespace Path

variable {path : Path} {names : List String}

theorem isAbsolute_joinAll (absolute : path.isAbsolute = true)
    (noSlash : ∀ name ∈ names, '/' ∉ name.toList) : (path.joinAll names).isAbsolute = true := by
  induction names generalizing path with
  | nil => exact absolute
  | cons name rest inductionHypothesis =>
    refine inductionHypothesis ?_ fun other member => noSlash other (List.mem_cons_of_mem _ member)
    exact (isAbsolute_join path (head?_ne_of_not_mem (noSlash name List.mem_cons_self))).trans absolute

theorem moves_joinAll (path : Path) (noSlash : ∀ name ∈ names, '/' ∉ name.toList) :
    (path.joinAll names).moves = path.moves ++ movesOf (names.map String.toList) := by
  induction names generalizing path with
  | nil => exact (List.append_nil _).symm
  | cons name rest inductionHypothesis =>
    have single := noSlash name List.mem_cons_self
    have further := inductionHypothesis (path.join name)
      fun other member => noSlash other (List.mem_cons_of_mem _ member)
    rw [moves_join path (head?_ne_of_not_mem single), List.splitOn_eq_singleton single,
      List.append_assoc, ← movesOf_append] at further
    exact further

end Path

namespace FileStore

variable {store : FileStore} {path : Path} {names : List String}

theorem isFolder_of_joinAll (rooted : store.Rooted) (absolute : path.isAbsolute = true)
    (noSlash : ∀ name ∈ names, '/' ∉ name.toList)
    (folder : store.isFolder (path.joinAll names) = true) : store.isFolder path = true := by
  induction names generalizing path with
  | nil => exact folder
  | cons name rest inductionHypothesis =>
    have relative := Path.head?_ne_of_not_mem (noSlash name List.mem_cons_self)
    refine isFolder_of_join rooted absolute relative (inductionHypothesis ?_ ?_ folder)
    · exact (Path.isAbsolute_join path relative).trans absolute
    · exact fun other member => noSlash other (List.mem_cons_of_mem _ member)

theorem leadsOn_of_isFolder_join (rooted : store.Rooted) (absolute : path.isAbsolute = true)
    {name : String} (relative : name.toList.head? ≠ some '/')
    (folder : store.isFolder (path.join name) = true) :
    store.leadsOn (store.leadTo path) name = true := by
  rw [leadsOn]
  split
  · exact isFolder_of_join rooted absolute relative folder
  · obtain ⟨place, entries, located⟩ := (isFolder_iff_locate _).mp folder
    show store.exists? (path.join name) = true
    rw [exists?, entry?, located]
    rfl

/-- Nothing is found below what is no folder. -/
theorem followPattern_below_not_folder (path : Path) (steps : List GlobStep) :
    store.followPattern steps true ⟨path, false⟩ = .ok [] := by
  induction steps with
  | nil => rfl
  | cons step rest inductionHypothesis =>
    cases step with
    | named name => rfl
    | matching pattern => rfl
    | anyDepth => exact inductionHypothesis

/-- Names in a pattern are followed if they lead to a folder. -/
theorem followPattern_named (rooted : store.Rooted) (absolute : path.isAbsolute = true)
    (noSlash : ∀ name ∈ names, '/' ∉ name.toList) (rest : List GlobStep) :
    store.followPattern (names.map .named ++ .anyDepth :: rest) false (store.leadTo path) =
      if store.isFolder (path.joinAll names) then
        store.followPattern rest true ⟨path.joinAll names, true⟩
      else .ok [] := by
  induction names generalizing path with
  | nil =>
    show store.followPattern rest true ⟨path, store.isFolder path⟩ = _
    cases folder : store.isFolder path with
    | false => rw [followPattern_below_not_folder, Path.joinAll, List.foldl_nil, folder]; rfl
    | true => rw [Path.joinAll, List.foldl_nil, folder, if_pos rfl]
  | cons name others inductionHypothesis =>
    have relative := Path.head?_ne_of_not_mem (noSlash name List.mem_cons_self)
    have joined := (Path.isAbsolute_join path relative).trans absolute
    have noSlashes : ∀ other ∈ others, '/' ∉ other.toList :=
      fun other member => noSlash other (List.mem_cons_of_mem _ member)
    rw [List.map_cons, List.cons_append, followPattern.eq_5]
    by_cases on : store.leadsOn (store.leadTo path) name = true
    · rw [if_pos on]
      exact inductionHypothesis joined noSlashes
    · rw [if_neg on, if_neg]
      intro folder
      exact on (leadsOn_of_isFolder_join rooted absolute relative
        (isFolder_of_joinAll rooted joined noSlashes folder))

/-! ### Everything below a folder -/

/-- The last step of a pattern after two stars keeps some of the leads below a folder, whatever
store they lead through. -/
theorem exists_followPattern_last (step : GlobStep) : ∃ keep : Lead → Bool,
    ∀ (store : FileStore) (lead : Lead), store.followPattern [step] true lead =
      (store.leadsBelow lead).map fun leads => (leads.filter keep).map (·.path) := by
  have paths : ∀ (store : FileStore) (leads : List Lead),
      leads.mapM (store.followPattern [] false) = .ok (leads.map fun lead => [lead.path]) := by
    intro store leads
    induction leads with
    | nil => rfl
    | cons lead rest inductionHypothesis =>
      rw [List.mapM_cons, inductionHypothesis]
      rfl
  have fitting : step ≠ .anyDepth → ∀ (store : FileStore) (lead : Lead),
      store.followPattern [step] true lead = (store.leadsBelow lead).map fun leads =>
        (leads.filter fun inner => inner.path.fileName?.any step.fits).map (·.path) := by
    intro notAny store lead
    rw [followPattern.eq_4 store lead step [] notAny, leadsFitting]
    cases store.leadsBelow lead with
    | error cause => rfl
    | ok leads =>
      show (do
        let found ← (leads.filter _).mapM (store.followPattern [] false)
        pure found.flatten : Except FileError (List Path)) = _
      rw [paths]
      show Except.ok _ = _
      rw [← List.flatMap_def, ← List.map_eq_flatMap]
      rfl
  by_cases any : step = .anyDepth
  · refine ⟨fun inner => inner.isFolder, fun store lead => ?_⟩
    rw [any, followPattern.eq_3, followPattern.eq_2]
    cases store.leadsBelow lead with
    | error cause => rfl
    | ok leads => rfl
  · exact ⟨_, fitting any⟩

theorem forM_discard_eq_ok_iff {Error Result Element : Type}
    {check : Element → Except Error Result} {elements : List Element} :
    (elements.forM fun element => discard (check element)) = .ok () ↔
      ∀ element ∈ elements, ∃ result, check element = .ok result := by
  induction elements with
  | nil => exact iff_of_true rfl fun _ member => nomatch member
  | cons element rest inductionHypothesis =>
    rw [List.forall_mem_cons, ← inductionHypothesis, List.forM_eq_forM, List.forM_cons]
    cases check element with
    | ok result =>
      show forM rest (fun element => discard (check element)) = .ok () ↔ _
      exact (and_iff_right ⟨result, rfl⟩).symm
    | error cause =>
      refine iff_of_false (fun failed => nomatch failed) ?_
      rintro ⟨⟨_, ⟨⟩⟩, _⟩

theorem readFolder_eq_ok_iff (path : Path) (entry : FileEntry) :
    store.readFolder path = .ok entry ↔ ∃ place entries, entry = .folder entries ∧
      store.locate path = .ok (.taken place (.folder entries)) := by
  rw [readFolder]
  constructor
  · intro read
    split at read
    case h_1 place entries located =>
      cases read
      exact ⟨place, entries, rfl, located⟩
    case h_2 => cases read
    case h_3 => cases read
    case h_4 => cases read
  · rintro ⟨place, entries, rfl, located⟩
    rw [located]

theorem exists_folderAt_iff (lead : Lead) : (∃ folder?, store.folderAt lead = .ok folder?) ↔
    (lead.isFolder = true → store.isFolder lead.path = true) := by
  rw [folderAt]
  cases lead.isFolder with
  | false => exact iff_of_true ⟨none, rfl⟩ fun folder => nomatch folder
  | true =>
    rw [if_pos rfl, isFolder_iff_locate, forall_prop_of_true rfl]
    constructor
    · rintro ⟨folder?, read⟩
      cases found : store.readFolder lead.path with
      | error cause =>
        rw [found] at read
        cases read
      | ok entry =>
        obtain ⟨place, entries, -, located⟩ := (readFolder_eq_ok_iff _ _).mp found
        exact ⟨place, entries, located⟩
    · rintro ⟨place, entries, located⟩
      rw [(readFolder_eq_ok_iff _ _).mpr ⟨place, entries, rfl, located⟩]
      exact ⟨_, rfl⟩

/-- Everything below a folder is found if every folder in it can be followed. -/
theorem leadsBelow_eq_ok_iff (path : Path) (leads : List Lead) :
    store.leadsBelow ⟨path, true⟩ = .ok leads ↔ ∃ place entries,
      store.locate path = .ok (.taken place (.folder entries)) ∧
        leads = leadsInto path (.folder entries) ∧
          ∀ lead ∈ leads, lead.isFolder = true → store.isFolder lead.path = true := by
  rw [leadsBelow]
  constructor
  · intro found
    obtain ⟨folder?, read, found⟩ := bind_eq_ok_iff.mp found
    rw [folderAt, if_pos rfl] at read
    cases listed : store.readFolder path with
    | error cause =>
      rw [listed] at read
      cases read
    | ok folder =>
      rw [listed] at read
      cases read
      dsimp only at found
      obtain ⟨_, checked, found⟩ := bind_eq_ok_iff.mp found
      cases found
      obtain ⟨place, entries, rfl, located⟩ := (readFolder_eq_ok_iff _ _).mp listed
      refine ⟨place, entries, located, rfl, fun lead member => ?_⟩
      exact (exists_folderAt_iff lead).mp (forM_discard_eq_ok_iff.mp checked lead member)
  · rintro ⟨place, entries, located, rfl, folders⟩
    have listed := (readFolder_eq_ok_iff _ _).mpr ⟨place, entries, rfl, located⟩
    refine bind_eq_ok_iff.mpr ⟨some (.folder entries), ?_, ?_⟩
    · rw [folderAt, if_pos rfl, listed]
      rfl
    · dsimp only
      refine bind_eq_ok_iff.mpr ⟨(), forM_discard_eq_ok_iff.mpr fun lead member => ?_, rfl⟩
      exact (exists_folderAt_iff lead).mpr (folders lead member)

/-! ### The search below a root -/

/-- The names of the folders on the way to a path without wildcards. -/
def namesOf (path : Path) : List String :=
  ((path.text.toList.drop 1).splitOn '/').map String.ofList

/-- The folder below which a search for files with an extension looks for them. -/
def searchRoot (path : Path) : Path := Path.joinAll ⟨"/"⟩ (namesOf path)

theorem not_mem_of_mem_namesOf {path : Path} {name : String} (member : name ∈ namesOf path) :
    '/' ∉ name.toList := by
  obtain ⟨segment, inside, rfl⟩ := List.mem_map.mp member
  rw [String.toList_ofList]
  exact Text.not_mem_of_mem_splitOn inside

theorem isAbsolute_searchRoot (path : Path) : (searchRoot path).isAbsolute = true :=
  Path.isAbsolute_joinAll (by decide) fun _ member => not_mem_of_mem_namesOf member

theorem moves_searchRoot {path : Path} (absolute : path.isAbsolute = true) :
    (searchRoot path).moves = path.moves := by
  rw [Path.isAbsolute, decide_eq_true_iff] at absolute
  obtain ⟨rest, text⟩ := List.head?_eq_some_iff.mp absolute
  have segments : path.text.toList.splitOn '/' = [] :: rest.splitOn '/' := by
    rw [text]
    exact List.splitOn_append_cons_self [] rest
  have names : (namesOf path).map String.toList = rest.splitOn '/' := by
    have same : String.toList ∘ String.ofList = id := funext fun _ => String.toList_ofList
    rw [namesOf, List.map_map, text, same, List.map_id]
    rfl
  have whole : path.moves = Path.movesOf (rest.splitOn '/') := by
    rw [Path.moves, segments, Path.movesOf_cons_idle (Or.inl rfl)]
  rw [searchRoot, Path.moves_joinAll _ fun _ member => not_mem_of_mem_namesOf member, names, whole]
  rfl

/-- The pattern of the files with an extension below a path. -/
def patternBelow (path : Path) (extension : String) : String := path.text ++ "/**/*." ++ extension

theorem splitOn_patternBelow {path : Path} {extension : String} (absolute : path.isAbsolute = true)
    (noSlash : '/' ∉ extension.toList) :
    ((patternBelow path extension).toList.drop 1).splitOn '/' =
      (path.text.toList.drop 1).splitOn '/' ++
        [['*', '*'], '*' :: '.' :: extension.toList] := by
  rw [Path.isAbsolute, decide_eq_true_iff] at absolute
  obtain ⟨rest, text⟩ := List.head?_eq_some_iff.mp absolute
  have tail : '/' ∉ '*' :: '.' :: extension.toList := by
    rw [List.mem_cons, List.mem_cons, not_or, not_or]
    exact ⟨by decide, by decide, noSlash⟩
  have written : (patternBelow path extension).toList =
      '/' :: (rest ++ '/' :: (['*', '*'] ++ '/' :: '*' :: '.' :: extension.toList)) := by
    rw [patternBelow, String.toList_append, String.toList_append, text]
    simp
  rw [written, text, List.drop_one, List.drop_one, List.tail_cons, List.tail_cons,
    List.splitOn_append_cons_self, List.splitOn_append_cons_self, List.splitOn_eq_singleton tail]
  rfl

/-- The steps of the pattern of the files with an extension below a path without wildcards. -/
theorem exists_steps_of_patternBelow {path : Path} {extension : String} {steps : List GlobStep}
    (absolute : path.isAbsolute = true) (plain : Glob.IsPlain path.text.toList)
    (noSlash : '/' ∉ extension.toList)
    (read : (((patternBelow path extension).toList.drop 1).splitOn '/').mapM GlobStep.ofText =
      .ok steps) :
    ∃ step, steps = (namesOf path).map .named ++ [.anyDepth, step] := by
  have names : ((path.text.toList.drop 1).splitOn '/').mapM GlobStep.ofText =
      .ok ((namesOf path).map .named) := by
    rw [namesOf, List.map_map]
    have plainSegments : ∀ segment ∈ (path.text.toList.drop 1).splitOn '/', Glob.IsPlain segment :=
      fun segment member char inside => plain char
        (List.mem_of_mem_drop ((Text.not_mem_and_subset_of_mem_splitOn member).2 inside))
    generalize (path.text.toList.drop 1).splitOn '/' = segments at plainSegments
    induction segments with
    | nil => rfl
    | cons segment rest inductionHypothesis =>
      rw [List.mapM_cons, GlobStep.ofText_of_isPlain (plainSegments segment List.mem_cons_self),
        inductionHypothesis fun other member => plainSegments other (List.mem_cons_of_mem _ member)]
      rfl
  rw [splitOn_patternBelow absolute noSlash, List.mapM_append, names] at read
  obtain ⟨_, ⟨⟩, read⟩ := bind_eq_ok_iff.mp read
  obtain ⟨last, readLast, read⟩ := bind_eq_ok_iff.mp read
  cases read
  rw [List.mapM_cons] at readLast
  obtain ⟨depth, readDepth, readLast⟩ := bind_eq_ok_iff.mp readLast
  obtain ⟨others, readOthers, readLast⟩ := bind_eq_ok_iff.mp readLast
  cases readLast
  rw [List.mapM_cons] at readOthers
  obtain ⟨step, readStep, readOthers⟩ := bind_eq_ok_iff.mp readOthers
  cases readOthers
  have anyDepth : GlobStep.ofText ['*', '*'] = .ok .anyDepth := by decide +kernel
  rw [anyDepth] at readDepth
  cases readDepth
  exact ⟨step, rfl⟩

/-- A search below a path without wildcards finds some of what is below it, and what it finds of
that does not depend on the store. -/
theorem exists_search_eq {path : Path} {extension : String} {paths : List Path}
    (absolute : path.isAbsolute = true) (plain : Glob.IsPlain path.text.toList)
    (noSlash : '/' ∉ extension.toList)
    (found : store.search (patternBelow path extension).toList = .ok paths) :
    ∃ keep : Lead → Bool, ∀ other : FileStore, other.Rooted →
      other.search (patternBelow path extension).toList =
        if other.isFolder (searchRoot path) then
          ((other.leadsBelow ⟨searchRoot path, true⟩).map
            fun leads => (leads.filter keep).map (·.path)).mapError .unlistable
        else .ok [] := by
  obtain ⟨whole, readWhole, found⟩ := bind_eq_ok_iff.mp found
  obtain ⟨steps, readSteps, -⟩ := bind_eq_ok_iff.mp found
  obtain ⟨step, rfl⟩ := exists_steps_of_patternBelow absolute plain noSlash
    (mapError_eq_ok_iff.mp readSteps)
  obtain ⟨keep, last⟩ := exists_followPattern_last step
  refine ⟨keep, fun other rooted => ?_⟩
  rw [search, readWhole, readSteps]
  show (other.followPattern _ false (other.leadTo ⟨"/"⟩)).mapError SearchError.unlistable = _
  rw [followPattern_named rooted (by decide) fun _ member => not_mem_of_mem_namesOf member, last]
  exact apply_ite (Except.mapError SearchError.unlistable) _ _ _

end FileStore

end SourceCapture
