/-
A run over a project that is repeated on the files that it has left. The fragments are put apart
from the source files, so the same files are found and read again, and the captures of these replay
without a change. What keeps the fragments apart is a folder that is in no source root, as long as
no wildcard matches it, nothing leads out of it and the paths of both only step back from folders
that were there before. For each of these conditions there is a run over a small script that meets
the others and finds one more file when it is repeated.
-/

import SourceCapture.Proofs.Captures.LeftOutput
import SourceCapture.Proofs.Captures.Repeated
import SourceCapture.Proofs.Captures.SampleRuns

namespace SourceCapture

/-! ### Where paths start -/

theorem FileStore.isAbsolute_workingDir (store : FileStore) : store.workingDir.isAbsolute = true := by
  rw [Path.isAbsolute, workingDir, String.toList_append]
  rfl

namespace ExtractionRequest

variable {request : ExtractionRequest} {workingDir : Path} {extraction : Extraction}

theorem isAbsolute_root (request : ExtractionRequest) (absolute : workingDir.isAbsolute = true) :
    (request.root workingDir).isAbsolute = true :=
  Path.isAbsolute_join_of_isAbsolute absolute _

/-- What a request decides about a run. -/
theorem eq_of_prepare (prepared : request.prepare workingDir = .ok extraction) :
    extraction.projectDir = request.root workingDir ∧
      extraction.emitter? = request.emitter? (request.root workingDir) ∧
        extraction.frontends = request.frontends := by
  rw [prepare] at prepared
  split at prepared
  · cases prepared
  · cases prepared
    exact ⟨rfl, rfl, rfl⟩

theorem isAbsolute_outDir (absolute : workingDir.isAbsolute = true)
    (prepared : request.prepare workingDir = .ok extraction) :
    ∀ emitter, extraction.emitter? = some emitter → emitter.outDir.isAbsolute = true := by
  intro emitter uses
  rw [(eq_of_prepare prepared).2.1] at uses
  obtain ⟨dir, -, rfl⟩ := Option.map_eq_some_iff.mp uses
  exact Path.isAbsolute_join_of_isAbsolute (request.isAbsolute_root absolute) dir.text

end ExtractionRequest

/-! ### Runs without fragments -/

/-- Attempts that have no emitter change nothing. -/
theorem Attempt.eq_of_run_mapM {attempts : List Attempt} {taken : List (Option Capture)}
    {store : FileStore} {ended : Emission}
    (ran : (attempts.mapM Attempt.run).run ⟨none, store⟩ = (.ok taken, ended)) :
    ended = ⟨none, store⟩ := by
  induction attempts generalizing taken with
  | nil =>
    cases ran
    rfl
  | cons attempt rest inductionHypothesis =>
    obtain ⟨found, middle, others, first, later, rfl⟩ := Work.run_mapM_cons_eq_ok_iff.mp ran
    have yields := Capture.yields_of_ofItem? first
    generalize attempt.item = item at yields
    cases yields with
    | nothing | declaration => exact inductionHypothesis later
    | block read emits =>
      cases emits
      exact inductionHypothesis later

/-! ### The second run -/

namespace Extraction

variable {extraction : Extraction} {store after : FileStore} {report : Report}

/-- Whether the fragments of a run are put apart from its source files: right in a folder that is
in no source root. The source roots are written without wildcards, and neither their paths nor that
of the folder step back from a folder that is not there yet. -/
structure PutsApart (extraction : Extraction) (store : FileStore) (emitter : Emitter) : Prop where
  noSlash : '/' ∉ emitter.fragmentExtension.toList
  inside : store.StepsBackInside emitter.outDir.moves
  roots : ∀ root ∈ extraction.sourceRoots,
    store.LooksApart emitter.folder (extraction.rootPath root)

instance (extraction : Extraction) (store : FileStore) (emitter : Emitter) :
    Decidable (extraction.PutsApart store emitter) :=
  decidable_of_iff ('/' ∉ emitter.fragmentExtension.toList ∧
      store.StepsBackInside emitter.outDir.moves ∧ ∀ root ∈ extraction.sourceRoots,
        store.LooksApart emitter.folder (extraction.rootPath root))
    ⟨fun ⟨noSlash, inside, roots⟩ => ⟨noSlash, inside, roots⟩,
      fun ⟨noSlash, inside, roots⟩ => ⟨noSlash, inside, roots⟩⟩

/-- The files that a run yields a report on grow by no more than the fragments. -/
theorem growsAt_of_run {emitter : Emitter} (rooted : store.Rooted)
    (uses : extraction.emitter? = some emitter) (stays : emitter.StaysInFolder store)
    (ran : extraction.run store = (.ok report, after)) : store.GrowsAt emitter.folder after := by
  obtain ⟨files, taken, ended, attempts, rfl⟩ := exists_attempts_of_run ran
  rw [uses, Option.map_some] at attempts
  obtain ⟨requests, left, answered, rfl⟩ := exists_requests_of_attempts attempts
  have staysForRun : emitter.forRun.StaysInFolder store :=
    ⟨stays.noSlash, stays.absolute, stays.inside⟩
  have grows : store.GrowsAt emitter.forRun.folder left.2 :=
    Emitter.growsAt_of_mapM rooted staysForRun answered
  exact grows

/-- A run without an emitter changes no file. -/
theorem eq_of_run (unused : extraction.emitter? = none)
    (ran : extraction.run store = (.ok report, after)) : after = store := by
  obtain ⟨files, taken, ended, attempts, rfl⟩ := exists_attempts_of_run ran
  rw [unused, Option.map_none] at attempts
  exact congrArg Emission.store (Attempt.eq_of_run_mapM attempts)

/-- After a run that puts its fragments apart, the source files are parsed as before. -/
theorem parsedFiles_of_run {files : List ParsedFile} (rooted : store.Rooted)
    (named : store.WellNamed) (absolute : extraction.projectDir.isAbsolute = true)
    (extensions : ∀ frontend ∈ extraction.frontends, ∀ extension ∈ frontend.extensions,
      '/' ∉ extension.toList)
    (apart : ∀ emitter, extraction.emitter? = some emitter →
      extraction.PutsApart store emitter ∧ emitter.StaysInFolder store)
    (parsed : extraction.parsedFiles store = .ok files)
    (ran : extraction.run store = (.ok report, after)) :
    after.workingDir = store.workingDir ∧ extraction.parsedFiles after = .ok files := by
  cases uses : extraction.emitter? with
  | none =>
    rw [eq_of_run uses ran]
    exact ⟨rfl, parsed⟩
  | some emitter =>
    obtain ⟨puts, stays⟩ := apart emitter uses
    have grows := growsAt_of_run rooted uses stays ran
    refine ⟨?_, parsedFiles_of_growsAt ⟨absolute, extensions, puts.roots⟩ grows rooted named parsed⟩
    rw [FileStore.workingDir, FileStore.workingDir, grows.grows.workingPlace]

end Extraction

/-- A run that puts its fragments apart from the source files can be repeated. The second run
yields the same report but for the fragments, all of which are unchanged, and changes no file. -/
theorem secondRun_unchanged {request : ExtractionRequest} {extraction : Extraction}
    {store after : FileStore} {report : Report} (rooted : store.Rooted) (named : store.WellNamed)
    (extensions : ∀ frontend ∈ request.frontends, ∀ extension ∈ frontend.extensions,
      '/' ∉ extension.toList)
    (prepared : request.prepare store.workingDir = .ok extraction)
    (apart : ∀ emitter, extraction.emitter? = some emitter → extraction.PutsApart store emitter)
    (ran : extraction.run store = (.ok report, after)) :
    request.prepare after.workingDir = .ok extraction ∧
      extraction.run after = (.ok report.unchanged, after) := by
  obtain ⟨project, -, frontends⟩ := ExtractionRequest.eq_of_prepare prepared
  have absolute := request.isAbsolute_root store.isAbsolute_workingDir
  have outDir := ExtractionRequest.isAbsolute_outDir store.isAbsolute_workingDir prepared
  have stays : ∀ emitter, extraction.emitter? = some emitter → emitter.StaysInFolder store :=
    fun emitter uses => ⟨(apart emitter uses).noSlash, outDir emitter uses, (apart emitter uses).inside⟩
  obtain ⟨files, ended, parsed, rfl, reported⟩ := Extraction.run_eq_ok_iff.mp ran
  have sound : Emission.Sound ⟨extraction.emitter?.map Emitter.forRun, store⟩ := by
    refine ⟨rooted, fun emitter uses => ?_, fun emitter uses => ?_⟩
    · obtain ⟨settings, known, rfl⟩ := Option.map_eq_some_iff.mp uses
      exact (stays settings known).absolute
    · obtain ⟨settings, known, rfl⟩ := Option.map_eq_some_iff.mp uses
      exact (stays settings known).noSlash
  -- The captures of the same files replay on what they have left, and the source files are these.
  obtain ⟨-, replays⟩ := Replays.reportOf extraction.markers files _ report ended sound reported
  obtain ⟨-, again⟩ := replays ended.store ⟨.refl _, fun emitter _ => .refl emitter _⟩
  have fresh : Emission.again ⟨extraction.emitter?.map Emitter.forRun, store⟩ ended.store =
      ⟨extraction.emitter?.map Emitter.forRun, ended.store⟩ := by
    rw [Emission.again, Option.map_map]
    rfl
  rw [fresh] at again
  obtain ⟨working, parsedAgain⟩ := Extraction.parsedFiles_of_run rooted named (project ▸ absolute)
    (frontends ▸ extensions) (fun emitter uses => ⟨apart emitter uses, stays emitter uses⟩) parsed ran
  refine ⟨working ▸ prepared, Extraction.run_eq_ok_iff.mpr ?_⟩
  exact ⟨files, ended.again ended.store, parsedAgain, rfl, again⟩

/-! ### A run that is repeated -/

namespace ScriptRun

/-- The folder for fragments and a source root are beside the script, and their paths step back from
its folder. -/
def beside : ScriptRun where
  root := "src/../lib"
  outDir := "src/../out"

theorem beside_run_unchanged : beside.store.Rooted ∧ beside.store.WellNamed ∧
    beside.request.prepare beside.store.workingDir = .ok beside.extraction ∧
      beside.extraction.PutsApart beside.store beside.emitter ∧ ∃ report after,
        beside.extraction.run beside.store = (.ok report, after) ∧
          beside.request.prepare after.workingDir = .ok beside.extraction ∧
            beside.extraction.run after = (.ok report.unchanged, after) := by
  have checked : beside.store.WellNamed ∧ beside.Succeeds ∧
      beside.extraction.PutsApart beside.store beside.emitter := by
    decide +kernel
  obtain ⟨named, succeeds, puts⟩ := checked
  obtain ⟨report, ran⟩ := succeeds.exists_run
  have rooted : beside.store.Rooted := ⟨_, rfl⟩
  have apart : ∀ emitter, beside.extraction.emitter? = some emitter →
      beside.extraction.PutsApart beside.store emitter := by
    rintro _ ⟨⟩
    exact puts
  exact ⟨rooted, named, beside.prepare_request, puts, report, _, ran,
    secondRun_unchanged rooted named beside.noSlash_of_mem_frontends beside.prepare_request apart
      ran⟩

end ScriptRun

/-! ### What a second run needs -/

/-- Whether every run that puts its fragments as a condition says can be repeated. -/
def RunsRepeat (condition : Extraction → FileStore → Emitter → Prop) : Prop :=
  ∀ (request : ExtractionRequest) (extraction : Extraction) (store after : FileStore)
    (report : Report), store.Rooted → store.WellNamed →
    (∀ frontend ∈ request.frontends, ∀ extension ∈ frontend.extensions, '/' ∉ extension.toList) →
    request.prepare store.workingDir = .ok extraction →
    (∀ emitter, extraction.emitter? = some emitter → condition extraction store emitter) →
    extraction.run store = (.ok report, after) →
    extraction.run after = (.ok report.unchanged, after)

theorem RunsRepeat.mono {weak strong : Extraction → FileStore → Emitter → Prop}
    (repeats : RunsRepeat weak) (implies : ∀ extraction store emitter,
      strong extraction store emitter → weak extraction store emitter) : RunsRepeat strong :=
  fun request extraction store after report rooted named extensions prepared holds ran =>
    repeats request extraction store after report rooted named extensions prepared
      (fun emitter uses => implies extraction store emitter (holds emitter uses)) ran

namespace ScriptRun

variable {run : ScriptRun} {condition : Extraction → FileStore → Emitter → Prop}

/-- Whether one more path matches after the run. -/
def Gains (run : ScriptRun) (more : Path) : Prop :=
  run.store.WellNamed ∧ run.Succeeds ∧ run.pathsIn? run.after = some [scriptPath, more] ∧
    scriptPath.sameAs more = false

instance (run : ScriptRun) (more : Path) : Decidable (run.Gains more) :=
  inferInstanceAs (Decidable (_ ∧ _))

/-- A condition is not enough if a run that gains a path meets it. -/
theorem Gains.not_runsRepeat {more : Path} (gains : run.Gains more) (rooted : run.store.Rooted)
    (holds : condition run.extraction run.store run.emitter) : ¬ RunsRepeat condition := by
  intro repeats
  obtain ⟨named, succeeds, gained, apart⟩ := gains
  obtain ⟨report, ran⟩ := succeeds.exists_run
  have uses : ∀ emitter, run.extraction.emitter? = some emitter →
      condition run.extraction run.store emitter := by
    rintro _ ⟨⟩
    exact holds
  have again := repeats run.request run.extraction run.store run.after report rooted named
    run.noSlash_of_mem_frontends run.prepare_request uses ran
  obtain ⟨entries, sorted, all⟩ := exists_sourceEntries succeeds.1 (List.pairwise_singleton _ _)
  obtain ⟨later, sortedLater, allLater⟩ :=
    exists_sourceEntries gained (List.pairwise_pair.mpr apart)
  have one : report.filesProcessed = 1 := by
    rw [Extraction.filesProcessed_of_run sorted ran, ← List.length_map, all.length_eq]
    rfl
  have two : report.filesProcessed = 2 := by
    have counted := Extraction.filesProcessed_of_run sortedLater again
    rw [← List.length_map, allLater.length_eq] at counted
    exact counted
  omega

/-- With slashes in its extension, the fragment gets from the folder into a source root. -/
def slashes : ScriptRun where
  root := "gen"
  outDir := "out"
  fragmentExtension := "/../../gen/B.kts"
  others := [(["p", "gen"], .emptyFolder), (["p", "out", fragmentHash "1" ++ "."], .emptyFolder)]

theorem not_runsRepeat_slashes : ¬ RunsRepeat fun extraction store emitter =>
    store.StepsBackInside emitter.outDir.moves ∧ ∀ root ∈ extraction.sourceRoots,
      store.LooksApart emitter.folder (extraction.rootPath root) := by
  have gains : slashes.Gains ⟨"/p/gen/B.kts"⟩ := by decide +kernel
  exact gains.not_runsRepeat ⟨_, rfl⟩ (by decide +kernel)

/-- On the way to the folder for fragments, a folder is made in a source root. -/
def detour : ScriptRun where
  root := "gen"
  outDir := "gen/B.kts/../../out"

theorem not_runsRepeat_detour : ¬ RunsRepeat fun extraction store emitter =>
    '/' ∉ emitter.fragmentExtension.toList ∧ ∀ root ∈ extraction.sourceRoots,
      store.LooksApart emitter.folder (extraction.rootPath root) := by
  have gains : detour.Gains ⟨"/p/gen/B.kts"⟩ := by decide +kernel
  exact gains.not_runsRepeat ⟨_, rfl⟩ (by decide +kernel)

/-- The folder for fragments is matched by a source root. -/
def wildcard : ScriptRun where
  root := "gen/*"
  outDir := "gen/out"
  fragmentExtension := "kts"

theorem not_runsRepeat_wildcard : ¬ RunsRepeat fun extraction store emitter =>
    '/' ∉ emitter.fragmentExtension.toList ∧ store.StepsBackInside emitter.outDir.moves ∧
      ∀ root ∈ extraction.sourceRoots, store.StepsBackInside (extraction.rootPath root).moves ∧
        ¬ (extraction.rootPath root).writtenPlace <+: emitter.folder := by
  have gains : wildcard.Gains ⟨"/p/gen/out/" ++ fragmentHash "1" ++ ".kts"⟩ := by decide +kernel
  exact gains.not_runsRepeat ⟨_, rfl⟩ (by decide +kernel)

/-- The path of a source root leads through the folder for fragments. -/
def throughFolder : ScriptRun where
  root := "out/../lib"
  outDir := "out"
  others := [(["p", "lib", "B.kts"], .file "".toUTF8)]

theorem not_runsRepeat_throughFolder : ¬ RunsRepeat fun extraction store emitter =>
    '/' ∉ emitter.fragmentExtension.toList ∧ store.StepsBackInside emitter.outDir.moves ∧
      ∀ root ∈ extraction.sourceRoots, Glob.IsPlain (extraction.rootPath root).text.toList ∧
        ¬ (extraction.rootPath root).writtenPlace <+: emitter.folder := by
  have gains : throughFolder.Gains ⟨"/p/out/../lib/B.kts"⟩ := by decide +kernel
  exact gains.not_runsRepeat ⟨_, rfl⟩ (by decide +kernel)

end ScriptRun

/-- It is not enough that the folder for fragments is in no source root. -/
theorem not_runsRepeat_outside_roots : ¬ RunsRepeat fun extraction _ emitter =>
    ∀ root ∈ extraction.sourceRoots,
      ¬ (extraction.rootPath root).writtenPlace <+: emitter.folder := by
  intro repeats
  exact ScriptRun.not_runsRepeat_throughFolder
    (repeats.mono fun _ _ _ holds root isRoot => (holds.2.2 root isRoot).2)

end SourceCapture
