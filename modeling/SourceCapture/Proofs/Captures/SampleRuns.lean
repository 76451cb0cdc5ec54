/-
Runs over a small script with one block, and over what is in another source root. What such a run
yields does not depend on more than what the attempts at the block do, so a run with any folder for
fragments is looked at by these few attempts.
-/

import SourceCapture.Proofs.Captures.Attempts
import SourceCapture.Proofs.Files.SourceFiles
import SourceCapture.Proofs.Lowering.SampleCalls

namespace SourceCapture

def scriptContent : List Char :=
  ["import com.github.tarcv.kotbridge.*\n", "fun interface A : Capturable<A>\n",
    "A \x7b 1 \x7d\n"].flatMap String.toList

def scriptTree : Tree :=
  .branch "source_file" 0 76 [
    .wholeLibraryImport 0, .capturableInterface 36 36 [], .blockCall 68]

def scriptFrontend : Frontend where
  extensions := ["kts"]
  parse _ := scriptTree

def scriptPath : Path := ⟨"/p/src/A.kts"⟩

def scriptFile : ParsedFile where
  document := .ofFile scriptPath (Text.normalizeNewlines scriptContent) ⟨"/p"⟩
  root := scriptTree

/-! ### The attempts at the script -/

def scriptSite : Site := scriptFile.site (symbolsOf {} [scriptFile]) {}

/-- The interface in the script as it is known there. -/
def scriptOwner : ClassHeader :=
  (scriptSite.functionalInterface? "A").getD ⟨"", "", .plain, [], [], []⟩

/-- The attempts at the block of the script. -/
def blockAttempts : List Attempt :=
  [.expression (.blockConversion "A" scriptOwner 70),
    .expression (.lambda (some ⟨70, 75⟩) [])].map (Attempt.mk scriptFile.document)

set_option maxRecDepth 10000 in
/-- In the script are the interface and the block that is converted to it. -/
theorem items_script : ∃ header : ClassHeader,
    header.annotations.filter (·.marks .captureSource) = [] ∧
      (scriptFile.lower (symbolsOf {} [scriptFile]) {}).items =
        [.declaration (.classLike header (some ⟨36, 67⟩) [] []),
          .expression (.blockConversion "A" scriptOwner 70),
          .expression (.lambda (some ⟨70, 75⟩) [])] := by
  have unmarked : (ClassHeader.ofTree? scriptSite (.capturableInterface 36 36 [])).map
      (fun written => (scriptSite.knownHeader written).annotations.filter
        (·.marks .captureSource)) = some [] := by
    decide +kernel
  have called : Tree.identifierName scriptSite.content (.leaf "identifier" 68 69) = "A" ∧
      FileScope.looksLikeClass "A" = true ∧ scriptSite.resolveClass "A" = "A" ∧
        (scriptSite.functionalInterface? "A").isSome = true := by
    decide +kernel
  obtain ⟨named, isClass, resolved, isKnown⟩ := called
  have known : scriptSite.functionalInterface? "A" = some scriptOwner := by
    obtain ⟨owner, found⟩ := Option.isSome_iff_exists.mp isKnown
    rw [scriptOwner, found]
    rfl
  obtain ⟨header, plain, declared⟩ := Site.declaration?_capturableInterface unmarked rfl rfl
  have declarations : (SourceFile.ofTree scriptSite scriptTree).declarations =
      [.classLike header (some ⟨36, 67⟩) [] []] := by
    show [_].filterMap scriptSite.declaration? = _
    rw [List.filterMap_cons_some declared]
    rfl
  have statements : (SourceFile.ofTree scriptSite scriptTree).statements =
      [.blockConversion "A" scriptOwner 70] := by
    show [_].filterMap scriptSite.expr? = _
    rw [List.filterMap_cons_some (Site.expr?_blockCall named isClass resolved known)]
    rfl
  refine ⟨header, plain, ?_⟩
  show itemsOfDeclarations (SourceFile.ofTree scriptSite scriptTree).declarations ++
    itemsOfExprs (SourceFile.ofTree scriptSite scriptTree).statements = _
  rw [declarations, statements]
  rfl

theorem blockConversion_mem_items_script : Item.expression (.blockConversion "A" scriptOwner 70) ∈
    (scriptFile.lower (symbolsOf {} [scriptFile]) {}).items := by
  obtain ⟨header, -, items⟩ := items_script
  rw [items]
  exact List.mem_cons_of_mem _ List.mem_cons_self

/-- The attempts at the script are one at the interface and those at the block. -/
theorem attemptsOf_script : ∃ header : ClassHeader,
    header.annotations.filter (·.marks .captureSource) = [] ∧
      attemptsOf {} [scriptFile] =
        ⟨scriptFile.document, .declaration (.classLike header (some ⟨36, 67⟩) [] [])⟩ ::
          blockAttempts := by
  obtain ⟨header, plain, items⟩ := items_script
  refine ⟨header, plain, ?_⟩
  rw [attemptsOf, List.flatMap_singleton, ParsedFile.attempts, items]
  rfl

/-! ### Runs over the script -/

/-- A run over the script and over what is in another source root. -/
structure ScriptRun where
  root : String
  outDir : String
  fragmentExtension : String := "kt"
  /-- What is there besides the script. -/
  others : List (Place × FileEntry) := []

namespace ScriptRun

def request (run : ScriptRun) : ExtractionRequest where
  projectDir := some ⟨"/p"⟩
  extractedDir := some ⟨run.outDir⟩
  sourceRoots := ["src", run.root]
  settings := { extraction := { exclude := [], fragmentExtension := run.fragmentExtension } }
  frontends := [scriptFrontend]

def emitter (run : ScriptRun) : Emitter where
  outDir := Path.join ⟨"/p"⟩ run.outDir
  fragmentExtension := run.fragmentExtension

def extraction (run : ScriptRun) : Extraction where
  projectDir := ⟨"/p"⟩
  emitter? := some run.emitter
  sourceRoots := ["src", run.root]
  exclusions := []
  markers := {}
  frontends := [scriptFrontend]

/-- The files before the run. -/
def store (run : ScriptRun) : FileStore where
  root := run.others.foldl (fun root other => root.put other.1 other.2)
    (FileEntry.emptyFolder.put ["p", "src", "A.kts"] (.file (String.ofList scriptContent).toUTF8))

/-- What the attempts at the block of the script yield. -/
def outcome (run : ScriptRun) : Except CaptureError (List (Option Capture)) × Emission :=
  (blockAttempts.mapM Attempt.run).run ⟨some run.emitter.forRun, run.store⟩

/-- The files after the run. -/
def after (run : ScriptRun) : FileStore := run.outcome.2.store

/-- The paths that match the patterns of the source roots. -/
def pathsIn? (run : ScriptRun) (store : FileStore) : Option (List Path) :=
  (run.extraction.patterns.mapM (Extraction.matching store)).toOption.map (·.flatten.map (·.path))

/-- Whether the script is what is found, and its block is captured. -/
def Succeeds (run : ScriptRun) : Prop :=
  run.pathsIn? run.store = some [scriptPath] ∧
    run.store.readText scriptPath = .ok (String.ofList scriptContent) ∧
      run.outcome.1.isOk = true

instance (run : ScriptRun) : Decidable run.Succeeds := inferInstanceAs (Decidable (_ ∧ _))

variable (run : ScriptRun)

theorem prepare_request : run.request.prepare run.store.workingDir = .ok run.extraction := by
  have working : run.store.workingDir = ⟨"/"⟩ := rfl
  have slash : "/p".toList.head? = some '/' := by decide
  have project : run.request.root ⟨"/"⟩ = ⟨"/p"⟩ := if_pos slash
  rw [working, ExtractionRequest.prepare, project]
  rfl

theorem noSlash_of_mem_frontends : ∀ frontend ∈ run.request.frontends,
    ∀ extension ∈ frontend.extensions, '/' ∉ extension.toList := by
  intro frontend registered
  rw [List.mem_singleton.mp registered]
  decide

variable {run} {store : FileStore}

/-- The source files if no two of the paths that match are the same. -/
theorem exists_sourceEntries {paths : List Path} (found : run.pathsIn? store = some paths)
    (apart : paths.Pairwise fun left right => left.sameAs right = false) :
    ∃ entries, run.extraction.sourceEntries store = .ok entries ∧
      (entries.map (·.path)).Perm paths := by
  rw [pathsIn?] at found
  generalize matched : run.extraction.patterns.mapM (Extraction.matching store) = result at found
  cases result with
  | error cause => cases found
  | ok groups =>
    obtain rfl := Option.some.inj found
    obtain ⟨entries, sorted, all⟩ := Extraction.exists_sourceEntries_perm matched
      (fun _ _ => rfl) (List.pairwise_map.mp apart)
    exact ⟨entries, sorted, all.map _⟩

theorem parsedFiles_eq (found : run.pathsIn? store = some [scriptPath])
    (text : store.readText scriptPath = .ok (String.ofList scriptContent)) :
    run.extraction.parsedFiles store = .ok [scriptFile] := by
  obtain ⟨entries, sorted, same⟩ := exists_sourceEntries found (List.pairwise_singleton _ _)
  obtain ⟨⟨path, frontend⟩, rfl, rfl⟩ := List.map_eq_singleton_iff.mp same.eq_singleton
  obtain ⟨pattern, isPattern, group, there, inGroup⟩ :=
    Extraction.exists_pattern_of_mem sorted List.mem_cons_self
  obtain ⟨paths, -, rfl⟩ := Extraction.matching_eq_ok_iff.mp there
  obtain ⟨path, -, same⟩ := List.mem_map.mp inGroup
  obtain ⟨-, -, registered, -⟩ := Extraction.exists_of_mem_patterns isPattern
  have parses : frontend = scriptFrontend := by
    rw [← (SourceEntry.mk.inj same).2]
    exact List.mem_singleton.mp registered
  rw [parses] at sorted
  have file : run.extraction.readEntry store ⟨scriptPath, scriptFrontend⟩ = .ok scriptFile := by
    refine Extraction.readEntry_eq_ok_iff.mpr ⟨_, text, ?_⟩
    rw [String.toList_ofList]
    rfl
  refine bind_eq_ok_iff.mpr ⟨_, sorted, ?_⟩
  rw [List.mapM_cons, List.mapM_nil, file]
  rfl

/-- A run over the script does what the attempts at its block do. -/
theorem Succeeds.exists_run (succeeds : run.Succeeds) :
    ∃ report, run.extraction.run run.store = (.ok report, run.after) := by
  obtain ⟨found, text, taken⟩ := succeeds
  obtain ⟨header, plain, attempts⟩ := attemptsOf_script
  rw [after]
  generalize ran : run.outcome = outcome at taken ⊢
  obtain ⟨result, ended⟩ := outcome
  cases result with
  | error error => cases taken
  | ok captures =>
    have whole : ((fun _ => ()) <$> reportOf {} [scriptFile]).run
        ⟨some run.emitter.forRun, run.store⟩ = (.ok (), ended) := by
      rw [map_reportOf, attempts]
      refine Work.run_map_eq_ok_iff.mpr ⟨none :: captures, ?_, rfl⟩
      exact Work.run_mapM_cons_eq_ok_iff.mpr
        ⟨none, _, captures, Attempt.run_declaration_of_plain plain, ran, rfl⟩
    obtain ⟨report, reported, -⟩ := Work.run_map_eq_ok_iff.mp whole
    exact ⟨report, Extraction.run_eq_ok_iff.mpr
      ⟨[scriptFile], ended, parsedFiles_eq found text, rfl, reported⟩⟩

end ScriptRun

end SourceCapture
