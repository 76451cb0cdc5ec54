/-
A run over a project. The source files below the source roots are found and put in order,
all of them are read and parsed, and then the captures of one after the other are taken, so
that a name declared in one file is known in every other. The first failure ends the run;
fragments that were written before it stay.
-/

import SourceCapture.Analysis
import SourceCapture.Exclusion
import SourceCapture.Glob.Search
import SourceCapture.Report
import SourceCapture.Settings
import SourceCapture.Text.Newline
import SourceCapture.Tree.Listing

namespace SourceCapture

/-- Why a run fails. -/
inductive ExtractionError where
  /-- There is nothing that could parse a file. -/
  | noFrontend
  | pattern (cause : GlobError)
  /-- A folder in which source files are looked for cannot be listed. -/
  | unlistable (cause : FileError)
  | unreadable (path : Path) (cause : FileError)
  | settings (cause : SettingsError)
  | capture (cause : CaptureError)
  deriving Repr, DecidableEq

namespace ExtractionError

/-- The wording of the error. -/
def message : ExtractionError → String
  | .noFrontend => "No frontend registered; nothing can be extracted"
  | .pattern cause => cause.message
  | .unlistable cause => "IO error: " ++ cause.message
  | .unreadable path cause => "Failed to read " ++ path.text ++ ": " ++ cause.message
  | .settings cause => "Configuration error: " ++ cause.message
  | .capture cause => cause.message

/-- The wordings of the errors behind this one, nearest first. -/
def causes : ExtractionError → List String
  | .noFrontend => []
  | .pattern _ => []
  | .unlistable cause => [cause.message]
  | .unreadable _ cause => [cause.message]
  | .settings cause => cause.message :: cause.causes
  | .capture cause => cause.causes

end ExtractionError

/-- What parses the files with certain extensions. -/
structure Frontend where
  extensions : List String := ParsedFile.extensions
  parse : List Char → Tree

/-- The trees of texts with normalized newlines. -/
abbrev KnownTrees := Table (List Char) Tree

/-- Parses texts whose trees are known. In any other text nothing is found. -/
def Frontend.ofTrees (trees : KnownTrees) : Frontend where
  parse content := (trees.get? content).getD .nothing

/-- What is asked of a run. What is said here comes before what the settings say. -/
structure ExtractionRequest where
  projectDir : Option Path := none
  extractedDir : Option Path := none
  sourceRoots : List String := []
  exclude : List String := []
  settings : Settings := {}
  frontends : List Frontend := []

/-- A run with everything decided. -/
structure Extraction where
  projectDir : Path
  emitter? : Option Emitter
  sourceRoots : List String
  exclusions : List Exclusion
  markers : MarkerNames
  frontends : List Frontend

namespace ExtractionRequest

/-- The root of the project. A relative one starts at the working folder. -/
def root (request : ExtractionRequest) (workingDir : Path) : Path :=
  workingDir.join (request.projectDir.getD request.settings.extraction.projectDir).text

/-- The emitter into the folder for fragments, if there is one. A relative folder is below
the root of the project. -/
def emitter? (request : ExtractionRequest) (root : Path) : Option Emitter :=
  let settings := request.settings.extraction
  (request.extractedDir.or settings.extractedDir).map fun dir =>
    { outDir := root.join dir.text
      fragmentExtension := settings.fragmentExtension
      artifactExtension := settings.artifactExtension }

/-- Decides everything about a run. Exclusions add up, and source roots replace those of
the settings. -/
def prepare (request : ExtractionRequest) (workingDir : Path) :
    Except ExtractionError Extraction :=
  let settings := request.settings.extraction
  let root := request.root workingDir
  if request.frontends.isEmpty then .error .noFrontend
  else .ok {
    projectDir := root
    emitter? := request.emitter? root
    sourceRoots := if request.sourceRoots.isEmpty then settings.sourceRoots else request.sourceRoots
    exclusions := (request.exclude ++ settings.exclude).filterMap Exclusion.ofText?
    markers := request.settings.markers
    frontends := request.frontends }

end ExtractionRequest

/-! ### The files of a run -/

/-- A source file with what parses it. -/
structure SourceEntry where
  path : Path
  frontend : Frontend

namespace SourceEntry

/-- The order in which files are processed. -/
def isBefore (left right : SourceEntry) : Bool := left.path.compare right.path ≠ .gt

/-- The entries without those that follow one with the same path. The path is that of the
entry before. -/
def withoutRepeats (before : Option Path) : List SourceEntry → List SourceEntry
  | [] => []
  | entry :: rest =>
    if before.any entry.path.sameAs then withoutRepeats before rest
    else entry :: withoutRepeats (some entry.path) rest

end SourceEntry

namespace Extraction

/-- Every pattern of source files with what parses the files that it matches. -/
def patterns (extraction : Extraction) : List (String × Frontend) :=
  extraction.sourceRoots.flatMap fun root =>
    extraction.frontends.flatMap fun frontend =>
      frontend.extensions.map fun extension =>
        ((extraction.projectDir.join root).text ++ "/**/*." ++ extension, frontend)

/-- Whether a file is left out. -/
def leavesOut (extraction : Extraction) (path : Path) : Bool :=
  extraction.exclusions.any (·.leavesOut extraction.projectDir path)

/-- The entries that one of the patterns matches. -/
def matching (store : FileStore) (pattern : String × Frontend) :
    Except ExtractionError (List SourceEntry) :=
  match store.search pattern.1.toList with
  | .ok paths => .ok (paths.map (⟨·, pattern.2⟩))
  | .error (.malformed cause) => .error (.pattern cause)
  | .error (.unlistable cause) => .error (.unlistable cause)

/-- The source files of the project, each once, in the order of their paths. -/
def sourceEntries (extraction : Extraction) (store : FileStore) :
    Except ExtractionError (List SourceEntry) := do
  let found ← extraction.patterns.mapM (matching store)
  let kept := found.flatten.filter fun entry => !extraction.leavesOut entry.path
  return SourceEntry.withoutRepeats none (kept.mergeSort SourceEntry.isBefore)

/-- Reads and parses a source file. -/
def readEntry (extraction : Extraction) (store : FileStore) (entry : SourceEntry) :
    Except ExtractionError ParsedFile :=
  match store.readText entry.path with
  | .ok text =>
    let content := Text.normalizeNewlines text.toList
    .ok ⟨Document.ofFile entry.path content extraction.projectDir, entry.frontend.parse content⟩
  | .error cause => .error (.unreadable entry.path cause)

/-- The parsed files of the project. -/
def parsedFiles (extraction : Extraction) (store : FileStore) :
    Except ExtractionError (List ParsedFile) := do
  (← extraction.sourceEntries store).mapM (extraction.readEntry store)

end Extraction

/-! ### The run -/

/-- The captures of a file that is lowered with the symbols of all files. -/
def ParsedFile.captures (markers : MarkerNames) (symbols : SymbolTable) (file : ParsedFile) :
    EmitM FileCaptures := do
  let captures ← capturesOf file.document (file.lower symbols markers)
  return ⟨file.document.path, file.document.relativePath, captures⟩

/-- The report on parsed files, in order. -/
def reportOf (markers : MarkerNames) (files : List ParsedFile) : EmitM Report :=
  let symbols := symbolsOf markers files
  files.foldlM (fun report file => report.addFile <$> file.captures markers symbols) {}

namespace Extraction

/-- Runs over the project. Every run emits anew: what an earlier one emitted is only seen in
the files. -/
def run (extraction : Extraction) (store : FileStore) :
    Except ExtractionError Report × FileStore :=
  match extraction.parsedFiles store with
  | .error error => (.error error, store)
  | .ok files =>
    let (result, after) := (reportOf extraction.markers files).run
      ⟨extraction.emitter?.map Emitter.forRun, store⟩
    (result.mapError .capture, after.store)

end Extraction

end SourceCapture
