/-
The settings of a project: where its sources are, where fragments go, and the names of the
markers. They are read from a TOML document in which everything may be left out, and a build
may override some of them with options.
-/

import SourceCapture.FileStore
import SourceCapture.Json
import SourceCapture.Marker
import SourceCapture.Toml.Document

namespace SourceCapture

/-- Where sources are read and fragments are written. -/
structure ExtractionSettings where
  /-- The root of the project. Locations are relative to it. -/
  projectDir : Path := ⟨"."⟩
  /-- The folder for fragments. Without one none are written. -/
  extractedDir : Option Path := none
  /-- The folders with sources, relative to the root. -/
  sourceRoots : List String := ["src"]
  /-- The patterns of paths to leave out. -/
  exclude : List String := ["**/build/**"]
  fragmentExtension : String := "kt"
  artifactExtension : String := "js"
  deriving Repr, DecidableEq, Inhabited

/-- The settings of a project. -/
structure Settings where
  extraction : ExtractionSettings := {}
  markers : MarkerNames := {}
  deriving Repr, DecidableEq, Inhabited

/-- What is wrong with settings or options. -/
inductive SettingsError where
  | unreadable (path : Path) (cause : FileError)
  /-- The document is malformed, or a setting has a value of the wrong kind. -/
  | malformed
  | unexpectedOption (name : String)
  | missingOption (name : String)
  deriving Repr, DecidableEq, Inhabited

namespace SettingsError

/-- The wording of the error. -/
def message : SettingsError → String
  | .unreadable path cause => "Failed to read config file " ++ path.text ++ ": " ++ cause.message
  | .malformed => "Failed to parse config"
  | .unexpectedOption name => "Unexpected config option " ++ name
  | .missingOption name => "Missing required config option " ++ name

/-- The wordings of the errors behind this one. -/
def causes : SettingsError → List String
  | .unreadable _ cause => [cause.message]
  | _ => []

end SettingsError

/-! ### Reading settings -/

namespace Settings

/-- The given settings of a section by name. A section may also be a list of its settings in
order, and a date is a section in which nothing is set. -/
def sectionOf? (names : List String) : Toml.Value → Option (String → Option Toml.Value)
  | .table _ entries => some (Toml.Entries.get? entries)
  | .list elements => some fun name => (names.idxOf? name).bind (elements[·]?)
  | .date _ => some fun _ => none
  | _ => none

/-- A text. -/
def text? : Toml.Value → Option String
  | .text value => some value
  | _ => none

/-- A list of texts. -/
def texts? : Toml.Value → Option (List String)
  | .list elements => elements.mapM text?
  | _ => none

/-- A setting that may be left out, but not have a value of the wrong kind. -/
def settingOr {Setting : Type} (default : Setting) (read : Toml.Value → Option Setting) :
    Option Toml.Value → Option Setting
  | some value => read value
  | none => some default

/-- The names of the settings for extraction, in order. -/
def extractionNames : List String :=
  ["project_dir", "extracted_dir", "source_roots", "exclude", "fragment_extension",
    "artifact_extension"]

/-- The names of the settings for markers, in order. -/
def markerNames : List String := ["capturable", "capture_source", "converters", "no_import"]

/-- Reads the section for extraction. -/
def readExtraction? (written : Toml.Value) : Option ExtractionSettings := do
  let given ← sectionOf? extractionNames written
  let default : ExtractionSettings := {}
  let path? := fun value => (text? value).map Path.mk
  return {
    projectDir := ← settingOr default.projectDir path? (given "project_dir")
    extractedDir := ← settingOr none (fun value => (path? value).map some) (given "extracted_dir")
    sourceRoots := ← settingOr default.sourceRoots texts? (given "source_roots")
    exclude := ← settingOr default.exclude texts? (given "exclude")
    fragmentExtension := ← settingOr default.fragmentExtension text? (given "fragment_extension")
    artifactExtension := ← settingOr default.artifactExtension text? (given "artifact_extension") }

/-- Reads the section for markers. -/
def readMarkers? (written : Toml.Value) : Option MarkerNames := do
  let given ← sectionOf? markerNames written
  let default : MarkerNames := {}
  return {
    capturable := ← settingOr default.capturable text? (given "capturable")
    captureSource := ← settingOr default.captureSource text? (given "capture_source")
    converters := ← settingOr default.converters text? (given "converters")
    noImport := ← settingOr default.noImport text? (given "no_import") }

/-- Reads settings. Names that mean nothing here are passed over. -/
def parse? (document : String) : Option Settings := do
  let entries ← Toml.parse? document
  return {
    extraction := ← settingOr {} readExtraction? (entries.get? "extraction")
    markers := ← settingOr {} readMarkers? (entries.get? "markers") }

/-- Reads settings, or says that they are malformed. -/
def parse (document : String) : Except SettingsError Settings :=
  match parse? document with
  | some settings => .ok settings
  | none => .error .malformed

/-- Reads settings from a file. -/
def ofFile (store : FileStore) (path : Path) : Except SettingsError Settings := do
  parse (← (store.readText path).mapError (.unreadable path))

end Settings

/-! ### Showing settings -/

/-- The settings for extraction under their names in a document. -/
def ExtractionSettings.toJson (settings : ExtractionSettings) : Json :=
  .record [("project_dir", .text settings.projectDir.text),
    ("extracted_dir", (settings.extractedDir.map fun dir => Json.text dir.text).getD .null),
    ("source_roots", .list (settings.sourceRoots.map .text)),
    ("exclude", .list (settings.exclude.map .text)),
    ("fragment_extension", .text settings.fragmentExtension),
    ("artifact_extension", .text settings.artifactExtension)]

/-- The names of the markers under their names in a document. -/
def MarkerNames.toJson (names : MarkerNames) : Json :=
  .record [("capturable", .text names.capturable), ("capture_source", .text names.captureSource),
    ("converters", .text names.converters), ("no_import", .text names.noImport)]

/-- All settings, those with default values included. -/
def Settings.toJson (settings : Settings) : Json :=
  .record [("extraction", settings.extraction.toJson), ("markers", settings.markers.toJson)]

/-! ### Options of a build -/

/-- What a build says about a project. -/
structure BuildOptions where
  projectDir : Option Path := none
  extractedDir : Path
  deriving Repr, DecidableEq, Inhabited

namespace BuildOptions

/-- The name of the option for the root of the project. -/
def projectDirName : String := "projectDir"

/-- The name of the option for the folder of the fragments, which must be given. -/
def extractedDirName : String := "extractedDir"

/-- The options given so far, after one more. -/
def take (given : Option Path × Option Path) (option : String × String) :
    Except SettingsError (Option Path × Option Path) :=
  if option.1 = projectDirName then .ok (some ⟨option.2⟩, given.2)
  else if option.1 = extractedDirName then .ok (given.1, some ⟨option.2⟩)
  else .error (.unexpectedOption option.1)

/-- Reads options given as names and values. Of two with one name the later counts. -/
def ofPairs (pairs : List (String × String)) : Except SettingsError BuildOptions := do
  match ← pairs.foldlM take (none, none) with
  | (projectDir, some extractedDir) => return ⟨projectDir, extractedDir⟩
  | (_, none) => throw (.missingOption extractedDirName)

/-- The settings with the options in place of those that they override. -/
def override (options : BuildOptions) (settings : ExtractionSettings) : ExtractionSettings :=
  { settings with
    projectDir := options.projectDir.getD settings.projectDir
    extractedDir := some options.extractedDir }

end BuildOptions

end SourceCapture
