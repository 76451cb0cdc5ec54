/-
The commands. One extracts the captures of a project and shows them, one shows a location
that is given in its encoded form, and one writes a settings file to start from.
-/

import SourceCapture.CommandLine.Failure
import SourceCapture.CommandLine.Invocation
import SourceCapture.Project

namespace SourceCapture.CommandLine

/-- What a command leaves behind. -/
structure Outcome where
  exitCode : Nat := 0
  output : String := ""
  failure? : Option Failure := none
  store : FileStore

/-- The outcome of a command that failed. -/
def Outcome.failed (failure : Failure) (store : FileStore) : Outcome where
  exitCode := 1
  failure? := some failure
  store := store

/-! ### Extracting -/

/-- The home folder. An empty name stands for none. -/
def homeDir? (environment : Environment) : Option Path :=
  ((environment.get? "HOME").filter (!·.isEmpty)).map Path.mk

/-- The folder with the settings for projects that have none of their own. -/
def sharedSettingsDir? (environment : Environment) : Option Path :=
  match environment.get? "KOTBRIDGE_CONFIG_DIR" with
  | some dir => some ⟨dir⟩
  | none => (homeDir? environment).map (·.join ".kotbridge")

/-- Every file that may hold the settings of a project. -/
def settingsCandidates (environment : Environment) (root : Path) (named : Option Path) :
    List Path :=
  named.toList ++ Project.settingsPaths root ++
    ((sharedSettingsDir? environment).map (·.join "config.toml")).toList

/-- The settings file for a project: the one that was named, else the one at the root of
the project, else the one for all projects. A named one need not be there. -/
def settingsFile? (environment : Environment) (store : FileStore) (root : Path)
    (named : Option Path) : Option Path :=
  named.or (((Project.settingsPaths root).find? store.isFile).or
    (((sharedSettingsDir? environment).map (·.join "config.toml")).filter store.isFile))

/-- The settings with the options in place of those that they override. A project root in
the settings starts at the root that holds when none is given. -/
def ExtractOptions.override (options : ExtractOptions) (settings : Settings) : Settings :=
  let extraction := settings.extraction
  { settings with
    extraction := { extraction with
      projectDir := options.projectDir.getD ((Path.mk ".").join extraction.projectDir.text)
      extractedDir := options.extractedDir.or extraction.extractedDir
      exclude := extraction.exclude ++ options.exclude } }

/-- The settings of an extraction. -/
def settingsOf (environment : Environment) (store : FileStore) (options : ExtractOptions)
    (named : Option Path) : Except Failure Settings :=
  match settingsFile? environment store (options.projectDir.getD ⟨"."⟩) named with
  | none => .ok (options.override {})
  | some path =>
    match Settings.ofFile store path with
    | .ok settings => .ok (options.override settings)
    | .error cause => .error (.settings path cause)

/-- A report in a format. -/
def ReportFormat.show : ReportFormat → Report → String
  | .text, report => report.colouredText
  | .json, report => report.toJson.pretty ++ "\n"
  | .compact, report => report.compactText

/-- Extracts the captures of a project. -/
def extract (environment : Environment) (frontend : Frontend) (store : FileStore)
    (options : ExtractOptions) (named : Option Path) : Outcome :=
  match settingsOf environment store options named with
  | .error failure => .failed failure store
  | .ok settings =>
    match Project.extractWith settings frontend store with
    | (.ok report, after) => { output := options.format.show report, store := after }
    | (.error cause, after) => .failed (.extraction cause) after

/-! ### Decoding -/

/-- A text with a newline for every backslash before an n. -/
def unescapeNewlines : List Char → List Char
  | '\\' :: 'n' :: rest => '\n' :: unescapeNewlines rest
  | char :: rest => char :: unescapeNewlines rest
  | [] => []

/-- A position for a reader. -/
def describePosition (position : Position) : String :=
  s!"char {position.char}, line {position.line}, column {position.column}"

/-- A location for a reader. -/
def describe (location : Location) : String :=
  location.display ++ "\n  path: " ++ location.path ++
    "\n  from: " ++ describePosition location.start ++
    "\n  to:   " ++ describePosition location.stop ++ "\n"

/-- Shows an encoded location. -/
def decode (store : FileStore) (written : String) : Outcome :=
  let encoded := String.ofList (unescapeNewlines written.toList)
  match Location.decode encoded with
  | .ok location => { output := describe location, store := store }
  | .error cause => .failed (.location encoded cause) store

/-! ### Starting a project -/

/-- A settings file to start from. -/
def firstSettings : String := "# kotbridge configuration

[extraction]
# Project root; locations are recorded relative to it
project_dir = \".\"

# Where generated fragments are written. Without it, blocks are captured
# for introspection only.
extracted_dir = \"build/generated/kotbridge/main/kjs\"

# Source directories, relative to the project root
source_roots = [\"src\"]

# Glob patterns to exclude
exclude = [
    \"**/build/**\",
]

# fragment_extension = \"kt\"
# artifact_extension = \"js\"

# Fully-qualified marker names, for forks of the annotation library
[markers]
# capturable = \"com.github.tarcv.kotbridge.Capturable\"
# capture_source = \"com.github.tarcv.kotbridge.CaptureSource\"
# converters = \"com.github.tarcv.kotbridge.Converters\"
# no_import = \"com.github.tarcv.kotbridge.KtJsNoImport\"
"

/-- What is told after the settings file was written. -/
def firstSteps : String := "Created kotbridge.toml

Next steps:
  1. Edit kotbridge.toml to point at your sources
  2. Run: kotbridge extract
"

/-- Writes a settings file into the working folder. One that is there is only replaced by
force. -/
def init (store : FileStore) (force : Bool) : Outcome :=
  let path : Path := (Path.mk ".").join "kotbridge.toml"
  if store.exists? path && !force then .failed (.settingsExist path) store
  else
    match store.writeBytes path firstSettings.toUTF8 with
    | .ok after => { output := firstSteps, store := after }
    | .error cause => .failed (.unwritable path cause) store

/-! ### What a command looks at -/

/-- The files in which a command looks for settings, or which it writes first of all. -/
def Invocation.settingsPaths (invocation : Invocation) (environment : Environment) : List Path :=
  match invocation.command with
  | .extract options =>
    settingsCandidates environment (options.projectDir.getD ⟨"."⟩) invocation.settingsPath
  | .decode _ => []
  | .init _ => [(Path.mk ".").join "kotbridge.toml"]

/-- The folders in which a command then looks, in a store that holds the settings. -/
def Invocation.folders (invocation : Invocation) (environment : Environment)
    (store : FileStore) : List Path :=
  match invocation.command with
  | .extract options =>
    match settingsOf environment store options invocation.settingsPath with
    | .ok settings =>
      let request : ExtractionRequest := { settings := settings }
      let root := request.root store.workingDir
      settings.extraction.sourceRoots.map root.join ++ ((request.emitter? root).map (·.outDir)).toList
    | .error _ => []
  | _ => []

/-! ### Running -/

/-- What a reader is told who asks for the version. -/
def version : String := "kotbridge 0.3.0\n"

/-- What a reader is told who asks for help. -/
def help : String := "Captures Kotlin source blocks and extracts them into standalone fragments

Usage: kotbridge [OPTIONS] <COMMAND>

Commands:
  extract  Capture blocks and declarations, writing fragments if configured
  decode   Decode an encoded source location
  init     Initialize configuration file
  help     Print this message or the help of the given subcommand(s)

Options:
  -v, --verbose          Enable verbose output
  -c, --config <CONFIG>  Path to configuration file [env: KOTBRIDGE_CONFIG=]
  -h, --help             Print help
  -V, --version          Print version
"

/-- The outcome of reading that ended before there was anything to run. -/
def stopped (store : FileStore) : Stop → Outcome
  | .help => { output := help, store := store }
  | .version => { output := version, store := store }
  | .misuse => { exitCode := 2, store := store }

/-- Runs what is asked for. -/
def Invocation.run (invocation : Invocation) (environment : Environment) (frontend : Frontend)
    (store : FileStore) : Outcome :=
  match invocation.command with
  | .extract options => extract environment frontend store options invocation.settingsPath
  | .decode encoded => decode store encoded
  | .init force => init store force

/-- Runs the words of a command line. -/
def run (environment : Environment) (words : List String) (frontend : Frontend)
    (store : FileStore) : Outcome :=
  match Invocation.ofWords environment words with
  | .ok invocation => invocation.run environment frontend store
  | .error stop => stopped store stop

end SourceCapture.CommandLine
