/-
A project and its settings file. The file has one of two names and stands at the root of
the project; without it the default settings hold.
-/

import SourceCapture.Extraction

namespace SourceCapture.Project

/-- The names of the settings file, in the order in which they are looked for. -/
def settingsNames : List String := ["kotbridge.toml", ".kotbridge.toml"]

/-- The places of the settings file of a project, in order. -/
def settingsPaths (root : Path) : List Path := settingsNames.map root.join

/-- The root that settings in a project name: a relative one starts at the root where they
stand, and a dot is that root itself. -/
def anchor (root dir : Path) : Path :=
  if dir.isAbsolute then dir else if dir.sameAs ⟨"."⟩ then root else root.join dir.text

/-- The settings of a project. -/
def settings (store : FileStore) (root : Path) : Except SettingsError Settings := do
  let read ← match (settingsPaths root).find? store.exists? with
    | some path => Settings.ofFile store path
    | none => pure {}
  let extraction := read.extraction
  return { read with
    extraction := { extraction with projectDir := anchor root extraction.projectDir } }

/-- What a run with these settings yields, and the files after it. -/
def extractWith (settings : Settings) (frontend : Frontend) (store : FileStore) :
    Except ExtractionError Report × FileStore :=
  let request : ExtractionRequest := { settings := settings, frontends := [frontend] }
  match request.prepare store.workingDir with
  | .ok extraction => extraction.run store
  | .error error => (.error error, store)

/-- A run over a project with the settings of its file. -/
def extract (root : Path) (frontend : Frontend) (store : FileStore) :
    Except ExtractionError Report × FileStore :=
  match settings store root with
  | .ok found => extractWith found frontend store
  | .error cause => (.error (.settings cause), store)

/-- The settings for a run that a build starts with options. -/
def settingsFor (store : FileStore) (pairs : List (String × String)) :
    Except SettingsError Settings := do
  let options ← BuildOptions.ofPairs pairs
  let found ← settings store (options.projectDir.getD ⟨"."⟩)
  return { found with extraction := options.override found.extraction }

/-- A run over a project that a build starts with options. -/
def extractFor (pairs : List (String × String)) (frontend : Frontend) (store : FileStore) :
    Except ExtractionError Report × FileStore :=
  match settingsFor store pairs with
  | .ok found => extractWith found frontend store
  | .error cause => (.error (.settings cause), store)

end SourceCapture.Project
