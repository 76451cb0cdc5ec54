/-
The program. It copies the files at which a command looks into a store, runs the command,
and puts what the command changed back on the disk. The syntax tree of a source file is read
from the listing beside it, whose name has `.tree` added.
-/

import SourceCapture.CommandLine

namespace SourceCapture.CommandLine

/-- The place of an absolute path without links and dots. -/
def placeOnDisk (path : String) : Place := (path.splitOn "/").filter (!·.isEmpty)

/-- Copies what is at a path into the store, with everything below it. What cannot be read
is left out. -/
partial def copyIn (store : FileStore) (path : String) : IO FileStore := do
  try
    let found ← IO.FS.realPath path
    let place := placeOnDisk found.toString
    if ← found.isDir then
      let mut current := store.withFolder place
      for entry in ← found.readDir do
        current ← copyIn current entry.path.toString
      return current
    else
      return store.put place (.file (← IO.FS.readBinFile found))
  catch _ => return store

/-- Makes the folders and writes the files that are new or have changed. -/
def copyOut (before after : FileStore) : IO Unit := do
  for (place, entry) in after.root.contents do
    let path := "/" ++ "/".intercalate place
    match entry with
    | .folder _ => if (before.entryAt? place).isNone then IO.FS.createDirAll path
    | .file bytes =>
      if (before.bytesAt? place).map (·.data) ≠ some bytes.data then IO.FS.writeBinFile path bytes

/-- The text of a file with normalized newlines, if there is a listing beside the file that
holds its tree. -/
def knownTree? (store : FileStore) (path : Path) : Option (List Char × Tree) := do
  let text ← (store.readText path).toOption
  let listing ← (store.readText ⟨path.text ++ ".tree"⟩).toOption
  let tree ← Tree.ofListing? (Text.normalizeNewlines listing.toList)
  return (Text.normalizeNewlines text.toList, tree)

/-- The trees of all files in the store. -/
def knownTrees (store : FileStore) : KnownTrees :=
  .ofList ((store.filesBelow []).filterMap fun file =>
    knownTree? store ⟨"/" ++ "/".intercalate file.1⟩)

/-- The variables that matter. -/
def readEnvironment : IO Environment := do
  let names := ["HOME", "KOTBRIDGE_CONFIG", "KOTBRIDGE_CONFIG_DIR"]
  let found ← names.filterMapM fun name => do
    return (← IO.getEnv name).map (name, ·)
  return .ofList found

/-- Runs a command on the disk. -/
def runOnDisk (invocation : Invocation) (environment : Environment) :
    IO Outcome := do
  let here := placeOnDisk (← IO.currentDir).toString
  let empty := ({ workingPlace := here } : FileStore).withFolder here
  let settings := (invocation.settingsPaths environment).map (·.text)
  let prepared ← settings.foldlM copyIn empty
  let folders := (invocation.folders environment prepared).map (·.text)
  let store ← folders.foldlM copyIn prepared
  let outcome := invocation.run environment (.ofTrees (knownTrees store)) store
  copyOut store outcome.store
  return outcome

end SourceCapture.CommandLine

open SourceCapture CommandLine

def main (words : List String) : IO UInt32 := do
  let environment ← readEnvironment
  let outcome ← match Invocation.ofWords environment words with
    | .ok invocation => runOnDisk invocation environment
    | .error stop => pure (stopped {} stop)
  IO.print outcome.output
  if outcome.exitCode = 2 then IO.eprint help
  match outcome.failure? with
  | some failure => IO.eprint failure.report
  | none => pure ()
  return UInt32.ofNat outcome.exitCode
