/-
The entries of a file system that a pattern matches. The pattern is followed one component
at a time from the root. A component without wildcards is only looked up; one with wildcards
is compared with the names in a folder; two stars stand for every entry at any depth. What
is found may be a folder as well as a file. A folder whose path is too long to be listed
ends the search.
-/

import SourceCapture.FileStore
import SourceCapture.Glob

namespace SourceCapture

/-- A component of a pattern of paths. -/
inductive GlobStep where
  /-- The entry with this name. -/
  | named (name : String)
  /-- The entries whose names match. -/
  | matching (pattern : Glob)
  /-- The entries at any depth. -/
  | anyDepth
  deriving Repr, DecidableEq, Inhabited

namespace GlobStep

/-- Reads a component. -/
def ofText (component : List Char) : Except GlobError GlobStep :=
  (Glob.parse component).map fun pattern =>
    if pattern = [.anyFolders] then .anyDepth
    else match Glob.literal? pattern with
      | some name => .named (String.ofList name)
      | none => .matching pattern

/-- Whether an entry of this name fits the component. -/
def fits : GlobStep → String → Bool
  | .named expected, name => name = expected
  | .matching pattern, name => Glob.isMatch pattern name.toList
  | .anyDepth, _ => true

/-- The names for a folder itself and for the one above it that a component matches. They
match only where the pattern spells out their first dot. -/
def dots : Glob → List String
  | .char '.' :: rest => ["..", "."].filter fun name => Glob.isMatch (.char '.' :: rest) name.toList
  | _ => []

end GlobStep

/-- Why a search fails. -/
inductive SearchError where
  | malformed (cause : GlobError)
  /-- A folder that was found cannot be listed. -/
  | unlistable (cause : FileError)
  deriving Repr, DecidableEq

/-- A path to which a search has come, and whether a folder is there. A folder that was seen
in another is known as one even where its path is too long to be followed. -/
structure Lead where
  path : Path
  isFolder : Bool

namespace FileStore

/-- The lead along a path that is looked up. -/
def leadTo (store : FileStore) (path : Path) : Lead := ⟨path, store.isFolder path⟩

/-- The folder at a lead, to be listed. A lead to a file gives none. -/
def folderAt (store : FileStore) (lead : Lead) : Except FileError (Option FileEntry) :=
  if lead.isFolder then (store.readFolder lead.path).map some else .ok none

/-- The leads to the entries at any depth below a folder. A folder comes before what is in
it, and names are in order. -/
def leadsInto (path : Path) (folder : FileEntry) : List Lead :=
  let found := folder.contents.mergeSort fun left right => !decide (right.1 < left.1)
  found.map fun inner => ⟨path.join ("/".intercalate inner.1), inner.2.isFolder⟩

/-- The leads to the entries at any depth below a lead. Every folder on the way is listed. -/
def leadsBelow (store : FileStore) (lead : Lead) : Except FileError (List Lead) := do
  match ← store.folderAt lead with
  | none => return []
  | some folder =>
    let leads := leadsInto lead.path folder
    leads.forM fun inner => discard (store.folderAt inner)
    return leads

/-- The leads at any depth below a lead that fit a component. -/
def leadsFitting (store : FileStore) (lead : Lead) (step : GlobStep) :
    Except FileError (List Lead) :=
  (store.leadsBelow lead).map (·.filter fun inner => inner.path.fileName?.any step.fits)

/-- The leads in a folder whose names match, after those to the folder itself and to the one
above it. -/
def leadsMatching (store : FileStore) (lead : Lead) (pattern : Glob) :
    Except FileError (List Lead) := do
  match ← store.folderAt lead with
  | none => return []
  | some folder =>
    let dots := (GlobStep.dots pattern).map fun name => store.leadTo (lead.path.join name)
    let names := folder.names.filter fun name => Glob.isMatch pattern name.toList
    return dots ++ names.map fun name =>
      ⟨lead.path.join name, (folder.child? name).any FileEntry.isFolder⟩

/-- Whether a component without wildcards leads on. -/
def leadsOn (store : FileStore) (lead : Lead) (name : String) : Bool :=
  if name = "." || name = ".." then lead.isFolder else store.exists? (lead.path.join name)

/-- The paths to which the components of a pattern lead on. The flag says that two stars came
just before, so that the next component is looked for at any depth; at the end of a pattern
they stand for every folder. -/
def followPattern (store : FileStore) : List GlobStep → Bool → Lead → Except FileError (List Path)
  | [], false, lead => .ok [lead.path]
  | [], true, lead => do
    let leads ← store.leadsBelow lead
    return (leads.filter (·.isFolder)).map (·.path)
  | .anyDepth :: rest, _, lead => followPattern store rest true lead
  | step :: rest, true, lead => do
    let leads ← store.leadsFitting lead step
    return (← leads.mapM (followPattern store rest false)).flatten
  | .named name :: rest, false, lead =>
    if store.leadsOn lead name then
      followPattern store rest false (store.leadTo (lead.path.join name))
    else .ok []
  | .matching pattern :: rest, false, lead => do
    let leads ← store.leadsMatching lead pattern
    return (← leads.mapM (followPattern store rest false)).flatten

/-- The paths that a pattern matches. The pattern starts at the root. -/
def search (store : FileStore) (pattern : List Char) : Except SearchError (List Path) := do
  let _ ← (Glob.parse pattern).mapError .malformed
  let steps ← (((pattern.drop 1).splitOn '/').mapM GlobStep.ofText).mapError .malformed
  (store.followPattern steps false (store.leadTo ⟨"/"⟩)).mapError .unlistable

end FileStore

end SourceCapture
