/-
A file system as a value: a tree of files and folders. A path is followed name by name from
the root or from the working folder: each step needs a folder to start from, dots stay in
place and double dots go up. The text of a path has a limit of its own, which counts before
the path is followed. What goes wrong is one of a few causes.
-/

import SourceCapture.FileEntry
import SourceCapture.Path
import SourceCapture.Text.Bytes

namespace SourceCapture

/-- Why an operation on files fails. -/
inductive FileError where
  | notFound
  | notADirectory
  | isADirectory
  | alreadyExists
  | nameTooLong
  | nulInPath
  | invalidText
  deriving Repr, DecidableEq, Inhabited

namespace FileError

/-- The wording of the error. -/
def message : FileError → String
  | .notFound => "No such file or directory (os error 2)"
  | .notADirectory => "Not a directory (os error 20)"
  | .isADirectory => "Is a directory (os error 21)"
  | .alreadyExists => "File exists (os error 17)"
  | .nameTooLong => "File name too long (os error 36)"
  | .nulInPath => "file name contained an unexpected NUL byte"
  | .invalidText => "stream did not contain valid UTF-8"

end FileError

/-- The tree of files, and the place where relative paths start. -/
structure FileStore where
  root : FileEntry := .emptyFolder
  workingPlace : Place := []

namespace FileStore

/-- Where following a path ends: at an entry, or at a free place in a folder. -/
inductive Spot where
  | taken (place : Place) (entry : FileEntry)
  | free (place : Place)

/-- The longest name that an entry can have, in bytes. -/
def longestName : Nat := 255

/-- The longest path that can be followed, in bytes. -/
def longestPath : Nat := 4095

/-- The entry at a place. -/
def entryAt? (store : FileStore) (place : Place) : Option FileEntry := store.root.at? place

/-- The bytes of the file at a place. -/
def bytesAt? (store : FileStore) (place : Place) : Option ByteArray :=
  (store.entryAt? place).bind FileEntry.bytes?

/-- Puts an entry at a place. Folders on the way there that are missing are made. -/
def put (store : FileStore) (place : Place) (entry : FileEntry) : FileStore :=
  { store with root := store.root.put place entry }

/-! ### Following paths -/

/-- The folders on the way to one, each with the name that leads to it, from that one back
to the root. The root itself has no name and is left out. -/
abbrev Trail := List (String × FileEntry)

/-- The place at the end of a trail. -/
def placeOf (trail : Trail) : Place := (trail.map (·.1)).reverse

/-- The folder at the end of a trail. -/
def folderOf (store : FileStore) : Trail → FileEntry
  | [] => store.root
  | (_, folder) :: _ => folder

/-- Follows the segments of a path on from a trail. -/
def follow (store : FileStore) (trail : Trail) : List (List Char) → Except FileError Spot
  | [] => .ok (.taken (placeOf trail) (store.folderOf trail))
  | [] :: rest => follow store trail rest
  | ['.'] :: rest => follow store trail rest
  | ['.', '.'] :: rest => follow store trail.tail rest
  | segment :: rest =>
    if longestName < Text.byteLength segment then .error .nameTooLong
    else
      let name := String.ofList segment
      match (store.folderOf trail).child? name with
      | some (.folder entries) => follow store ((name, .folder entries) :: trail) rest
      | some (.file bytes) =>
        if rest.isEmpty then .ok (.taken (placeOf trail ++ [name]) (.file bytes))
        else .error .notADirectory
      | none => if rest.isEmpty then .ok (.free (placeOf trail ++ [name])) else .error .notFound

/-- What keeps a path from being followed at all. -/
def faultOf? (path : Path) : Option FileError :=
  if path.text.toList.contains '\x00' then some .nulInPath
  else if path.text.isEmpty then some .notFound
  else if longestPath < path.text.utf8ByteSize then some .nameTooLong
  else none

/-- The segments that lead to where a path starts. -/
def startOf (store : FileStore) (path : Path) : List (List Char) :=
  if path.isAbsolute then [] else store.workingPlace.map String.toList

/-- Follows some segments of a path. -/
def locateAlong (store : FileStore) (path : Path) (segments : List (List Char)) :
    Except FileError Spot :=
  match faultOf? path with
  | some cause => .error cause
  | none => store.follow [] (store.startOf path ++ segments)

/-- Follows a path. -/
def locate (store : FileStore) (path : Path) : Except FileError Spot :=
  store.locateAlong path (path.text.toList.splitOn '/')

/-- The entry that a path leads to. -/
def entry? (store : FileStore) (path : Path) : Option FileEntry :=
  match store.locate path with
  | .ok (.taken _ entry) => some entry
  | _ => none

/-- The place of the entry that a path leads to. -/
def place? (store : FileStore) (path : Path) : Option Place :=
  match store.locate path with
  | .ok (.taken place _) => some place
  | _ => none

/-- Whether a path leads to an entry. -/
def exists? (store : FileStore) (path : Path) : Bool := (store.entry? path).isSome

/-- Whether a path leads to a folder. -/
def isFolder (store : FileStore) (path : Path) : Bool :=
  (store.entry? path).any FileEntry.isFolder

/-- Whether a path leads to a file. -/
def isFile (store : FileStore) (path : Path) : Bool :=
  (store.entry? path).any fun entry => !entry.isFolder

/-- The place where relative paths start, as a path. -/
def workingDir (store : FileStore) : Path := ⟨"/" ++ "/".intercalate store.workingPlace⟩

/-! ### Reading -/

/-- The bytes of a file. -/
def readBytes (store : FileStore) (path : Path) : Except FileError ByteArray :=
  match store.locate path with
  | .ok (.taken _ (.file bytes)) => .ok bytes
  | .ok (.taken _ (.folder _)) => .error .isADirectory
  | .ok (.free _) => .error .notFound
  | .error cause => .error cause

/-- The text of a file in UTF-8. -/
def readText (store : FileStore) (path : Path) : Except FileError String :=
  match store.readBytes path with
  | .ok bytes =>
    match String.fromUTF8? bytes with
    | some text => .ok text
    | none => .error .invalidText
  | .error cause => .error cause

/-- What is in the folder that a path leads to. -/
def readFolder (store : FileStore) (path : Path) : Except FileError FileEntry :=
  match store.locate path with
  | .ok (.taken _ (.folder entries)) => .ok (.folder entries)
  | .ok (.taken _ (.file _)) => .error .notADirectory
  | .ok (.free _) => .error .notFound
  | .error cause => .error cause

/-- The files at any depth below a place, each with the names that lead to it. -/
def filesBelow (store : FileStore) (place : Place) : List (Place × ByteArray) :=
  match store.entryAt? place with
  | some entry => entry.contents.filterMap fun inner => inner.2.bytes?.map (inner.1, ·)
  | none => []

/-! ### Writing -/

/-- The segments of a path without the empty ones at its end, and whether there were any. -/
def withoutTrailingSlashes (path : Path) : List (List Char) × Bool :=
  let segments := path.text.toList.splitOn '/'
  let kept := (segments.reverse.dropWhile (·.isEmpty)).reverse
  (kept, kept.length < segments.length)

/-- Writes a file, in place of the one that may be there. -/
def writeBytes (store : FileStore) (path : Path) (bytes : ByteArray) :
    Except FileError FileStore :=
  let (segments, slash) := withoutTrailingSlashes path
  match store.locateAlong path segments with
  | .ok (.taken _ (.folder _)) => .error .isADirectory
  | .ok (.taken place (.file _)) =>
    if slash then .error .isADirectory else .ok (store.put place (.file bytes))
  | .ok (.free place) =>
    if slash then .error .isADirectory else .ok (store.put place (.file bytes))
  | .error cause => .error cause

/-- Makes one folder in a folder that is there. -/
def makeFolder (store : FileStore) (path : Path) : Except FileError FileStore :=
  match store.locateAlong path (withoutTrailingSlashes path).1 with
  | .ok (.taken _ _) => .error .alreadyExists
  | .ok (.free place) => .ok (store.put place .emptyFolder)
  | .error cause => .error cause

/-- Makes folders, each of which is in the one after it, so that the last one is made first.
A path is given by its segments from the last to the first. Stops at the first folder that
can be made or is there, and then makes those before it. The store is that after the last
folder made. -/
def makeFoldersAlong (store : FileStore) :
    List (List (List Char)) → Except FileError Unit × FileStore
  | [] => (.ok (), store)
  | backwards :: around =>
    let path : Path := ⟨String.ofList (['/'].intercalate backwards.reverse)⟩
    match store.makeFolder path with
    | .ok made => (.ok (), made)
    | .error .notFound =>
      match makeFoldersAlong store around with
      | (.ok (), within) =>
        match within.makeFolder path with
        | .ok made => (.ok (), made)
        | .error cause => (if within.isFolder path then .ok () else .error cause, within)
      | (.error cause, within) => (.error cause, within)
    | .error cause => (if store.isFolder path then .ok () else .error cause, store)

/-- The segments from the last to the first of every path that ends at a named segment, the
longest path first. -/
def tailsAtNames : List (List Char) → List (List (List Char))
  | [] => []
  | segment :: rest =>
    if (Path.componentOf? segment).isNone then tailsAtNames rest
    else (segment :: rest) :: tailsAtNames rest

/-- The path and the paths of the folders around it, the nearest first. -/
def pathAndFolders (path : Path) : List (List (List Char)) :=
  let backwards := (path.text.toList.splitOn '/').reverse
  match tailsAtNames backwards with
  | [] => []
  | _ :: around => backwards :: around

/-- Makes a folder and every folder around it that is missing. -/
def makeFolders (store : FileStore) (path : Path) : Except FileError Unit × FileStore :=
  makeFoldersAlong store (pathAndFolders path)

/-! ### Changing the tree -/

/-- Takes out an entry and everything below it. -/
def remove (store : FileStore) (place : Place) : FileStore :=
  { store with root := store.root.remove place }

/-- The store with a folder at a place. One that is there stays as it is. -/
def withFolder (store : FileStore) (place : Place) : FileStore :=
  if (store.entryAt? place).any FileEntry.isFolder then store
  else store.put place .emptyFolder

/-! ### What a change leaves as it was -/

theorem entryAt?_put_self (store : FileStore) (place : Place) (entry : FileEntry) :
    (store.put place entry).entryAt? place = some entry :=
  FileEntry.at?_put_self store.root place entry

theorem entryAt?_put_apart (store : FileStore) {place other : Place}
    (notAbove : ¬ other <+: place) (notBelow : ¬ place <+: other) (entry : FileEntry) :
    (store.put place entry).entryAt? other = store.entryAt? other :=
  FileEntry.at?_put_apart store.root notAbove notBelow entry

end FileStore

end SourceCapture
