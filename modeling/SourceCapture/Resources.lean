/-
The compiled fragments of a program as files. A resource folder hands out its files by
name and refuses every name that could lead out of it.
-/

import SourceCapture.FileStore

namespace SourceCapture

/-- Why a resource cannot be read. -/
inductive ResourceError where
  /-- The name is empty, starts at the root or goes up. -/
  | refusedName (name : String)
  | file (cause : FileError)
  deriving Repr, DecidableEq

namespace ResourceError

/-- The wording of the error. -/
def message : ResourceError → String
  | .refusedName name => s!"resource name '{name}' is not a plain relative path"
  | .file cause => cause.message

end ResourceError

/-- A folder whose files are resources. -/
structure ResourceFolder where
  root : Path

namespace ResourceFolder

/-- Whether a name stays inside the folder: there is one, and each of its components names
an entry or stays in place. -/
def accepts (name : String) : Bool :=
  !name.isEmpty && (Path.mk name).components.all Component.isPlain

/-- Reads a resource as text. -/
def read (folder : ResourceFolder) (store : FileStore) (name : String) :
    Except ResourceError String :=
  if accepts name then (store.readText (folder.root.join name)).mapError .file
  else .error (.refusedName name)

end ResourceFolder

end SourceCapture
