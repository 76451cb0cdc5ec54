/-
The import lines of a file. A line makes one name visible, under its own or another name,
or all names of a package.
-/

import SourceCapture.Name

namespace SourceCapture

/-- What a line imports. -/
inductive ImportLine where
  /-- The name `path`, seen as `name`. -/
  | named (name path : String)
  /-- Everything in a package. -/
  | star (package : String)
  deriving Repr, DecidableEq

namespace ImportLine

/-- What an imported path makes visible, under the given name if there is one. -/
def ofPath (path : String) (given : Option String) : ImportLine :=
  match Text.stripEnd? ['.', '*'] path.toList with
  | some package => .star (String.ofList package)
  | none => .named (given.getD (Name.lastSegment path)) path

/-- Reads an import line. A text that does not start with the word imports nothing. -/
def ofText? (written : List Char) : Option ImportLine :=
  let line := Text.dropEndWhile (· = ';') (Text.trim written)
  (Text.stripStart? "import".toList line).map fun body =>
    match Text.splitOnce? " as ".toList body with
    | some (path, given) => ofPath (Name.join path) (some (String.ofList (Text.trim given)))
    | none => ofPath (Name.join body) none

end ImportLine

end SourceCapture
