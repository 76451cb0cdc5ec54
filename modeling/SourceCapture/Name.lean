/-
Dotted names. The part before the last dot says where a name is declared, the part after
it is the simple name. Source text may put a name in quotes of its own, which do not belong
to it.
-/

import SourceCapture.Text.Blank
import SourceCapture.Text.Pieces

namespace SourceCapture.Name

/-- A member of a scope. -/
def member (scope name : String) : String := scope ++ "." ++ name

/-- A name at the top of a package. The unnamed package adds nothing. -/
def qualify (package : Option String) (name : String) : String :=
  match package with
  | some package => if package.isEmpty then name else member package name
  | none => name

/-- The scope and the simple name of a dotted name. -/
def splitLast? (name : String) : Option (String × String) :=
  (Text.splitLast? '.' name.toList).map fun parts =>
    (String.ofList parts.1, String.ofList parts.2)

/-- The first segment and the rest of a dotted name. -/
def splitFirst? (name : String) : Option (String × String) :=
  (Text.splitOnce? ['.'] name.toList).map fun parts =>
    (String.ofList parts.1, String.ofList parts.2)

/-- The simple name: what follows the last dot. -/
def lastSegment (name : String) : String :=
  match splitLast? name with
  | some (_, simple) => simple
  | none => name

/-! ### Names in source text -/

/-- The character that quotes a name. -/
def quote : Char := '\x60'

/-- A name without the quotes around it. -/
def unquote (written : List Char) : String :=
  String.ofList (Text.stripWhile (· = quote) written)

/-- A dotted name without white space and quotes. -/
def join (written : List Char) : String :=
  String.ofList (written.filter fun char => !Text.isBlank char && char ≠ quote)

theorem qualify_none (name : String) : qualify none name = name := rfl

end SourceCapture.Name
