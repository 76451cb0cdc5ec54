/-
Files to leave out. An exclusion is a pattern that is compared with the whole path of a file
and with its path below the project. It also leaves out every file whose path below the
project holds the text of the pattern without its double stars, so that a pattern for all
files of a folder works wherever that folder is.
-/

import SourceCapture.Glob
import SourceCapture.Path
import SourceCapture.Text.Pieces

namespace SourceCapture

/-- A pattern of files to leave out, with the text that it was read from. -/
structure Exclusion where
  text : List Char
  pattern : Glob
  deriving Repr, DecidableEq, Inhabited

namespace Exclusion

/-- Reads an exclusion. A text that is no pattern is none. -/
def ofText? (text : String) : Option Exclusion :=
  (Glob.parse text.toList).toOption.map (⟨text.toList, ·⟩)

/-- A text without its pairs of stars. -/
def withoutDoubleStars : List Char → List Char
  | '*' :: '*' :: rest => withoutDoubleStars rest
  | char :: rest => char :: withoutDoubleStars rest
  | [] => []

/-- Whether a path holds the text of the pattern without its double stars. Nothing and a
lone slash are held by no path. -/
def isHeldBy (exclusion : Exclusion) (path : List Char) : Bool :=
  let piece := withoutDoubleStars exclusion.text
  !piece.isEmpty && piece ≠ ['/'] && Text.containsPiece piece path

/-- Whether the exclusion leaves out the file of a path. A file that is not below the
project is known by its whole path alone. -/
def leavesOut (exclusion : Exclusion) (projectDir path : Path) : Bool :=
  let below := ((projectDir.below? path).getD path.text).toList
  Glob.isMatch exclusion.pattern path.text.toList || Glob.isMatch exclusion.pattern below ||
    exclusion.isHeldBy ('/' :: below)

end Exclusion

end SourceCapture
