/-
A document is a file of the project while its captures are taken: its path, its text with
normalized newlines, and an index of its lines. The index turns byte offsets into
positions: the line of an offset is the last one that starts at or before it, and only the
characters of that line have to be counted.
-/

import SourceCapture.Excerpt
import SourceCapture.Location
import SourceCapture.Path

namespace SourceCapture

/-- The bytes and the characters before the start of a line. -/
structure LineStart where
  byte : Nat
  char : Nat
  deriving Repr, DecidableEq, Inhabited

namespace LineStart

/-- The starts of the lines after the first one, for a text that follows `byte` bytes and
`char` characters. -/
def following (byte char : Nat) : List Char → List LineStart
  | [] => []
  | first :: rest =>
    let others := following (byte + first.utf8Size) (char + 1) rest
    if first = '\n' then ⟨byte + first.utf8Size, char + 1⟩ :: others else others

/-- The starts of all lines of a text, in order. -/
def ofText (content : List Char) : List LineStart := ⟨0, 0⟩ :: following 0 0 content

end LineStart

/-- A file of the project with the index of its lines. -/
structure Document where
  path : Path
  content : List Char
  relativePath : String
  lines : List LineStart

namespace Document

/-- The document of a file of a project. The text must have normalized newlines. -/
def ofFile (path : Path) (content : List Char) (projectDir : Path) : Document :=
  ⟨path, content, Path.relativeTo projectDir path, LineStart.ofText content⟩

/-- The name of the file without its folders. -/
def fileName (document : Document) : String :=
  document.path.fileName?.getD document.relativePath

/-- The position of a byte offset. There is none inside a character or past the end. -/
def position (document : Document) (offset : Nat) : Except SpanError Position :=
  if Text.isBoundary document.content offset then
    let before := document.lines.takeWhile (·.byte ≤ offset)
    let line := before.getLast?.getD ⟨0, 0⟩
    let onLine := (Text.slice? document.content ⟨line.byte, offset⟩).getD []
    .ok ⟨line.char + onLine.length, before.length, onLine.length⟩
  else .error (.ofSpan document.content ⟨offset, offset⟩)

end Document

end SourceCapture
