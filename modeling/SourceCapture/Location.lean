/-
Where a captured text stands: a path relative to the project and two positions. A location
travels inside programs as three lines, the path and one line of three numbers for each
position. Reading it back is strict: exactly that form is read, and the same rules are
checked as for a location built from its parts.
-/

import SourceCapture.Number

namespace SourceCapture

/-- A position in a file: characters before it, its line counted from one, and characters
before it on that line. -/
structure Position where
  char : Nat
  line : Nat
  column : Nat
  deriving Repr, DecidableEq, Inhabited

/-- A range of a file of the project. -/
structure Location where
  path : String
  start : Position
  stop : Position
  deriving Repr, DecidableEq, Inhabited

/-- What is wrong with a location or with its encoding. -/
inductive LocationError where
  | partCount (found : Nat)
  | fieldCount (offset : String) (found : Nat)
  | invalidNumber (field : String) (cause : NumberError)
  | emptyPath
  | multilinePath
  | absolutePath (path : String)
  | zeroLine
  | inverted (start stop : Nat)
  deriving Repr, DecidableEq

namespace LocationError

/-- The wording of the error. -/
def message : LocationError → String
  | .partCount found => s!"expected 3 newline-separated parts, found {found}"
  | .fieldCount offset found =>
    s!"expected 3 comma-separated fields in offset '{offset}', found {found}"
  | .invalidNumber field cause => s!"invalid offset field '{field}': {cause.message}"
  | .emptyPath => "location path is empty"
  | .multilinePath => "location path contains a newline"
  | .absolutePath path => s!"location path '{path}' is absolute"
  | .zeroLine => "line numbers start at 1"
  | .inverted start stop => s!"start offset {start} lies after end offset {stop}"

/-- The wordings of the errors behind this one, nearest first. -/
def causes : LocationError → List String
  | .invalidNumber _ cause => [cause.message]
  | _ => []

end LocationError

namespace Position

/-- The three numbers with commas between them. -/
def encode (position : Position) : String :=
  s!"{position.char},{position.line},{position.column}"

/-- Reads one number of a position. -/
def readField (field : List Char) : Except LocationError Nat :=
  match Number.readUnsigned 10 Number.unsignedLimit field with
  | .ok value => .ok value
  | .error cause => .error (.invalidNumber (String.ofList field) cause)

/-- Reads three numbers with commas between them. -/
def decode (encoded : List Char) : Except LocationError Position :=
  match encoded.splitOn ',' with
  | [char, line, column] => do
    let char ← readField char
    let line ← readField line
    let column ← readField column
    return ⟨char, line, column⟩
  | fields => .error (.fieldCount (String.ofList encoded) fields.length)

end Position

namespace Location

/-- Whether a path starts at a root: at a slash of either kind or at a drive letter. -/
def looksAbsolute : List Char → Bool
  | '/' :: _ => true
  | '\\' :: _ => true
  | drive :: ':' :: _ => drive.isAlpha
  | _ => false

/-- The rules of a location, in the order in which they are checked. -/
def check (location : Location) : Except LocationError Location :=
  if location.path.isEmpty then .error .emptyPath
  else if location.path.toList.contains '\n' then .error .multilinePath
  else if looksAbsolute location.path.toList then .error (.absolutePath location.path)
  else if location.start.line = 0 || location.stop.line = 0 then .error .zeroLine
  else if location.stop.char < location.start.char then
    .error (.inverted location.start.char location.stop.char)
  else .ok location

/-- The location of a path and two positions, if they keep the rules. -/
def ofParts (path : String) (start stop : Position) : Except LocationError Location :=
  check ⟨path, start, stop⟩

/-- The three lines in which a location travels. -/
def encode (location : Location) : String :=
  location.path ++ "\n" ++ location.start.encode ++ "\n" ++ location.stop.encode

/-- Reads a location from its three lines. -/
def decode (encoded : String) : Except LocationError Location :=
  match encoded.toList.splitOn '\n' with
  | [path, start, stop] => do
    let start ← Position.decode start
    let stop ← Position.decode stop
    check ⟨String.ofList path, start, stop⟩
  | parts => .error (.partCount parts.length)

/-- The location for a reader: the path and the line and column of both ends. -/
def display (location : Location) : String :=
  s!"{location.path}:{location.start.line}:{location.start.column}-" ++
    s!"{location.stop.line}:{location.stop.column}"

end Location

end SourceCapture
