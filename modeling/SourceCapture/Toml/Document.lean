/-
Reading TOML documents. A document is a list of lines, each blank, a header or a key with
its value; lists may go on over several lines and tables between braces may not. Nesting is
limited, so that reading is bounded by the limit and by the length of the text.
-/

import SourceCapture.Toml.Quoted
import SourceCapture.Toml.Scalar

namespace SourceCapture.Toml

/-- What is read and what follows it. -/
abbrev Read (Result : Type) := Result × List Char

/-! ### Blanks and line ends -/

/-- Whether a character is a blank inside a line. -/
def isBlankInLine (char : Char) : Bool := char = ' ' || char = '\t'

/-- The text without blanks at its start. -/
def skipBlanks (text : List Char) : List Char := text.dropWhile isBlankInLine

/-- What follows the blanks, newlines and comments at the start of a text. -/
def skipLines? (isComment : Bool) : List Char → Option (List Char)
  | [] => some []
  | '\n' :: rest => skipLines? false rest
  | '\r' :: '\n' :: rest => skipLines? false rest
  | char :: rest =>
    if isComment then if Quoted.isPlain char then skipLines? true rest else none
    else if isBlankInLine char then skipLines? false rest
    else if char = '#' then skipLines? true rest
    else some (char :: rest)

/-- What follows the end of a line, if nothing but a comment stands before it. -/
def afterLine? (text : List Char) : Option (List Char) :=
  let rest := skipBlanks text
  let ended := if rest.head? = some '#' then rest.dropWhile Quoted.isPlain else rest
  match ended with
  | [] => some []
  | '\n' :: after => some after
  | '\r' :: '\n' :: after => some after
  | _ => none

/-! ### Keys -/

/-- The limit of nesting and of the length of dotted keys. -/
def limit : Nat := 79

/-- Whether a character may stand in a key without quotes. -/
def isKeyChar (char : Char) : Bool := char.isAlphanum || char = '_' || char = '-'

/-- Reads a key without dots. -/
def readKey? (text : List Char) : Option (Read String) :=
  match Quoted.readShort text with
  | some (key, rest) => some (String.ofList key, rest)
  | none =>
    let key := text.takeWhile isKeyChar
    if key.isEmpty then none else some (String.ofList key, text.dropWhile isKeyChar)

/-- Reads a dotted key of at most `budget` parts, as the parts before the last dot and the
part after it. -/
def readPath? : Nat → List Char → Option (Read (List String × String))
  | 0, _ => none
  | budget + 1, text => do
    let (key, rest) ← readKey? (skipBlanks text)
    match skipBlanks rest with
    | '.' :: more =>
      let ((path, last), after) ← readPath? budget more
      return ((key :: path, last), after)
    | after => return (([], key), after)

/-- Reads a key up to and with its equals sign. -/
def readAssigned? (text : List Char) : Option (Read (List String × String)) := do
  let (path, rest) ← readPath? limit text
  return (path, skipBlanks (← skip? '=' rest))

/-! ### Values -/

/-- Reads the elements of a list up to its closing bracket, where one may follow a comma. -/
def readElements? (readOne : List Char → Option (Read Value)) :
    Nat → List Char → Option (Read (List Value))
  | 0, _ => none
  | fuel + 1, text => do
    match ← skipLines? false text with
    | ']' :: after => return ([], after)
    | start =>
      let (value, rest) ← readOne start
      match ← skipLines? false rest with
      | ',' :: more =>
        let (values, after) ← readElements? readOne fuel more
        return (value :: values, after)
      | ']' :: after => return ([value], after)
      | _ => none

/-- Reads the entries of a table between braces up to its closing brace. -/
def readEntries? (readOne : List Char → Option (Read Value)) :
    Nat → List Char → Option (Read (List (List String × String × Value)))
  | 0, _ => none
  | fuel + 1, text => do
    let ((path, key), start) ← readAssigned? text
    let (value, rest) ← readOne start
    match skipBlanks rest with
    | ',' :: more =>
      let (entries, after) ← readEntries? readOne fuel more
      return ((path, key, value) :: entries, after)
    | '\x7d' :: after => return ([(path, key, value)], after)
    | _ => none

/-- The table of entries between braces. -/
def inlineTable? (entries : List (List String × String × Value)) : Option Value :=
  (entries.foldlM (fun table (path, key, value) => Entries.add path key value .inline table)
    []).map (.table .inline)

/-- Reads a value with at most `budget` levels of lists and tables in it. -/
def readValue? : Nat → List Char → Option (Read Value)
  | 0, text =>
    match Quoted.read text with
    | some (value, rest) => some (.text (String.ofList value), rest)
    | none => readWord? text
  | budget + 1, text =>
    match text with
    | '[' :: rest => do
      let (values, after) ← readElements? (readValue? budget) text.length rest
      return (.list values, after)
    | '\x7b' :: rest =>
      match skipBlanks rest with
      | '\x7d' :: after => some (.table .inline [], after)
      | _ => do
        let (entries, after) ← readEntries? (readValue? budget) text.length rest
        return (← inlineTable? entries, after)
    | _ =>
      match Quoted.read text with
      | some (value, rest) => some (.text (String.ofList value), rest)
      | none => readWord? text

/-! ### Statements -/

/-- Reads a header after its opening brackets. -/
def readHeader? (brackets : List Char) (text : List Char) : Option (Read (List String × String)) := do
  let (path, rest) ← readPath? limit text
  return (path, ← Text.stripStart? brackets rest)

/-- Reads a statement up to the end of its line. -/
def readStatement? (text : List Char) : Option (Read Statement) :=
  match text with
  | '[' :: '[' :: rest => do
    let ((path, key), after) ← readHeader? [']', ']'] rest
    return (.elementHeader path key, ← afterLine? after)
  | '[' :: rest => do
    let ((path, key), after) ← readHeader? [']'] rest
    return (.header path key, ← afterLine? after)
  | _ => do
    let ((path, key), start) ← readAssigned? text
    let (value, after) ← readValue? limit start
    return (.entry path key value, ← afterLine? after)

/-- Reads the statements of a document, in at most `fuel` steps. -/
def readStatements? : Nat → List Char → Option (List Statement)
  | 0, _ => none
  | fuel + 1, text =>
    match skipBlanks text with
    | [] => some []
    | start =>
      match afterLine? start with
      | some rest => readStatements? fuel rest
      | none => do
        let (statement, rest) ← readStatement? start
        return statement :: (← readStatements? fuel rest)

/-- The mark that may stand at the start of a file. -/
def byteOrderMark : Char := '\ufeff'

/-- Reads a document. Every step of the reader takes a character at least, so the length of
the text bounds the number of steps. -/
def parse? (document : String) : Option Entries :=
  let text := match document.toList with
    | char :: rest => if char = byteOrderMark then rest else char :: rest
    | [] => []
  (readStatements? (text.length + 1) text).bind assemble?

end SourceCapture.Toml
