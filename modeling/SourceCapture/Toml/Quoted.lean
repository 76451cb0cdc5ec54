/-
The quoted texts of TOML. A text in double quotes has escapes and one in single quotes has
none; with three quotes at either end it may go over several lines, and then a newline right
after the opening quotes does not belong to it. Control characters other than the tab stand
in no text.
-/

import SourceCapture.Text.Pieces

namespace SourceCapture.Toml

/-- A text and what follows its closing quotes. -/
abbrev Quoted := Option (List Char × List Char)

namespace Quoted

/-- Puts a character in front of a text. -/
def cons (char : Char) (quoted : Quoted) : Quoted :=
  quoted.map fun found => (char :: found.1, found.2)

/-- Whether a character may stand in texts and comments as it is. -/
def isPlain (char : Char) : Bool :=
  char = '\t' || (0x20 ≤ char.toNat && char.toNat ≠ 0x7F)

/-- The character that a backslash and this letter stand for. -/
def escaped? (letter : Char) : Option Char :=
  if letter = 'b' then some '\x08'
  else if letter = 't' then some '\t'
  else if letter = 'n' then some '\n'
  else if letter = 'f' then some '\x0c'
  else if letter = 'r' then some '\r'
  else if letter = '"' then some '"'
  else if letter = '\\' then some '\\'
  else none

/-- The value of a hexadecimal digit. -/
def hexDigit? (char : Char) : Option Nat :=
  let code := char.toNat
  if 48 ≤ code && code ≤ 57 then some (code - 48)
  else if 97 ≤ code && code ≤ 102 then some (code - 87)
  else if 65 ≤ code && code ≤ 70 then some (code - 55)
  else none

/-- The character with a code in hexadecimal digits. -/
def coded? (digits : List Char) : Option Char := do
  let values ← digits.mapM hexDigit?
  let code := values.foldl (fun value digit => 16 * value + digit) 0
  if code.isValidChar then some (Char.ofNat code) else none

/-- Puts a character that may not be there in front of a text. -/
def consIf (char : Option Char) (quoted : Quoted) : Quoted := char.bind (cons · quoted)

/-- Reads a text in double quotes after its opening quote. -/
def readBasic : List Char → Quoted
  | [] => none
  | '"' :: rest => some ([], rest)
  | '\\' :: 'u' :: a :: b :: c :: d :: rest => consIf (coded? [a, b, c, d]) (readBasic rest)
  | '\\' :: 'U' :: a :: b :: c :: d :: e :: f :: g :: h :: rest =>
    consIf (coded? [a, b, c, d, e, f, g, h]) (readBasic rest)
  | '\\' :: letter :: rest => consIf (escaped? letter) (readBasic rest)
  | char :: rest => if isPlain char then cons char (readBasic rest) else none

/-- Reads a text in single quotes after its opening quote. -/
def readLiteral : List Char → Quoted
  | [] => none
  | '\'' :: rest => some ([], rest)
  | char :: rest => if isPlain char then cons char (readLiteral rest) else none

/-- Whether nothing but blanks stands before the end of the line. -/
def isLineEnd : List Char → Bool
  | ' ' :: rest => isLineEnd rest
  | '\t' :: rest => isLineEnd rest
  | '\n' :: _ => true
  | '\r' :: '\n' :: _ => true
  | _ => false

/-- Reads a text in three double quotes after its opening quotes. A backslash at the end of a
line takes all white space after it out of the text; `isSkipping` tells that this goes on.
Up to two quotes may stand before the closing ones. -/
def readLongBasic (isSkipping : Bool) : List Char → Quoted
  | [] => none
  | '"' :: '"' :: '"' :: '"' :: '"' :: rest => some (['"', '"'], rest)
  | '"' :: '"' :: '"' :: '"' :: rest => some (['"'], rest)
  | '"' :: '"' :: '"' :: rest => some ([], rest)
  | '\r' :: '\n' :: rest =>
    if isSkipping then readLongBasic true rest else cons '\n' (readLongBasic false rest)
  | '\\' :: 'u' :: a :: b :: c :: d :: rest =>
    consIf (coded? [a, b, c, d]) (readLongBasic false rest)
  | '\\' :: 'U' :: a :: b :: c :: d :: e :: f :: g :: h :: rest =>
    consIf (coded? [a, b, c, d, e, f, g, h]) (readLongBasic false rest)
  | '\\' :: letter :: rest =>
    if isLineEnd (letter :: rest) then readLongBasic true (letter :: rest)
    else consIf (escaped? letter) (readLongBasic false rest)
  | char :: rest =>
    if isSkipping && (char = ' ' || char = '\t' || char = '\n') then readLongBasic true rest
    else if isPlain char || char = '\n' then cons char (readLongBasic false rest)
    else none

/-- Reads a text in three single quotes after its opening quotes. -/
def readLongLiteral : List Char → Quoted
  | [] => none
  | '\'' :: '\'' :: '\'' :: '\'' :: '\'' :: rest => some (['\'', '\''], rest)
  | '\'' :: '\'' :: '\'' :: '\'' :: rest => some (['\''], rest)
  | '\'' :: '\'' :: '\'' :: rest => some ([], rest)
  | '\r' :: '\n' :: rest => cons '\n' (readLongLiteral rest)
  | char :: rest =>
    if isPlain char || char = '\n' then cons char (readLongLiteral rest) else none

/-- The text without a newline at its start. -/
def skipNewline : List Char → List Char
  | '\n' :: rest => rest
  | '\r' :: '\n' :: rest => rest
  | text => text

/-- Reads a quoted text that stays on its line, if one starts here. -/
def readShort : List Char → Quoted
  | '"' :: rest => readBasic rest
  | '\'' :: rest => readLiteral rest
  | _ => none

/-- Reads a quoted text, if one starts here. -/
def read : List Char → Quoted
  | '"' :: '"' :: '"' :: rest => readLongBasic false (skipNewline rest)
  | '\'' :: '\'' :: '\'' :: rest => readLongLiteral (skipNewline rest)
  | text => readShort text

end Quoted

end SourceCapture.Toml
