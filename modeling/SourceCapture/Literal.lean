/-
The values of literals as they are written: whole numbers with underscores, a radix and
a suffix, and quoted characters and texts with escapes.
-/

import SourceCapture.Number
import SourceCapture.Text.Blank
import SourceCapture.Text.Pieces

namespace SourceCapture.Literal

/-! ### Numbers -/

/-- The letters that may follow the digits of a number. -/
def isSuffix (char : Char) : Bool := char = 'L' || char = 'l' || char = 'u' || char = 'U'

/-- The number of 64 bits that a literal writes. -/
def readInt? (written : List Char) : Option Int :=
  match Text.dropEndWhile isSuffix (written.filter (· ≠ '_')) with
  | '0' :: 'x' :: digits | '0' :: 'X' :: digits => Number.readSigned? 16 digits
  | '0' :: 'b' :: digits | '0' :: 'B' :: digits => Number.readSigned? 2 digits
  | digits => Number.readSigned? 10 digits

/-! ### Escapes -/

/-- The number of digits of a character given by its code. -/
def codeDigits : Nat := 4

/-- The character with a code in hexadecimal digits. Half of a surrogate pair is none. -/
def readCode? (digits : List Char) : Option Char :=
  match Number.readUnsigned 16 (Nat.pow 2 32 - 1) digits with
  | .ok code => if code.isValidChar then some (Char.ofNat code) else none
  | .error _ => none

/-- The character that a backslash and this letter stand for. -/
def escaped (letter : Char) : Char :=
  if letter = 'n' then '\n'
  else if letter = 't' then '\t'
  else if letter = 'r' then '\r'
  else if letter = 'b' then '\x08'
  else letter

/-- A text with its escapes replaced by what they stand for. There is none for a backslash
at the end and for a code of no character. -/
def unescape? : List Char → Option (List Char)
  | [] => some []
  | ['\\'] => none
  | '\\' :: 'u' :: rest =>
    match readCode? (rest.take codeDigits) with
    | some char => (unescape? (rest.drop codeDigits)).map (char :: ·)
    | none => none
  | '\\' :: letter :: rest => (unescape? rest).map (escaped letter :: ·)
  | char :: rest => (unescape? rest).map (char :: ·)
termination_by text => text.length

/-! ### Quoted texts -/

/-- The quotes around a text without escapes. -/
def rawQuote : List Char := ['"', '"', '"']

/-- Whether a text is written without escapes. -/
def isRaw (written : List Char) : Bool := (Text.stripStart? rawQuote written).isSome

/-- The value of a text literal without templates. One that lacks a quote is taken with the
quotes it has. -/
def readText? (written : List Char) : Option (List Char) :=
  if isRaw written then some ((Text.stripBoth? rawQuote rawQuote written).getD written)
  else unescape? ((Text.stripBoth? ['"'] ['"'] written).getD written)

/-- The value of a character literal. -/
def readCharacter? (written : List Char) : Option (List Char) :=
  unescape? (Text.stripWhile (· = '\'') written)

end SourceCapture.Literal
