/-
Texts in quotes for a message. Quotes and backslashes are escaped, and so is every character
that would not show as itself, so that a reader sees exactly what the text holds.
-/

import SourceCapture.Text.Printable

namespace SourceCapture.Text

/-- The code point of a character in radix 16, between braces. -/
def codeEscape (char : Char) : List Char :=
  '\\' :: 'u' :: '\x7b' :: Nat.toDigits 16 char.toNat ++ ['\x7d']

/-- A character as it stands between quotes. -/
def escape (char : Char) : List Char :=
  if char = '\x00' then ['\\', '0']
  else if char = '\t' then ['\\', 't']
  else if char = '\r' then ['\\', 'r']
  else if char = '\n' then ['\\', 'n']
  else if char = '"' then ['\\', '"']
  else if char = '\\' then ['\\', '\\']
  else if isPrintable char then [char]
  else codeEscape char

/-- A text in quotes. -/
def quote (text : List Char) : String := String.ofList ('"' :: text.flatMap escape ++ ['"'])

end SourceCapture.Text
