/-
JSON values and their indented text. The fields of a record keep the order in which they
are given. In texts only the quote, the backslash and the control characters below the
space are escaped.
-/

namespace SourceCapture

/-- A JSON value. -/
inductive Json where
  | null
  | bool (value : Bool)
  | number (value : Int)
  | text (value : String)
  | list (items : List Json)
  | record (fields : List (String × Json))
  deriving Inhabited

namespace Json

/-- A digit of a number in radix 16. -/
def hexDigit (value : Nat) : Char :=
  if value < 10 then Char.ofNat (48 + value) else Char.ofNat (87 + value)

/-- A character as it stands between quotes. -/
def escape (char : Char) : List Char :=
  if char = '"' then ['\\', '"']
  else if char = '\\' then ['\\', '\\']
  else if char = '\n' then ['\\', 'n']
  else if char = '\r' then ['\\', 'r']
  else if char = '\t' then ['\\', 't']
  else if char = '\x08' then ['\\', 'b']
  else if char = '\x0c' then ['\\', 'f']
  else if char.toNat < 32 then
    ['\\', 'u', '0', '0', hexDigit (char.toNat / 16), hexDigit (char.toNat % 16)]
  else [char]

/-- A text between quotes. -/
def quote (text : String) : String := String.ofList ('"' :: text.toList.flatMap escape ++ ['"'])

/-- A line end and the indentation of a depth. -/
def lineAt (depth : Nat) : String := "\n" ++ String.ofList (List.replicate (2 * depth) ' ')

mutual

/-- The indented text of a value that stands at a depth. -/
def prettyAt (depth : Nat) : Json → String
  | .null => "null"
  | .bool value => if value then "true" else "false"
  | .number value => toString value
  | .text value => quote value
  | .list [] => "[]"
  | .list (first :: rest) =>
    "[" ++ lineAt (depth + 1) ++ prettyAt (depth + 1) first ++ prettyItems (depth + 1) rest ++
      lineAt depth ++ "]"
  | .record [] => "\x7b\x7d"
  | .record ((name, first) :: rest) =>
    "\x7b" ++ lineAt (depth + 1) ++ quote name ++ ": " ++ prettyAt (depth + 1) first ++
      prettyFields (depth + 1) rest ++ lineAt depth ++ "\x7d"

/-- The items after the first of a list. -/
def prettyItems (depth : Nat) : List Json → String
  | [] => ""
  | item :: rest => "," ++ lineAt depth ++ prettyAt depth item ++ prettyItems depth rest

/-- The fields after the first of a record. -/
def prettyFields (depth : Nat) : List (String × Json) → String
  | [] => ""
  | (name, value) :: rest =>
    "," ++ lineAt depth ++ quote name ++ ": " ++ prettyAt depth value ++ prettyFields depth rest

end

/-- The indented text of a value. -/
def pretty (value : Json) : String := prettyAt 0 value

end Json

end SourceCapture
