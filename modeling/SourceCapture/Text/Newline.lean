/-
Line ends. A file may end its lines with a carriage return and a newline; every offset
that this library reports refers to the text in which each such pair is one newline.
-/

namespace SourceCapture.Text

/-- The text with one newline in place of every carriage return and newline. A carriage
return that stands alone stays. -/
def normalizeNewlines : List Char → List Char
  | [] => []
  | '\r' :: '\n' :: rest => '\n' :: normalizeNewlines rest
  | char :: rest => char :: normalizeNewlines rest

/-- The lines of a text for display: a newline ends a line, together with a carriage
return before it, and what follows the last newline is a line unless it is empty. -/
def displayLines (text : List Char) : List (List Char) :=
  let lines := text.splitOn '\n'
  let ended := lines.dropLast.map fun line =>
    if line.getLast? = some '\r' then line.dropLast else line
  match lines.getLast? with
  | some (char :: rest) => ended ++ [char :: rest]
  | _ => ended

end SourceCapture.Text
