/-
Taking the common indentation off a text. Every white-space character counts as one
column, so a tab is as wide as a space.
-/

import SourceCapture.Text.Blank

namespace SourceCapture.Text

/-- The number of white-space characters at the start of a line. -/
def indentOf (line : List Char) : Nat := (line.takeWhile isBlank).length

/-- The least indentation of the lines that hold more than white space, zero if there is
no such line. -/
def commonIndent (lines : List (List Char)) : Nat :=
  ((lines.filter (!allBlank ·)).map indentOf).min?.getD 0

/-- The lines without a first line of white space. -/
def dropBlankFirst : List (List Char) → List (List Char)
  | [] => []
  | line :: rest => if allBlank line then rest else line :: rest

/-- The lines without a last line of white space. -/
def dropBlankLast (lines : List (List Char)) : List (List Char) :=
  (dropBlankFirst lines.reverse).reverse

/-- Takes the common indentation off every line. A first or last line of white space is
left out; the others of that kind lose as much of the indentation as they have. -/
def trimIndent (text : List Char) : List Char :=
  let lines := text.splitOn '\n'
  let indent := commonIndent lines
  ['\n'].intercalate ((dropBlankLast (dropBlankFirst lines)).map (·.drop indent))

end SourceCapture.Text
