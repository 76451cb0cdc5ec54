/-
Values of compile-time constants, as annotation arguments and constant properties have
them. An expression that is no constant keeps its text and its place, so that an error can
show it.
-/

import SourceCapture.Span

namespace SourceCapture

/-- The value of an expression at compile time. -/
inductive Const where
  | text (value : String)
  | int (value : Int)
  | bool (value : Bool)
  | null
  | nonConstant (written : String) (span : Option Span)
  deriving Repr, DecidableEq, Inhabited

namespace Const

/-- The text of a constant. Null has none, and neither has what is no constant. -/
def asText? : Const → Option String
  | .text value => some value
  | .int value => some (toString value)
  | .bool value => some (if value then "true" else "false")
  | .null => none
  | .nonConstant _ _ => none

/-- Whether the expression had a value. -/
def isConstant : Const → Bool
  | .nonConstant _ _ => false
  | _ => true

/-- The text of a constant inside a longer text, where null has a text too. -/
def display? : Const → Option String
  | .null => some "null"
  | value => value.asText?

end Const

end SourceCapture
