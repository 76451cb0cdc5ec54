/-
A source is what a program carries of a captured text: its location, the text, and the name
of the fragment compiled from it, which is empty where there is none.
-/

import SourceCapture.Location

namespace SourceCapture

/-- A captured text with where it came from. -/
structure Source where
  location : Location
  text : String
  artifact : String
  deriving Repr, DecidableEq, Inhabited

namespace Source

/-- Whether a fragment was emitted for the text. -/
def isEmitted (source : Source) : Bool := !source.artifact.isEmpty

end Source

end SourceCapture
