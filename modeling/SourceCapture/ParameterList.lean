/-
Parameter lists as a source file writes them: the parameters of a function or a lambda, and
the type parameters of a function or a class. Annotations, modifiers, default values and
bounds are taken off; what stays is names and the texts of types.
-/

import SourceCapture.Name
import SourceCapture.WrittenType

namespace SourceCapture

/-- A declared parameter. One of a lambda may go without a type. -/
structure Parameter where
  name : String
  type? : Option (List Char)
  deriving Repr, DecidableEq

namespace Parameter

/-- A parameter without its default value. -/
def withoutDefault (parameter : List Char) : List Char :=
  (Text.splitTopLevel '=' parameter).headD parameter

/-- Reads one parameter. The name is the last word before the colon. -/
def ofText (parameter : List Char) : Parameter :=
  let parts := Text.splitTopLevel ':' (Text.stripNotes (withoutDefault parameter))
  let words := Text.wordsBy Text.isBlank (parts.headD [])
  ⟨Name.unquote (words.getLastD []), parts[1]?⟩

/-- The text of a list without the brackets around it. -/
def withoutBrackets (opening closing : Char) (text : List Char) : List Char :=
  (Text.stripBoth? [opening] [closing] (Text.trim text)).getD (Text.trim text)

/-- Reads a parameter list. -/
def listOfText (text : List Char) : List Parameter :=
  (Text.splitTopLevel ',' (withoutBrackets '(' ')' text)).map ofText

/-- The words that may stand before the name of a type parameter. -/
def typeParameterModifiers : List String := ["reified", "in", "out"]

/-- The name of a type parameter: the first word that is no modifier. -/
def typeNameOfText? (parameter : List Char) : Option String :=
  let words := Text.wordsBy (fun char => Text.isBlank char || char = ':')
    (Text.stripNotes parameter)
  (words.map String.ofList).find? fun word => !typeParameterModifiers.contains word

/-- The names in a type parameter list. -/
def typeNamesOfText (text : List Char) : List String :=
  (Text.splitTopLevel ',' (withoutBrackets '<' '>' text)).filterMap typeNameOfText?

end Parameter

end SourceCapture
