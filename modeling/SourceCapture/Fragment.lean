/-
Fragments are captured blocks as compilation units of their own. A unit holds the imports
of the block, a function that calls the block with the same argument types, and an exported
entry point that applies the converters around that call.
-/

import SourceCapture.Converters
import SourceCapture.Digest
import SourceCapture.Text.Pieces

namespace SourceCapture

/-- What a unit is made of. -/
structure FragmentRequest where
  /-- The text of the block. -/
  text : String
  imports : List String
  converters : Converters
  /-- The types of the arguments, and the type of the result after them. -/
  parameterTypes : List String
  /-- The file and the line of the block. -/
  location : String
  deriving Repr, DecidableEq

namespace FragmentRequest

/-- The type of the result where no types are known. -/
def unitType : String := "Unit"

/-- A location that cannot end the comment it is written in. -/
def sanitizeLocation (location : String) : String :=
  String.ofList (Text.replaceWhere (fun char => char = '*' || char = '/' || char = '\\') '_'
    location.toList)

/-- The type of the result. -/
def returnType (request : FragmentRequest) : String :=
  request.parameterTypes.getLast?.getD unitType

/-- The types of the arguments. -/
def argumentTypes (request : FragmentRequest) : List String := request.parameterTypes.dropLast

/-- The names of the arguments, numbered from one. -/
def argumentNames (request : FragmentRequest) : List String :=
  (List.range request.argumentTypes.length).map fun index => s!"__arg{index + 1}"

/-- The parameters of the entry point, each a name and a type. -/
def signature (request : FragmentRequest) : List String :=
  request.argumentNames.zipWith (fun name type => name ++ ": " ++ type) request.argumentTypes

/-- The import lines, without a line end after the last. -/
def importLines (request : FragmentRequest) : String :=
  "\n".intercalate (request.imports.map ("import " ++ ·))

/-- The function that calls the block. -/
def caller (request : FragmentRequest) : String :=
  let block := "block: (" ++ ", ".intercalate request.argumentTypes ++ ")->" ++ request.returnType
  "inline fun __caller(" ++ ", ".intercalate (request.signature ++ [block]) ++ "): " ++
    request.returnType ++ " = block(" ++ ", ".intercalate request.argumentNames ++ ")"

/-- The exported entry point up to the block. -/
def entryPoint (request : FragmentRequest) : String :=
  let converted := request.argumentNames.map fun name =>
    request.converters.argument ++ "(" ++ name ++ ")"
  "/* " ++ sanitizeLocation request.location ++ " */ @JsExport fun entrypoint(" ++
    ", ".intercalate request.signature ++ ") = " ++ request.converters.result ++ "(__caller(" ++
    ", ".intercalate converted ++ ") \x7b"

/-- The whole unit. -/
def render (request : FragmentRequest) : String :=
  request.importLines ++ "\n" ++ request.caller ++ "\n" ++ request.entryPoint ++ "\n" ++
    request.text ++ "\n\x7d)"

end FragmentRequest

/-- A fragment as the rest of the build knows it. -/
structure Fragment where
  /-- The name made from the text of the block. -/
  hash : String
  /-- The generated file. -/
  path : Path
  /-- The name under which the compiled fragment is found. -/
  artifact : String
  /-- Whether the file had to be written. -/
  written : Bool
  deriving Repr, DecidableEq, Inhabited

end SourceCapture
