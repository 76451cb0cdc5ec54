/-
Converters wrap the entry point of a fragment: one function for every argument, one for the
result. An interface names them in an annotation of its own or inherits them from the
annotations of its direct supertypes, each of the two on its own, the earlier before the
later. An argument without a value at compile time is an error wherever it stands.
-/

import SourceCapture.CaptureError
import SourceCapture.Declaration

namespace SourceCapture

/-- The names of the converter functions. An empty name passes values through. -/
structure Converters where
  argument : String := ""
  result : String := ""
  deriving Repr, DecidableEq, Inhabited

namespace Converters

/-- The parameter that names the converter of arguments. -/
def argumentParameter : String := "toJsConverter"

/-- The parameter that names the converter of results. -/
def resultParameter : String := "fromJsConverter"

/-- The name that an annotation gives for one parameter. An empty name counts as none. -/
def slot (document : Document) (note : Annotation) (parameter : String)
    (position : Nat) : Except CaptureError (Option String) :=
  match note.argument? parameter position with
  | none => .ok none
  | some (.nonConstant written span) =>
    .error (.nonConstantArgument note.name written document.relativePath
      ((span.or note.span).getD ⟨0, 0⟩))
  | some value => .ok (value.asText?.filter (!·.isEmpty))

/-- The converters with those that the annotations of one candidate name in front. -/
def override (document : Document) (annotations : List Annotation) (inherited : Converters) :
    Except CaptureError Converters :=
  match annotations.find? (·.marks .converters) with
  | none => .ok inherited
  | some note => do
    let argument ← slot document note argumentParameter 0
    let result ← slot document note resultParameter 1
    return ⟨argument.getD inherited.argument, result.getD inherited.result⟩

/-- The converters of candidates, the first of which comes before all others. -/
def ofCandidates (document : Document) : List (List Annotation) → Except CaptureError Converters
  | [] => .ok {}
  | annotations :: others => do
    override document annotations (← ofCandidates document others)

/-- The converters of an interface. -/
def ofInterface (document : Document) (owner : ClassHeader) : Except CaptureError Converters :=
  ofCandidates document (owner.annotations :: owner.supertypes.map (·.annotations))

end Converters

end SourceCapture
