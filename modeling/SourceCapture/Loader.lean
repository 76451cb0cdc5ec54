/-
Captured values while a program runs. A value that can carry a source starts without one
and gets it from the call that the build puts around it. A loader finds the compiled
fragment of a source: it reads each fragment once and then answers from memory.
-/

import SourceCapture.Resources
import SourceCapture.Source

namespace SourceCapture

/-- Why a captured value cannot be used while the program runs. -/
inductive RuntimeError where
  | noSource
  | malformedLocation (cause : LocationError)
  | notEmitted (location : Location)
  | fragmentNotFound (artifact : String) (cause : ResourceError)
  deriving Repr, DecidableEq

namespace RuntimeError

/-- The wording of the error. -/
def message : RuntimeError → String
  | .noSource => "there is no source code for this block"
  | .malformedLocation cause => "malformed source location: " ++ cause.message
  | .notEmitted location =>
    "block at " ++ location.display ++ " was not extracted to a separate fragment"
  | .fragmentNotFound artifact cause =>
    s!"failed to find or read compiled fragment '{artifact}': {cause.message}"

/-- The wordings of the errors behind this one, nearest first. -/
def causes : RuntimeError → List String
  | .noSource => []
  | .malformedLocation cause => cause.message :: cause.causes
  | .notEmitted _ => []
  | .fragmentNotFound _ cause => [cause.message]

end RuntimeError

/-! ### Values with a source -/

/-- A value that can carry its source. -/
structure Captured (Value : Type) where
  value : Value
  source? : Option Source := none
  deriving Repr, DecidableEq

namespace Captured

variable {Value : Type}

/-- The source of a value, if it was given one. -/
def source (captured : Captured Value) : Except RuntimeError Source :=
  match captured.source? with
  | some source => .ok source
  | none => .error .noSource

/-- The same value with a source. -/
def withSource (captured : Captured Value) (source : Source) : Captured Value :=
  { captured with source? := some source }

/-- Attaches the source whose location is given in its encoded form. -/
def attach (captured : Captured Value) (location text artifact : String) :
    Except RuntimeError (Captured Value) :=
  match Location.decode location with
  | .ok location => .ok (captured.withSource ⟨location, text, artifact⟩)
  | .error cause => .error (.malformedLocation cause)

/-- The same value without its source. -/
def rewrap (captured : Captured Value) : Captured Value := ⟨captured.value, none⟩

theorem source_withSource (captured : Captured Value) (source : Source) :
    (captured.withSource source).source = .ok source := rfl

end Captured

/-! ### Loading -/

/-- The fragments that were read so far, by the name of the compiled fragment. -/
structure FragmentLoader where
  cache : Table String String := .empty

namespace FragmentLoader

/-- The number of fragments read so far. -/
def loaded (loader : FragmentLoader) : Nat := loader.cache.size

/-- The compiled fragment of a source, read with `read` unless it was read before. A read that
fails is not remembered. -/
def loadWith {Read : Type → Type} [Monad Read]
    (read : String → Read (Except ResourceError String)) (source : Source) :
    StateT FragmentLoader Read (Except RuntimeError String) := fun loader =>
  if source.isEmitted then
    match loader.cache.get? source.artifact with
    | some script => return (.ok script, loader)
    | none => do
      match ← read source.artifact with
      | .ok script => return (.ok script, ⟨loader.cache.insert source.artifact script⟩)
      | .error cause => return (.error (.fragmentNotFound source.artifact cause), loader)
  else return (.error (.notEmitted source.location), loader)

/-- The compiled fragment of a source, where a read depends on nothing but the name. -/
def load (loader : FragmentLoader) (read : String → Except ResourceError String)
    (source : Source) : Except RuntimeError String × FragmentLoader :=
  let readNow : String → Id (Except ResourceError String) := fun artifact => pure (read artifact)
  ((loadWith readNow source).run loader).run

end FragmentLoader

end SourceCapture
