/-
Markers are the types and annotations that ask for a capture. Their names can be chosen
per project, so that a copy of the annotation library under other names works as well.
-/

namespace SourceCapture

/-- A request that a declaration makes of the capture pass. -/
inductive Marker where
  /-- Literals of an interface that extends this one are captured. -/
  | capturable
  /-- The annotated declaration is captured. -/
  | captureSource
  /-- The annotation names the converters of arguments and results. -/
  | converters
  /-- The annotated extension function is not imported into fragments. -/
  | noImport
  deriving Repr, DecidableEq, Inhabited

namespace Marker

/-- Every marker, in the order in which they are registered. -/
def all : List Marker := [.capturable, .captureSource, .converters, .noImport]

/-- The marker's name for a reader. -/
def label : Marker → String
  | .capturable => "capturable"
  | .captureSource => "capture-source"
  | .converters => "converters"
  | .noImport => "no-import"

theorem mem_all (marker : Marker) : marker ∈ all := by
  cases marker <;> simp [all]

end Marker

/-- The names under which a project knows the markers. -/
structure MarkerNames where
  capturable : String := "com.github.tarcv.kotbridge.Capturable"
  captureSource : String := "com.github.tarcv.kotbridge.CaptureSource"
  converters : String := "com.github.tarcv.kotbridge.Converters"
  noImport : String := "com.github.tarcv.kotbridge.KtJsNoImport"
  deriving Repr, DecidableEq, Inhabited

namespace MarkerNames

/-- The name of one marker. -/
def name (names : MarkerNames) : Marker → String
  | .capturable => names.capturable
  | .captureSource => names.captureSource
  | .converters => names.converters
  | .noImport => names.noImport

/-- The marker of a name. Where two markers share a name, the later one has it. -/
def resolve? (names : MarkerNames) (fqn : String) : Option Marker :=
  Marker.all.reverse.find? fun marker => names.name marker = fqn

/-- Whether a name is that of a marker. -/
def isMarker (names : MarkerNames) (fqn : String) : Bool := (names.resolve? fqn).isSome

end MarkerNames

end SourceCapture
