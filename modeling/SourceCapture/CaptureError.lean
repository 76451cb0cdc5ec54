/-
What can go wrong while a file's captures are taken. Each of these ends the run.
-/

import SourceCapture.Document
import SourceCapture.FileStore

namespace SourceCapture

/-- Why a capture cannot be taken. -/
inductive CaptureError where
  /-- An argument of a marker annotation has no value at compile time. The place is that of
  the argument, in the file of the given relative path. -/
  | nonConstantArgument (name written file : String) (place : Span)
  /-- A span of a node does not fit its file. -/
  | span (path : Path) (cause : SpanError)
  /-- The location of the captured text breaks a rule of locations. -/
  | location (path : Path) (cause : LocationError)
  /-- A generated file or its folder cannot be written. -/
  | write (path : Path) (cause : FileError)
  deriving Repr, DecidableEq

namespace CaptureError

/-- The wording of the error. -/
def message : CaptureError → String
  | .nonConstantArgument name written _ _ =>
    "only compile-time constants are supported here: \x60" ++ written ++ "\x60 in @" ++ name
  | .span path _ => s!"invalid span in {path.text}"
  | .location path _ => s!"cannot build a location in {path.text}"
  | .write path _ => s!"failed to write fragment {path.text}"

/-- The wordings of the errors behind this one, nearest first. -/
def causes : CaptureError → List String
  | .nonConstantArgument _ _ _ _ => []
  | .span _ cause => [cause.message]
  | .location _ cause => cause.message :: cause.causes
  | .write _ cause => [cause.message]

end CaptureError

namespace Document

/-- The excerpt of a span of the file. -/
def excerpt (document : Document) (span : Span) : Except CaptureError Excerpt :=
  (Excerpt.ofSpan document.content span).mapError (.span document.path)

/-- The span between the braces of a span of the file. -/
def body (document : Document) (span : Span) : Except CaptureError Span :=
  (bodySpan document.content span).mapError (.span document.path)

/-- The location of a span of the file. -/
def location (document : Document) (span : Span) : Except CaptureError Location := do
  let start ← (document.position span.start).mapError (.span document.path)
  let stop ← (document.position span.stop).mapError (.span document.path)
  (Location.ofParts document.relativePath start stop).mapError (.location document.path)

end Document

end SourceCapture
