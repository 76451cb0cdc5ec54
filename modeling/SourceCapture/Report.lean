/-
The outcome of a run: the files with captures in the order in which they were processed,
and how many files there were and how many fragments were written or found unchanged. A
report can be shown as a summary, as coloured text with the captured sources, as one line
for each capture, and as JSON.
-/

import SourceCapture.Capture
import SourceCapture.Json
import SourceCapture.Text.Newline

namespace SourceCapture

/-- The captures of one file. -/
structure FileCaptures where
  path : Path
  relativePath : String
  captures : List Capture
  deriving Repr

/-- The captures of a run. -/
structure Report where
  /-- The files with at least one capture. -/
  files : List FileCaptures := []
  filesProcessed : Nat := 0
  fragmentsWritten : Nat := 0
  fragmentsUnchanged : Nat := 0
  deriving Repr, Inhabited

namespace Report

/-- Adds a processed file. -/
def addFile (report : Report) (file : FileCaptures) : Report :=
  let fragments := file.captures.filterMap (·.fragment)
  { files := if file.captures.isEmpty then report.files else report.files ++ [file]
    filesProcessed := report.filesProcessed + 1
    fragmentsWritten := report.fragmentsWritten + fragments.countP (·.written)
    fragmentsUnchanged := report.fragmentsUnchanged + fragments.countP (!·.written) }

/-- Every capture in the order of the files. -/
def captures (report : Report) : List Capture := report.files.flatMap (·.captures)

/-- The number of captures. -/
def captureCount (report : Report) : Nat := report.captures.length

/-! ### The summary -/

/-- What was captured and where. -/
def heading (capture : Capture) (kind : String) : String :=
  kind ++ " " ++ capture.subject ++ " at " ++ capture.source.location.display ++ "\n"

/-- The lines of the summary for one capture. -/
def summaryOf (capture : Capture) : String :=
  let fragment := match capture.fragment with
    | some fragment =>
      "  = fragment: " ++ fragment.path.text ++
        (if fragment.written then " (written)\n" else " (unchanged)\n")
    | none => ""
  heading capture capture.kind.label ++ fragment ++
    String.join (capture.imports.map fun name => "  = import: " ++ name ++ "\n")

/-- The captures with their fragments and imports, and the totals. -/
def summary (report : Report) : String :=
  String.join (report.captures.map summaryOf) ++
    s!"Captured {report.captureCount} block(s)/declaration(s) in {report.filesProcessed} file(s); " ++
    s!"{report.fragmentsWritten} fragment(s) written, {report.fragmentsUnchanged} unchanged\n"

/-! ### Coloured text -/

/-- A text in a colour of the terminal. -/
def coloured (colour : Nat) (text : String) : String :=
  s!"\x1b[{colour}m" ++ text ++ "\x1b[0m"

/-- The kind of a capture in its colour. -/
def colouredKind : CaptureKind → String
  | .block => coloured 36 CaptureKind.block.label
  | .declaration => coloured 35 CaptureKind.declaration.label

/-- One capture with its source, line by line. -/
def colouredCapture (capture : Capture) : String :=
  let lines := (Text.displayLines capture.source.text.toList).map fun line =>
    "  | " ++ String.ofList line ++ "\n"
  heading capture (colouredKind capture.kind) ++ String.join lines ++
    (if capture.source.isEmitted then "  = artifact: " ++ capture.source.artifact ++ "\n" else "") ++
    "\n"

/-- The captures with their sources, and the totals. -/
def colouredText (report : Report) : String :=
  let totals :=
    s!"Found {report.captureCount} capture(s) in {report.filesProcessed} file(s); " ++
      s!"{report.fragmentsWritten} fragment(s) written, {report.fragmentsUnchanged} unchanged"
  String.join (report.captures.map colouredCapture) ++ coloured 32 totals ++ "\n"

/-! ### One line for each capture -/

/-- The line of a capture. -/
def compactLine (capture : Capture) : String :=
  let location := capture.source.location
  let artifact := if capture.source.isEmitted then capture.source.artifact else "-"
  s!"{location.path}:{location.start.line}:{location.start.column}: " ++
    capture.kind.label ++ " " ++ capture.subject ++ " " ++ artifact ++ "\n"

/-- One line for each capture. -/
def compactText (report : Report) : String := String.join (report.captures.map compactLine)

end Report

/-! ### JSON -/

/-- The three numbers of a position. -/
def Position.toJson (position : Position) : Json :=
  .record [("char", .number position.char), ("line", .number position.line),
    ("column", .number position.column)]

/-- The path and both ends of a location. -/
def Location.toJson (location : Location) : Json :=
  .record [("path", .text location.path), ("from", location.start.toJson),
    ("to", location.stop.toJson)]

/-- A source with its location. -/
def Source.toJson (source : Source) : Json :=
  .record [("location", source.location.toJson), ("text", .text source.text),
    ("artifact_ref", .text source.artifact)]

/-- The names of both converters. -/
def Converters.toJson (converters : Converters) : Json :=
  .record [("argument", .text converters.argument), ("result", .text converters.result)]

/-- A fragment with its file. -/
def Fragment.toJson (fragment : Fragment) : Json :=
  .record [("hash", .text fragment.hash), ("path", .text fragment.path.text),
    ("artifact_ref", .text fragment.artifact), ("written", .bool fragment.written)]

/-- A field of texts, left out where there are none. -/
def Json.textsField (name : String) (texts : List String) : List (String × Json) :=
  if texts.isEmpty then [] else [(name, .list (texts.map .text))]

/-- A field that is left out where there is no value. -/
def Json.optionalField (name : String) (value : Option Json) : List (String × Json) :=
  (value.map (name, ·)).toList

/-- A capture, without the fields that hold nothing. -/
def Capture.toJson (capture : Capture) : Json :=
  .record ([("kind", .text capture.kind.label), ("subject", .text capture.subject),
      ("source", capture.source.toJson)] ++
    Json.textsField "imports" capture.imports ++
    Json.optionalField "converters" (capture.converters.map (·.toJson)) ++
    Json.textsField "parameter_types" capture.parameterTypes ++
    Json.optionalField "fragment" (capture.fragment.map (·.toJson)))

/-- A file with its captures. -/
def FileCaptures.toJson (file : FileCaptures) : Json :=
  .record [("path", .text file.path.text), ("relative_path", .text file.relativePath),
    ("captures", .list (file.captures.map (·.toJson)))]

/-- The whole report. -/
def Report.toJson (report : Report) : Json :=
  .record [("files", .list (report.files.map (·.toJson))),
    ("files_processed", .number report.filesProcessed),
    ("fragments_written", .number report.fragmentsWritten),
    ("fragments_unchanged", .number report.fragmentsUnchanged)]

end SourceCapture
