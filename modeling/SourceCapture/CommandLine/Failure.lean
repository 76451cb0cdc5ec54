/-
Failures of a command, as they are told to a reader: what was being done, and under it the
causes, nearest first.
-/

import SourceCapture.Extraction
import SourceCapture.Text.Quoted

namespace SourceCapture.CommandLine

/-- Why a command fails. -/
inductive Failure where
  /-- The settings file cannot be used. -/
  | settings (path : Path) (cause : SettingsError)
  /-- The run over the project failed. -/
  | extraction (cause : ExtractionError)
  /-- A text is no encoded location. -/
  | location (encoded : String) (cause : LocationError)
  /-- There is a settings file already. -/
  | settingsExist (path : Path)
  /-- The settings file cannot be written. -/
  | unwritable (path : Path) (cause : FileError)
  deriving Repr, DecidableEq

namespace Failure

/-- What was being done. -/
def message : Failure → String
  | .settings path _ => "Failed to load config: " ++ path.text
  | .extraction _ => "Extraction failed"
  | .location encoded _ => "Invalid location: " ++ Text.quote encoded.toList
  | .settingsExist path =>
    "Configuration file already exists at " ++ path.text ++ ". Use --force to overwrite."
  | .unwritable path _ => "Failed to write " ++ path.text

/-- The causes, nearest first. -/
def causes : Failure → List String
  | .settings _ cause => cause.message :: cause.causes
  | .extraction cause => cause.message :: cause.causes
  | .location _ cause => cause.message :: cause.causes
  | .settingsExist _ => []
  | .unwritable _ cause => [cause.message]

/-- The causes on lines of their own. If there are several, each has its number. -/
def causeLines : List String → String
  | [] => ""
  | [cause] => "\nCaused by:\n    " ++ cause ++ "\n"
  | causes =>
    "\nCaused by:\n" ++
      String.join (causes.zipIdx.map fun (cause, index) => s!"    {index}: " ++ cause ++ "\n")

/-- What is told to a reader. -/
def report (failure : Failure) : String :=
  "Error: " ++ failure.message ++ "\n" ++ causeLines failure.causes

end Failure

end SourceCapture.CommandLine
