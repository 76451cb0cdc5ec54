/-
What a command line asks for. Three commands extract captures, decode a location and write a
first settings file. The settings file may be named before the command, after it, or in the
environment; what stands nearest to the end of the command line counts.
-/

import SourceCapture.CommandLine.Options
import SourceCapture.Path
import SourceCapture.Table

namespace SourceCapture.CommandLine

/-- The variables around a command. -/
abbrev Environment := Table String String

/-- How a report is shown. -/
inductive ReportFormat where
  | text
  | json
  | compact
  deriving Repr, DecidableEq, Inhabited

/-- The format of a name. -/
def ReportFormat.ofName? : String → Option ReportFormat
  | "text" => some .text
  | "json" => some .json
  | "compact" => some .compact
  | _ => none

/-- The options of an extraction. They come before the settings. -/
structure ExtractOptions where
  projectDir : Option Path := none
  extractedDir : Option Path := none
  format : ReportFormat := .text
  exclude : List String := []
  deriving Repr, DecidableEq, Inhabited

/-- What to do. -/
inductive Command where
  | extract (options : ExtractOptions)
  | decode (encoded : String)
  | init (force : Bool)
  deriving Repr, DecidableEq, Inhabited

/-- A command, and the settings file that was named for it. -/
structure Invocation where
  command : Command
  settingsPath : Option Path := none
  deriving Repr, DecidableEq, Inhabited

namespace Invocation

/-! ### What may be given -/

/-- The options that may stand before and after the command. -/
def sharedOptions : List CommandOption := [
  { name := "verbose", letter := some 'v', use := .flag },
  { name := "config", letter := some 'c', use := .value (!·.isEmpty) },
  { name := "help", letter := some 'h', use := .stop .help }]

/-- What may stand before the command. -/
def outerLevel : Level where
  options := { name := "version", letter := some 'V', use := .stop .version } :: sharedOptions
  commands := ["extract", "decode", "init", "help"]

/-- What may follow the command that extracts. -/
def extractLevel : Level where
  options := sharedOptions ++ [
    { name := "project-dir", letter := some 'p', use := .value (!·.isEmpty) },
    { name := "extracted-dir", letter := some 'o', use := .value (!·.isEmpty) },
    { name := "format", letter := some 'f', use := .value fun name => (ReportFormat.ofName? name).isSome },
    { name := "exclude", letter := some 'e', use := .list }]

/-- What may follow the command that decodes. -/
def decodeLevel : Level where
  options := sharedOptions
  wordLimit := 1

/-- What may follow the command that writes a settings file. -/
def initLevel : Level where
  options := sharedOptions ++ [{ name := "force", use := .flag }]

/-! ### Reading -/

/-- Why reading ends after the word for help: the words after it name one command at
most. -/
def stopForHelp : List String → Stop
  | [] => .help
  | [command] => if outerLevel.commands.contains command then .help else .misuse
  | _ => .misuse

/-- The command with what was given after it. -/
def commandOf (name : String) (rest : List String) : Except Stop (Command × Given) :=
  match name with
  | "extract" => do
    let reading ← extractLevel.read rest none {}
    let given := reading.given
    return (.extract {
      projectDir := (given.value? "project-dir").map Path.mk
      extractedDir := (given.value? "extracted-dir").map Path.mk
      format := ((given.value? "format").bind ReportFormat.ofName?).getD .text
      exclude := given.values "exclude" }, given)
  | "decode" => do
    let reading ← decodeLevel.read rest none {}
    match reading.given.words with
    | [encoded] => return (.decode encoded, reading.given)
    | _ => .error .misuse
  | "init" => do
    let reading ← initLevel.read rest none {}
    return (.init (reading.given.has "force"), reading.given)
  | _ => .error (stopForHelp rest)

/-- The variable that names the settings file. -/
def settingsVariable : String := "KOTBRIDGE_CONFIG"

/-- The settings file that is named. The variable is read wherever the option is missing,
and then it must not be empty. -/
def settingsPath? (environment : Environment) (outer inner : Given) :
    Except Stop (Option Path) :=
  let around := environment.get? settingsVariable
  if around = some "" && !(outer.has "config" && inner.has "config") then .error .misuse
  else .ok (((inner.value? "config").or ((outer.value? "config").or around)).map Path.mk)

/-- Reads the words of a command line. -/
def ofWords (environment : Environment) (words : List String) : Except Stop Invocation := do
  let outer ← outerLevel.read words none {}
  match outer.command? with
  | none => .error .misuse
  | some (name, rest) =>
    let (command, given) ← commandOf name rest
    return ⟨command, ← settingsPath? environment outer.given given⟩

end Invocation

end SourceCapture.CommandLine
