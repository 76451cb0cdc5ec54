/-
The passes over parsed files. First the constants of every file are folded, then the
declarations of every file are registered, and then each file is lowered with all of that
known. Every pass takes the files in order.
-/

import SourceCapture.Capture
import SourceCapture.FileConstants
import SourceCapture.FileSymbols
import SourceCapture.Lowering

namespace SourceCapture

/-- A file with its syntax tree. -/
structure ParsedFile where
  document : Document
  root : Tree

namespace ParsedFile

/-- The language of the files. -/
def language : String := "kotlin"

/-- The extensions of the files, in the order in which they are looked for. -/
def extensions : List String := ["kt", "kts"]

/-- Whether files with an extension are of the language. -/
def handles (extension : String) : Bool := extensions.contains extension

/-- The outermost site of the file. -/
def site (file : ParsedFile) (symbols : SymbolTable) (markers : MarkerNames) : Site :=
  Site.ofFile file.document.content file.root symbols markers

/-- The symbols with the constants of the file. -/
def addConstants (markers : MarkerNames) (symbols : SymbolTable) (file : ParsedFile) :
    SymbolTable :=
  (constantsOf (file.site symbols markers) file.root).foldl
    (fun current entry => current.insertConstant entry.1 entry.2) symbols

/-- The symbols with the declarations of the file. -/
def addDeclarations (markers : MarkerNames) (symbols : SymbolTable) (file : ParsedFile) :
    SymbolTable :=
  FileSymbols.register symbols (FileSymbols.below (file.site symbols markers) file.root)

/-- What the capture pass sees of the file. -/
def lower (file : ParsedFile) (symbols : SymbolTable) (markers : MarkerNames) : SourceFile :=
  SourceFile.ofTree (file.site symbols markers) file.root

end ParsedFile

/-- The symbols of all files. -/
def symbolsOf (markers : MarkerNames) (files : List ParsedFile) : SymbolTable :=
  files.foldl (ParsedFile.addDeclarations markers)
    (files.foldl (ParsedFile.addConstants markers) {})

end SourceCapture
