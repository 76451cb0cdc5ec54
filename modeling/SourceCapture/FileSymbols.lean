/-
What a file adds to the symbols of a run: the headers of its classes and the signatures of
its functions, in preorder. Names in them are resolved against the symbols of the files
before it.
-/

import SourceCapture.Header

namespace SourceCapture

/-- The classes and the functions of a file. -/
structure FileSymbols where
  classes : List ClassHeader := []
  functions : List FunctionSymbol := []

namespace FileSymbols

/-- Puts the symbols of one part of a file before those of the next. -/
def append (left right : FileSymbols) : FileSymbols :=
  ⟨left.classes ++ right.classes, left.functions ++ right.functions⟩

instance : Append FileSymbols := ⟨append⟩

mutual

/-- The symbols below a node. -/
def below (site : Site) : Tree → FileSymbols
  | .node _ _ _ _ children => among site children

/-- The symbols at or below the named ones of some nodes. Nothing is looked for in classes
and functions without a header. -/
def among (site : Site) : List Tree → FileSymbols
  | [] => {}
  | first :: rest =>
    let here : FileSymbols :=
      if !first.isNamed then {}
      else if first.isClassLike then
        match ClassHeader.ofTree? site first with
        | some header =>
          ⟨[header], []⟩ ++
            below ((site.inside header.fqn).withTypeParameters header.typeParameters) first
        | none => {}
      else if first.kind = "function_declaration" then
        match FunctionHeader.ofTree? site first with
        | some header =>
          ⟨[], [header.toSymbol]⟩ ++ below (site.withTypeParameters header.typeParameters) first
        | none => {}
      else below site first
    here ++ among site rest

end

/-- Registers the symbols of a file. -/
def register (symbols : SymbolTable) (found : FileSymbols) : SymbolTable :=
  let withClasses := found.classes.foldl SymbolTable.insertClass symbols
  found.functions.foldl SymbolTable.insertFunction withClasses

end FileSymbols

end SourceCapture
