/-
A site is a place in a file with everything that names there can mean: the text and the
scope of the file, what is known of all files, the constants of the file folded so far, and
the classes and type parameters around the place.
-/

import SourceCapture.Folding
import SourceCapture.ParameterList
import SourceCapture.Scope
import SourceCapture.Symbols

namespace SourceCapture

/-- A place in a file. -/
structure Site where
  content : List Char
  scope : FileScope
  symbols : SymbolTable
  markers : MarkerNames
  /-- The constants of this file that are folded but not among the symbols yet. -/
  constants : Table String Const := .empty
  /-- The classes around the place, innermost first. -/
  enclosing : List String := []
  /-- The type parameters that can be used at the place. -/
  typeParameters : List String := []

namespace Site

/-- The outermost place of a file. -/
def ofFile (content : List Char) (root : Tree) (symbols : SymbolTable) (markers : MarkerNames) :
    Site where
  content := content
  scope := FileScope.ofTree content root
  symbols := symbols
  markers := markers

/-- The place inside a class. -/
def inside (site : Site) (fqn : String) : Site :=
  { site with enclosing := fqn :: site.enclosing }

/-- The same place with more type parameters. -/
def withTypeParameters (site : Site) (names : List String) : Site :=
  { site with typeParameters := site.typeParameters ++ names }

/-- The full name of what is declared here under a simple name. -/
def qualify (site : Site) (name : String) : String :=
  match site.enclosing with
  | around :: _ => Name.member around name
  | [] => Name.qualify site.scope.package name

/-! ### Types -/

/-- The full name of the class that a written name means. Type parameters stand for
themselves. -/
def resolveClass (site : Site) (name : String) : String :=
  if site.typeParameters.contains name then name
  else
    let isElsewhere := fun fqn => site.markers.isMarker fqn || site.symbols.hasClass fqn
    site.scope.resolve site.enclosing isElsewhere name

/-- The type that a text writes. -/
def parseType (site : Site) (written : List Char) : TypeRef :=
  (WrittenType.parse written).resolve site.resolveClass

/-- The functional interface of a name, if it is one. -/
def functionalInterface? (site : Site) (fqn : String) : Option ClassHeader :=
  (site.symbols.resolvedClass? fqn).filter (·.kind = .functionalInterface)

/-! ### Constants -/

/-- The value of a constant by its full name. -/
def constant? (site : Site) (fqn : String) : Option Const :=
  (site.constants.get? fqn).or (site.symbols.constant? fqn)

/-- The value of a constant by the name under which it is seen here. -/
def lookUp (site : Site) (name : String) : Id (Option Const) :=
  firstValue? (fun fqn => pure (site.constant? fqn))
    (site.scope.constantNames site.enclosing site.symbols.hasClass name)

/-- The value of an expression. -/
def evaluate (site : Site) (tree : Tree) : Const :=
  (tree.evaluate site.content site.lookUp).run

/-! ### Functions -/

/-- The overloads of the first name that has any. -/
def firstOverloads (symbols : SymbolTable) : List String → List FunctionSymbol
  | [] => []
  | fqn :: rest =>
    match symbols.overloads fqn with
    | [] => firstOverloads symbols rest
    | found => found

/-- The function that a call with that many arguments means: the first overload with as many
parameters, or else the first one. -/
def function? (site : Site) (name : String) (argumentCount : Nat) : Option FunctionSymbol :=
  let found := firstOverloads site.symbols (site.scope.candidates site.enclosing name)
  (found.find? fun function => function.parameters.length = argumentCount).or found.head?

end Site

end SourceCapture
