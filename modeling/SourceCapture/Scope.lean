/-
The names that a file can see. A name is looked for in the enclosing classes from the inside
out, among the named imports, in the package of the file, in the packages imported as a
whole, and last among the classes that every file sees. Which classes other files declare is
for the caller to say. Enclosing classes are given innermost first.
-/

import SourceCapture.Const
import SourceCapture.ImportLine
import SourceCapture.Table
import SourceCapture.Text.Letters
import SourceCapture.Tree

namespace SourceCapture

/-- The package, the imports and the classes of one file. -/
structure FileScope where
  package : Option String := none
  /-- The imported names by the names under which they are seen. -/
  named : Table String String := .empty
  /-- The packages imported as a whole, in order. -/
  stars : List String := []
  /-- The classes declared in the file, except those inside functions and properties. -/
  declared : List String := []

namespace FileScope

/-- The classes that every file sees, with their packages. -/
def defaultImports : List (String × String) :=
  (["Any", "Array", "Boolean", "Byte", "Char", "CharSequence", "Comparable", "Double", "Enum",
    "Float", "Int", "Long", "Nothing", "Number", "Pair", "Short", "String", "Throwable", "Triple",
    "Unit"].map (·, "kotlin")) ++
  (["Collection", "Iterable", "List", "Map", "MutableList", "MutableMap", "MutableSet",
    "Set"].map (·, "kotlin.collections")) ++
  [("Sequence", "kotlin.sequences"), ("Regex", "kotlin.text")]

/-! ### Reading the scope of a file -/

/-- Adds what an import line makes visible. -/
def addLine (scope : FileScope) : ImportLine → FileScope
  | .named name path => { scope with named := scope.named.insert name path }
  | .star package => { scope with stars := scope.stars ++ [package] }

/-- Adds the import that a text writes, if it writes one. -/
def addImport (scope : FileScope) (written : List Char) : FileScope :=
  match ImportLine.ofText? written with
  | some line => scope.addLine line
  | none => scope

/-- The package that a package header names. -/
def packageOf? (content : List Char) (header : Tree) : Option String :=
  (header.childOfKind? ["qualified_identifier", "identifier", "simple_identifier"]).map
    fun name => Name.join (name.text content)

/-- Adds what one child of the file or of its import list says. -/
def addHeader (content : List Char) (scope : FileScope) (header : Tree) : FileScope :=
  match header.kind with
  | "package_header" => { scope with package := packageOf? content header }
  | "import" | "import_header" => scope.addImport (header.text content)
  | _ => scope

mutual

/-- The headers of a file in order: its named children, those of import lists in place of
the lists. -/
def headers : Tree → List Tree
  | .node _ _ _ _ children => headersAmong children

/-- The headers among some nodes. -/
def headersAmong : List Tree → List Tree
  | [] => []
  | first :: rest =>
    let here :=
      if !first.isNamed then []
      else if first.kind = "import_list" then headers first
      else [first]
    here ++ headersAmong rest

end

mutual

/-- The classes declared below a node that is inside the class `outer`, if any. -/
def classesBelow (content : List Char) (package : Option String) (outer : Option String) :
    Tree → List String
  | .node _ _ _ _ children => classesAmong content package outer children

/-- The classes declared at or below the named ones of some nodes. -/
def classesAmong (content : List Char) (package : Option String) (outer : Option String) :
    List Tree → List String
  | [] => []
  | first :: rest =>
    let here :=
      if !first.isNamed then []
      else if first.isClassLike then
        match first.declarationName? content with
        | some name =>
          let fqn := match outer with
            | some outer => Name.member outer name
            | none => Name.qualify package name
          classesBelow content package (some fqn) first ++ [fqn]
        | none => []
      else if first.isDeclaration then []
      else classesBelow content package outer first
    here ++ classesAmong content package outer rest

end

/-- The scope of a file. -/
def ofTree (content : List Char) (root : Tree) : FileScope :=
  let scope := (headers root).foldl (addHeader content) {}
  { scope with declared := classesBelow content scope.package none root }

/-! ### Classes -/

/-- The name that a named import gives a name. -/
def imported? (scope : FileScope) (name : String) : Option String := scope.named.get? name

/-- The name of a class that every file sees. -/
def default? (name : String) : Option String :=
  (defaultImports.find? fun entry => entry.1 = name).map fun entry => Name.member entry.2 entry.1

/-- The class that a simple name means, where `isElsewhere` tells the classes of other
files. -/
def resolveSimple? (scope : FileScope) (enclosing : List String) (isElsewhere : String → Bool)
    (name : String) : Option String :=
  let isKnown := fun fqn => scope.declared.contains fqn || isElsewhere fqn
  let inPackage := Name.qualify scope.package name
  ((enclosing.map (Name.member · name)).find? isKnown)
    |>.or (scope.imported? name)
    |>.or (if isKnown inPackage then some inPackage else none)
    |>.or ((scope.stars.map (Name.member · name)).find? isKnown)
    |>.or (default? name)

/-- Whether a name starts with an upper-case letter, as the names of classes do. -/
def looksLikeClass (name : String) : Bool := name.toList.head?.any Text.isUppercase

/-- The class that a name means. Of a dotted name only the first segment is looked for,
and only if it looks like a class. -/
def resolve? (scope : FileScope) (enclosing : List String) (isElsewhere : String → Bool)
    (name : String) : Option String :=
  match Name.splitFirst? name with
  | some (first, rest) =>
    if looksLikeClass first then
      (scope.resolveSimple? enclosing isElsewhere first).map (Name.member · rest)
    else none
  | none => scope.resolveSimple? enclosing isElsewhere name

/-- The class that a name means. One that is not found is taken for a class of the package
of the file, or for what it says if it is dotted. -/
def resolve (scope : FileScope) (enclosing : List String) (isElsewhere : String → Bool)
    (name : String) : String :=
  match scope.resolve? enclosing isElsewhere name with
  | some fqn => fqn
  | none => if name.toList.contains '.' then name else Name.qualify scope.package name

/-! ### Functions and constants -/

/-- The simple name of a companion without a name. -/
def companion : String := "Companion"

/-- The full names that a function or a constant of that name can have, in the order in
which they are tried. -/
def candidates (scope : FileScope) (enclosing : List String) (name : String) : List String :=
  (enclosing.flatMap fun around =>
      [Name.member around name, Name.member (Name.member around companion) name]) ++
    (scope.imported? name).toList ++ [Name.qualify scope.package name] ++
    scope.stars.map (Name.member · name)

/-- The full names that a constant can have, in the order in which they are tried. The owner
of a dotted name is resolved as a class. -/
def constantNames (scope : FileScope) (enclosing : List String) (isElsewhere : String → Bool)
    (name : String) : List String :=
  match Name.splitLast? name with
  | some (written, simple) =>
    let owner := (scope.resolve? enclosing isElsewhere written).getD written
    [Name.member owner simple, Name.member (Name.member owner companion) simple, name]
  | none => scope.candidates enclosing name

end FileScope

/-- The first value that one of the names has. Nothing is asked for after it. -/
def firstValue? {Look : Type → Type} [Monad Look] {Value : Type}
    (lookUp : String → Look (Option Value)) : List String → Look (Option Value)
  | [] => return none
  | name :: rest => do
    match ← lookUp name with
    | some value => return some value
    | none => firstValue? lookUp rest

end SourceCapture
