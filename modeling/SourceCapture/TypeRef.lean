/-
References to types: a class by its fully-qualified name, type arguments, and whether the
type admits null.
-/

namespace SourceCapture

/-- A type after its names are resolved. -/
inductive TypeRef where
  | of (fqn : String) (arguments : List TypeRef) (nullable : Bool)
  deriving Repr, Inhabited, BEq

namespace TypeRef

/-- The name of the class. -/
def fqn : TypeRef → String
  | .of fqn _ _ => fqn

/-- The type arguments. -/
def arguments : TypeRef → List TypeRef
  | .of _ arguments _ => arguments

/-- Whether the type admits null. -/
def nullable : TypeRef → Bool
  | .of _ _ nullable => nullable

/-- A type without arguments that does not admit null. -/
def named (fqn : String) : TypeRef := .of fqn [] false

/-- The same type with other arguments. -/
def withArguments (type : TypeRef) (arguments : List TypeRef) : TypeRef :=
  .of type.fqn arguments type.nullable

/-- The same type with null admitted or not. -/
def withNullable (type : TypeRef) (nullable : Bool) : TypeRef :=
  .of type.fqn type.arguments nullable

mutual

/-- The type as it is written: name, arguments in angle brackets, question mark. -/
def display : TypeRef → String
  | .of fqn arguments nullable =>
    fqn ++ displayArguments arguments ++ (if nullable then "?" else "")

/-- The arguments in angle brackets, or nothing where there are none. -/
def displayArguments : List TypeRef → String
  | [] => ""
  | first :: rest => "<" ++ display first ++ displayRest rest ++ ">"

/-- The arguments after the first, each after a comma. -/
def displayRest : List TypeRef → String
  | [] => ""
  | next :: rest => ", " ++ display next ++ displayRest rest

end

mutual

/-- The type with every name in it replaced. -/
def rename (change : String → String) : TypeRef → TypeRef
  | .of fqn arguments nullable => .of (change fqn) (renameAll change arguments) nullable

/-- The types with every name in them replaced. -/
def renameAll (change : String → String) : List TypeRef → List TypeRef
  | [] => []
  | first :: rest => rename change first :: renameAll change rest

end

/-- The type of which nothing is known. -/
def unknown : TypeRef := .of "kotlin.Any" [] true

mutual

/-- The type with the unknown type in place of every type parameter that is named. -/
def erase (parameters : List String) : TypeRef → TypeRef
  | .of fqn arguments nullable =>
    if parameters.contains fqn then unknown
    else .of fqn (eraseAll parameters arguments) nullable

/-- Erases the type parameters in every one of the types. -/
def eraseAll (parameters : List String) : List TypeRef → List TypeRef
  | [] => []
  | first :: rest => erase parameters first :: eraseAll parameters rest

end

end TypeRef

end SourceCapture
