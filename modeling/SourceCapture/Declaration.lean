/-
What the capture pass sees of a source file: its declarations with their annotations, and
its expressions. Only calls, lambdas and the conversion of a lambda to a functional
interface are told apart; every other expression is a group that is kept for the
expressions inside it.
-/

import SourceCapture.Const
import SourceCapture.Marker
import SourceCapture.TypeRef

namespace SourceCapture

/-! ### Annotations -/

/-- An argument of an annotation, with the name of its parameter if one is written. -/
structure AnnotationArgument where
  name : Option String
  value : Const
  deriving Repr, DecidableEq

/-- The use of an annotation. -/
structure Annotation where
  /-- The resolved name, or the written one where it is not known. -/
  name : String
  marker : Option Marker
  /-- The place of the annotation with its at sign. -/
  span : Option Span
  arguments : List AnnotationArgument
  deriving Repr, DecidableEq

namespace Annotation

/-- Whether the annotation is that marker. -/
def marks (note : Annotation) (marker : Marker) : Bool :=
  note.marker = some marker

/-- The value of the argument with that name; without one, of the argument at that position
among those without a name. -/
def argument? (note : Annotation) (name : String) (position : Nat) : Option Const :=
  let byName := note.arguments.find? fun argument => argument.name = some name
  let unnamed := note.arguments.filter fun argument => argument.name.isNone
  (byName.or unnamed[position]?).map (·.value)

end Annotation

/-! ### Classes and functions -/

/-- The kind of a class-like declaration. -/
inductive ClassKind where
  | plain
  | interface
  | functionalInterface
  | object
  | companionObject
  deriving Repr, DecidableEq, Inhabited

/-- A direct supertype, with the annotations of its own declaration where they are known. -/
structure Supertype where
  type : TypeRef
  marker : Option Marker
  annotations : List Annotation
  deriving Repr

/-- The header of a class-like declaration. -/
structure ClassHeader where
  fqn : String
  name : String
  kind : ClassKind
  typeParameters : List String
  annotations : List Annotation
  supertypes : List Supertype
  deriving Repr

namespace ClassHeader

/-- Whether literals of the class are captured: one of its direct supertypes says so. -/
def isCapturable (header : ClassHeader) : Bool :=
  header.supertypes.any fun supertype => supertype.marker = some .capturable

end ClassHeader

/-- The function that a call resolves to. -/
structure Callee where
  fqn : String
  isExtension : Bool
  annotations : List Annotation
  deriving Repr, DecidableEq

namespace Callee

/-- Whether fragments are not to import the function. -/
def skipsImport (callee : Callee) : Bool := callee.annotations.any (·.marks .noImport)

end Callee

/-! ### Declarations and expressions -/

mutual

/-- A declaration with everything inside it. -/
inductive Declaration where
  | classLike (header : ClassHeader) (span : Option Span) (members : List Declaration)
      (initializers : List Expr)
  | function (name fqn : String) (annotations : List Annotation) (receiver : Option TypeRef)
      (parameters : List TypeRef) (span : Option Span) (body : List Expr)
  | property (name fqn : String) (annotations : List Annotation) (span : Option Span)
      (body : List Expr)

/-- An expression with everything inside it. -/
inductive Expr where
  | call (span : Option Span) (callee : Option Callee) (receiver : Option Expr)
      (arguments : List Expr)
  /-- A lambda that is converted to the functional interface `owner`, at the type `type`. -/
  | conversion (span : Option Span) (type : TypeRef) (owner : ClassHeader) (operand : Expr)
  | lambda (span : Option Span) (body : List Expr)
  | declaration (inner : Declaration)
  | group (span : Option Span) (children : List Expr)

end

instance : Inhabited Expr := ⟨.group none []⟩

instance : Inhabited Declaration := ⟨.property "" "" [] none []⟩

namespace Declaration

/-- The annotations on the declaration. -/
def annotations : Declaration → List Annotation
  | .classLike header _ _ _ => header.annotations
  | .function _ _ annotations _ _ _ _ => annotations
  | .property _ _ annotations _ _ => annotations

/-- The place of the declaration with its annotations. -/
def span : Declaration → Option Span
  | .classLike _ span _ _ => span
  | .function _ _ _ _ _ span _ => span
  | .property _ _ _ span _ => span

/-- The fully-qualified name of the declaration. -/
def fqn : Declaration → String
  | .classLike header _ _ _ => header.fqn
  | .function _ fqn _ _ _ _ _ => fqn
  | .property _ fqn _ _ _ => fqn

end Declaration

namespace Expr

/-- The place of the expression. -/
def span : Expr → Option Span
  | .call span _ _ _ => span
  | .conversion span _ _ _ => span
  | .lambda span _ => span
  | .declaration inner => inner.span
  | .group span _ => span

end Expr

/-- The contents of a source file. -/
structure SourceFile where
  package : Option String := none
  declarations : List Declaration := []
  statements : List Expr := []

end SourceCapture
