/-
Going through a source file. Declarations and expressions are met in preorder: the top
declarations before the top statements, members before initializers, a receiver before the
arguments, and whatever encloses before what it encloses. There are two forms of it: a walk
that performs an action at every item, and the flat list of the items. The walk is the
action performed along the list.
-/

import SourceCapture.Declaration

namespace SourceCapture

/-- What a traversal stops at. -/
inductive Item where
  | declaration (declaration : Declaration)
  | expression (expr : Expr)

/-! ### The walk -/

section

variable {m : Type → Type} [Monad m] (visit : Item → m Unit)

mutual

/-- Visits a declaration and everything inside it. -/
def walkDeclaration : Declaration → m Unit
  | .classLike header span members initializers => do
    visit (.declaration (.classLike header span members initializers))
    walkDeclarations members
    walkExprs initializers
  | .function name fqn annotations receiver parameters span body => do
    visit (.declaration (.function name fqn annotations receiver parameters span body))
    walkExprs body
  | .property name fqn annotations span body => do
    visit (.declaration (.property name fqn annotations span body))
    walkExprs body

/-- Visits declarations one after the other. -/
def walkDeclarations : List Declaration → m Unit
  | [] => pure ()
  | first :: rest => do
    walkDeclaration first
    walkDeclarations rest

/-- Visits an expression and everything inside it. -/
def walkExpr : Expr → m Unit
  | .call span callee receiver arguments => do
    visit (.expression (.call span callee receiver arguments))
    walkReceiver receiver
    walkExprs arguments
  | .conversion span type owner operand => do
    visit (.expression (.conversion span type owner operand))
    walkExpr operand
  | .lambda span body => do
    visit (.expression (.lambda span body))
    walkExprs body
  | .declaration declaration => do
    visit (.expression (.declaration declaration))
    walkDeclaration declaration
  | .group span children => do
    visit (.expression (.group span children))
    walkExprs children

/-- Visits a receiver, if there is one. -/
def walkReceiver : Option Expr → m Unit
  | none => pure ()
  | some receiver => walkExpr receiver

/-- Visits expressions one after the other. -/
def walkExprs : List Expr → m Unit
  | [] => pure ()
  | first :: rest => do
    walkExpr first
    walkExprs rest

end

/-- Visits everything in a source file. -/
def SourceFile.walk (file : SourceFile) : m Unit := do
  walkDeclarations visit file.declarations
  walkExprs visit file.statements

end

/-! ### The flat list -/

mutual

/-- A declaration and everything inside it. -/
def Declaration.items : Declaration → List Item
  | .classLike header span members initializers =>
    .declaration (.classLike header span members initializers) ::
      (itemsOfDeclarations members ++ itemsOfExprs initializers)
  | .function name fqn annotations receiver parameters span body =>
    .declaration (.function name fqn annotations receiver parameters span body) ::
      itemsOfExprs body
  | .property name fqn annotations span body =>
    .declaration (.property name fqn annotations span body) :: itemsOfExprs body

/-- The items of declarations, one after the other. -/
def itemsOfDeclarations : List Declaration → List Item
  | [] => []
  | first :: rest => first.items ++ itemsOfDeclarations rest

/-- An expression and everything inside it. -/
def Expr.items : Expr → List Item
  | .call span callee receiver arguments =>
    .expression (.call span callee receiver arguments) ::
      (itemsOfReceiver receiver ++ itemsOfExprs arguments)
  | .conversion span type owner operand =>
    .expression (.conversion span type owner operand) :: operand.items
  | .lambda span body => .expression (.lambda span body) :: itemsOfExprs body
  | .declaration declaration => .expression (.declaration declaration) :: declaration.items
  | .group span children => .expression (.group span children) :: itemsOfExprs children

/-- The items of a receiver, if there is one. -/
def itemsOfReceiver : Option Expr → List Item
  | none => []
  | some receiver => receiver.items

/-- The items of expressions, one after the other. -/
def itemsOfExprs : List Expr → List Item
  | [] => []
  | first :: rest => first.items ++ itemsOfExprs rest

end

/-- Everything in a source file. -/
def SourceFile.items (file : SourceFile) : List Item :=
  itemsOfDeclarations file.declarations ++ itemsOfExprs file.statements

end SourceCapture
