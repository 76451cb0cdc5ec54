/-
What is known of all files of a run: classes by name, functions with all their overloads,
and constants. A class or a constant registered again replaces the earlier one; functions
of one name stay beside each other in the order in which they were registered.
-/

import SourceCapture.Declaration
import SourceCapture.Table

namespace SourceCapture

/-- A function with what is needed to match calls to it. -/
structure FunctionSymbol where
  callee : Callee
  parameters : List TypeRef
  parameterNames : List String
  typeParameters : List String
  deriving Repr

/-- The declarations that every file of a run can see. -/
structure SymbolTable where
  classes : Table String ClassHeader := .empty
  functions : List FunctionSymbol := []
  constants : Table String Const := .empty

namespace SymbolTable

/-- Registers a class under its name. -/
def insertClass (symbols : SymbolTable) (header : ClassHeader) : SymbolTable :=
  { symbols with classes := symbols.classes.insert header.fqn header }

/-- Registers one more overload of a function. -/
def insertFunction (symbols : SymbolTable) (function : FunctionSymbol) : SymbolTable :=
  { symbols with functions := symbols.functions ++ [function] }

/-- Registers the value of a constant. -/
def insertConstant (symbols : SymbolTable) (fqn : String) (value : Const) : SymbolTable :=
  { symbols with constants := symbols.constants.insert fqn value }

/-- The class of a name as it was registered. -/
def class? (symbols : SymbolTable) (fqn : String) : Option ClassHeader :=
  symbols.classes.get? fqn

/-- Whether a class has that name. -/
def hasClass (symbols : SymbolTable) (fqn : String) : Bool := symbols.classes.contains fqn

/-- The number of classes. -/
def classCount (symbols : SymbolTable) : Nat := symbols.classes.size

/-- The supertype with the annotations of its own declaration, where that is known and the
supertype has none yet. -/
def annotateSupertype (symbols : SymbolTable) (supertype : Supertype) : Supertype :=
  if supertype.annotations.isEmpty then
    match symbols.class? supertype.type.fqn with
    | some declared => { supertype with annotations := declared.annotations }
    | none => supertype
  else supertype

/-- The class of a name, its supertypes with the annotations of their declarations. -/
def resolvedClass? (symbols : SymbolTable) (fqn : String) : Option ClassHeader :=
  (symbols.class? fqn).map fun header =>
    { header with supertypes := header.supertypes.map symbols.annotateSupertype }

/-- The overloads of a function in the order of their registration. -/
def overloads (symbols : SymbolTable) (fqn : String) : List FunctionSymbol :=
  symbols.functions.filter (·.callee.fqn = fqn)

/-- The value of a constant. -/
def constant? (symbols : SymbolTable) (fqn : String) : Option Const :=
  symbols.constants.get? fqn

end SymbolTable

end SourceCapture
