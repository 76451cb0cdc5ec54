/-
From the syntax tree of a file to what the capture pass sees of it. Declarations keep their
headers; of expressions only calls, lambdas and conversions are told apart, and leaves are
left out. A lambda is converted to a functional interface where it is the only argument of a
call to the interface itself, or where the function that is called takes the interface at
its place.
-/

import SourceCapture.CallParts

namespace SourceCapture

/-! ### The parts of declarations that hold expressions -/

namespace Tree

/-- The kinds of children of a declaration that never hold expressions. -/
def headerKinds : List String := [
  "modifiers", "type_parameters", "type_constraints", "identifier", "simple_identifier",
  "type_identifier", "user_type", "nullable_type", "function_type", "parenthesized_type",
  "receiver_type", "type", "variable_declaration", "multi_variable_declaration",
  "delegation_specifiers", "delegation_specifier", "line_comment", "block_comment",
  "multiline_comment", "comment"]

/-- The children of a declaration that may hold expressions. -/
def bodyTrees (tree : Tree) : List Tree :=
  tree.namedChildren.filter fun child => !headerKinds.contains child.kind

/-- The children of a lambda that are its statements. -/
def statementTrees (tree : Tree) : List Tree :=
  tree.namedChildren.filter (·.kind ≠ "lambda_parameters")

/-- Whether the node is the body of a class. -/
def isClassBody (tree : Tree) : Bool := ["class_body", "enum_class_body"].contains tree.kind

mutual

/-- The nodes of the body of a class, those of member lists in place of the lists. -/
def bodyNodes : Tree → List Tree
  | .node _ _ _ _ children => bodyNodesAmong children

/-- The nodes of a class body among some nodes. -/
def bodyNodesAmong : List Tree → List Tree
  | [] => []
  | first :: rest =>
    let here :=
      if !first.isNamed then []
      else if first.kind = "class_member_declarations" then bodyNodes first
      else [first]
    here ++ bodyNodesAmong rest

end

/-- The declarations in the body of a class. -/
def memberTrees (tree : Tree) : List Tree :=
  (tree.namedChildren.filter isClassBody).flatMap fun body =>
    body.bodyNodes.filter (·.isDeclaration)

/-- The other nodes of a class that may hold expressions, in its body and outside of it. -/
def initializerTrees (tree : Tree) : List Tree :=
  tree.namedChildren.flatMap fun child =>
    if child.isClassBody then child.bodyNodes.filter (!·.isDeclaration)
    else if headerKinds.contains child.kind then []
    else [child]

/-! ### These parts are smaller -/

theorem sizeOf_lt_of_mem_filter {tree child : Tree} {test : Tree → Bool}
    (member : child ∈ tree.namedChildren.filter test) : sizeOf child < sizeOf tree :=
  sizeOf_lt_of_mem_namedChildren (List.mem_filter.mp member).1

mutual

theorem sizeOf_lt_of_mem_bodyNodes : ∀ {tree found : Tree}, found ∈ bodyNodes tree →
    sizeOf found < sizeOf tree
  | .node kind isNamed span field children, found, member => by
    unfold bodyNodes at member
    have smaller := sizeOf_lt_of_mem_bodyNodesAmong member
    simp only [node.sizeOf_spec]
    omega

theorem sizeOf_lt_of_mem_bodyNodesAmong : ∀ {trees : List Tree} {found : Tree},
    found ∈ bodyNodesAmong trees → sizeOf found < sizeOf trees
  | [], found, member => by simp [bodyNodesAmong] at member
  | first :: rest, found, member => by
    simp only [bodyNodesAmong, List.mem_append] at member
    simp only [List.cons.sizeOf_spec]
    rcases member with member | member
    · split at member
      · simp at member
      · split at member
        · have smaller := sizeOf_lt_of_mem_bodyNodes member
          omega
        · simp only [List.mem_singleton] at member
          rw [member]
          omega
    · have smaller := sizeOf_lt_of_mem_bodyNodesAmong member
      omega

end

theorem sizeOf_lt_of_mem_memberTrees {tree child : Tree} (member : child ∈ tree.memberTrees) :
    sizeOf child < sizeOf tree := by
  simp only [memberTrees, List.mem_flatMap] at member
  obtain ⟨body, bodyMember, childMember⟩ := member
  exact Nat.lt_trans (sizeOf_lt_of_mem_bodyNodes (List.mem_filter.mp childMember).1)
    (sizeOf_lt_of_mem_filter bodyMember)

theorem sizeOf_lt_of_mem_initializerTrees {tree child : Tree}
    (member : child ∈ tree.initializerTrees) : sizeOf child < sizeOf tree := by
  simp only [initializerTrees, List.mem_flatMap] at member
  obtain ⟨part, partMember, childMember⟩ := member
  have smaller := sizeOf_lt_of_mem_namedChildren partMember
  split at childMember
  · have inside := sizeOf_lt_of_mem_bodyNodes (List.mem_filter.mp childMember).1
    omega
  · split at childMember
    · simp at childMember
    · simp only [List.mem_singleton] at childMember
      rw [childMember]
      exact smaller

end Tree

/-! ### Conversions -/

namespace Site

/-- The conversion that a call to a functional interface stands for: the interface and the
type, given the call's name and type arguments. -/
def construction? (site : Site) (name : String) (typeArguments? : Option Tree) :
    Option (TypeRef × ClassHeader) :=
  if FileScope.looksLikeClass name then
    let fqn := site.resolveClass name
    (site.functionalInterface? fqn).map fun owner =>
      let arguments := match typeArguments? with
        | some list =>
          let written := Parameter.withoutBrackets '<' '>' (list.text site.content)
          (Text.splitTopLevel ',' written).map site.parseType
        | none => owner.typeParameters.map fun _ => TypeRef.unknown
      (.of fqn arguments false, owner)
  else none

/-- The parameter of a function at which an argument lands. -/
def parameterAt? (function : FunctionSymbol) : ArgumentSlot → Option TypeRef
  | .position index => function.parameters[index]?
  | .named name => (function.parameterNames.idxOf? name).bind (function.parameters[·]?)
  | .last => function.parameters.getLast?

/-- An argument as the function takes it: a lambda is converted if the parameter is of a
functional interface. The type parameters of the function are not known there. -/
def passed (site : Site) (function? : Option FunctionSymbol) (slot : ArgumentSlot) :
    Expr → Expr
  | .lambda span body =>
    let target? := do
      let function ← function?
      let parameter ← parameterAt? function slot
      let owner ← site.functionalInterface? parameter.fqn
      return (parameter.erase function.typeParameters, owner)
    match target? with
    | some (type, owner) => .conversion span type owner (.lambda span body)
    | none => .lambda span body
  | other => other

/-- The function that a call means, as far as it is known: one of the symbols, or else what
is imported under the name. -/
def callee? (site : Site) (name? : Option String) (function? : Option FunctionSymbol)
    (hasReceiver : Bool) : Option Callee :=
  (function?.map (·.callee)).or
    ((name?.bind site.scope.imported?).map fun fqn => ⟨fqn, hasReceiver, []⟩)

/-- The class header that a class is seen with: the one among the symbols if it is of the
same kind, since it knows more of the supertypes. -/
def knownHeader (site : Site) (header : ClassHeader) : ClassHeader :=
  ((site.symbols.resolvedClass? header.fqn).filter (·.kind = header.kind)).getD header

/-! ### Expressions and declarations -/

mutual

/-- The expression that a node stands for. Leaves are left out. -/
def expr? (site : Site) (tree : Tree) : Option Expr :=
  if tree.kind = "call_expression" then some (site.call tree)
  else if tree.kind = "lambda_literal" then some (site.lambda tree)
  else if noted : tree.kind = "annotated_lambda" then
    match found : tree.find? ["lambda_literal"] with
    | some literal =>
      have := Tree.sizeOf_find?_lt (by simp [noted]) found
      some (site.lambda literal)
    | none => some (site.group tree)
  else if tree.isDeclaration then
    match site.declaration? tree with
    | some declaration => some (.declaration declaration)
    | none => some (site.group tree)
  else if tree.namedChildren.isEmpty then none
  else some (site.group tree)
termination_by (sizeOf tree, 2)

/-- A node that is kept for the expressions inside it. -/
def group (site : Site) (tree : Tree) : Expr :=
  .group (some tree.span) (tree.namedChildren.attach.filterMap fun child =>
    have := Tree.sizeOf_lt_of_mem_namedChildren child.2
    site.expr? child.1)
termination_by (sizeOf tree, 0)

/-- A lambda with its statements. -/
def lambda (site : Site) (tree : Tree) : Expr :=
  .lambda (some tree.span) (tree.statementTrees.attach.filterMap fun child =>
    have := Tree.sizeOf_lt_of_mem_filter child.2
    site.expr? child.1)
termination_by (sizeOf tree, 0)

/-- A call, or the conversion that it stands for. -/
def call (site : Site) (tree : Tree) : Expr :=
  match read : CallParts.ofTree? tree with
  | none => site.group tree
  | some parts =>
    let name? := parts.name? site.content
    let construction? := do
      if parts.receiver?.isSome then none
      let literal ← parts.onlyLambda?.attach
      let target ← site.construction? (← name?) parts.typeArguments?
      return (literal, target)
    match construction? with
    | some (⟨literal, only⟩, type, owner) =>
      have := CallParts.sizeOf_lt_of_onlyLambda? read only
      .conversion (some literal.span) type owner (site.lambda literal)
    | none =>
      let function? := name?.bind (site.function? · parts.argumentCount)
      let receiver? := parts.receiver?.attach.bind fun receiver =>
        have := CallParts.sizeOf_lt_of_receiver? read receiver.2
        site.expr? receiver.1
      let arguments := (parts.arguments site.content).attach.filterMap fun argument =>
        have := CallParts.sizeOf_lt_of_mem_arguments read argument.2
        (site.expr? argument.1.1).map (site.passed function? argument.1.2)
      .call (some tree.span) (site.callee? name? function? parts.receiver?.isSome) receiver?
        arguments
termination_by (sizeOf tree, 1)

/-- The declaration that a node writes. One without the parts that its header needs is
none. -/
def declaration? (site : Site) (tree : Tree) : Option Declaration :=
  if tree.kind = "function_declaration" then
    (FunctionHeader.ofTree? site tree).map fun header =>
      let within := site.withTypeParameters header.typeParameters
      .function header.name header.fqn header.annotations header.receiver header.parameters
        (some tree.span) (tree.bodyTrees.attach.filterMap fun child =>
          have := Tree.sizeOf_lt_of_mem_filter child.2
          within.expr? child.1)
  else if tree.kind = "property_declaration" then
    (tree.propertyName? site.content).map fun name =>
      let annotations := Annotation.listOfTree site tree
      .property name (site.qualify name) annotations (some tree.span)
        (tree.bodyTrees.attach.filterMap fun child =>
          have := Tree.sizeOf_lt_of_mem_filter child.2
          site.expr? child.1)
  else
    (ClassHeader.ofTree? site tree).map fun written =>
      let header := site.knownHeader written
      let within := (site.inside header.fqn).withTypeParameters header.typeParameters
      .classLike header (some tree.span)
        (tree.memberTrees.attach.filterMap fun child =>
          have := Tree.sizeOf_lt_of_mem_memberTrees child.2
          within.declaration? child.1)
        (tree.initializerTrees.attach.filterMap fun child =>
          have := Tree.sizeOf_lt_of_mem_initializerTrees child.2
          within.expr? child.1)
termination_by (sizeOf tree, 1)

end

end Site

/-! ### Whole files -/

/-- The kinds of nodes at the top of a file that are neither declarations nor statements. -/
def fileHeaderKinds : List String :=
  ["package_header", "import", "import_header", "import_list", "file_annotation", "shebang_line"]

/-- What the capture pass sees of a file. -/
def SourceFile.ofTree (site : Site) (root : Tree) : SourceFile :=
  let nodes := root.namedChildren.filter fun child => !fileHeaderKinds.contains child.kind
  { package := site.scope.package
    declarations := (nodes.filter (·.isDeclaration)).filterMap site.declaration?
    statements := (nodes.filter (!·.isDeclaration)).filterMap site.expr? }

end SourceCapture
