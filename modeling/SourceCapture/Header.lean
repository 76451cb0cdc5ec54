/-
Headers of declarations: annotations with their arguments, classes with their supertypes,
functions with their signatures, and the names and initial values of properties.
-/

import SourceCapture.Site

namespace SourceCapture

/-! ### Arguments -/

/-- An argument of a call or an annotation, with the name of the parameter if it is given. -/
structure WrittenArgument where
  name? : Option Tree
  value : Tree

namespace WrittenArgument

/-- The argument that a node of an argument list stands for. Any other kind of node is the
value of an argument without a name. -/
def ofTree? (tree : Tree) : Option WrittenArgument :=
  if tree.kind ≠ "value_argument" then some ⟨none, tree⟩
  else
    let parts := tree.namedChildren
    parts.getLast?.map fun value =>
      let name? := if 2 ≤ parts.length && tree.hasToken "=" then parts.head? else none
      ⟨name?.filter (·.isIdentifier), value⟩

/-- The arguments of an argument list. -/
def listOfTree (list : Tree) : List WrittenArgument := list.namedChildren.filterMap ofTree?

theorem sizeOf_le_of_ofTree? {tree : Tree} {argument : WrittenArgument}
    (read : ofTree? tree = some argument) : sizeOf argument.value ≤ sizeOf tree := by
  unfold ofTree? at read
  split at read
  · cases read
    exact Nat.le_refl _
  · simp only [Option.map_eq_some_iff] at read
    obtain ⟨value, last, rfl⟩ := read
    exact Nat.le_of_lt (Tree.sizeOf_lt_of_mem_namedChildren (List.mem_of_getLast? last))

theorem sizeOf_lt_of_mem_listOfTree {list : Tree} {argument : WrittenArgument}
    (member : argument ∈ listOfTree list) : sizeOf argument.value < sizeOf list := by
  simp only [listOfTree, List.mem_filterMap] at member
  obtain ⟨node, nodeMember, read⟩ := member
  exact Nat.lt_of_le_of_lt (sizeOf_le_of_ofTree? read)
    (Tree.sizeOf_lt_of_mem_namedChildren nodeMember)

end WrittenArgument

/-! ### Annotations -/

namespace Annotation

/-- What the use of an annotation can be aimed at. -/
def targets : List String :=
  ["file", "property", "field", "get", "set", "receiver", "param", "setparam", "delegate"]

/-- The text of an annotation from its name on. -/
def fromName (written : List Char) : List Char :=
  let bare := written.dropWhile (· = '@')
  match Text.splitOnce? [':'] bare with
  | some (target, rest) =>
    if targets.contains (String.ofList (Text.trim target)) then Text.trim rest else bare
  | none => bare

/-- The characters of the name of an annotation with its quotes. -/
def isNameChar (char : Char) : Bool :=
  Text.isAlphanumeric char || char = '_' || char = '.' || char = Name.quote

/-- The name of an annotation as it is written, without quotes. -/
def writtenName (written : List Char) : String :=
  String.ofList (((fromName written).takeWhile isNameChar).filter (· ≠ Name.quote))

/-- The arguments of an annotation. -/
def argumentsAt (site : Site) (tree : Tree) : List AnnotationArgument :=
  match tree.find? ["value_arguments"] with
  | some list => (WrittenArgument.listOfTree list).map fun argument =>
    ⟨argument.name?.map fun name => String.ofList (name.trimmedText site.content),
      site.evaluate argument.value⟩
  | none => []

/-- The annotation that a node writes. -/
def ofTree (site : Site) (tree : Tree) : Annotation :=
  let fqn := site.resolveClass (writtenName (tree.text site.content))
  { name := fqn
    marker := site.markers.resolve? fqn
    span := some tree.span
    arguments := argumentsAt site tree }

/-- The annotations among the modifiers of a declaration. -/
def listOfTree (site : Site) (declaration : Tree) : List Annotation :=
  (declaration.modifiers site.content).annotations.map (ofTree site)

end Annotation

/-! ### Classes -/

namespace ClassHeader

/-- The kind of a class-like declaration. -/
def kindOf (content : List Char) (tree : Tree) : ClassKind :=
  if tree.kind = "object_declaration" then .object
  else if tree.kind = "companion_object" then .companionObject
  else if tree.hasToken "interface" then
    if tree.hasToken "fun" || (tree.modifiers content).words.contains "fun" then
      .functionalInterface
    else .interface
  else .plain

/-- The names in the type parameter list of a declaration. -/
def typeParametersOf (content : List Char) (tree : Tree) : List String :=
  match tree.childOfKind? ["type_parameters"] with
  | some list => Parameter.typeNamesOfText (list.text content)
  | none => []

/-- The nodes of the supertypes among the children of a class: those of a list, those that
are marked as supertypes, and whatever else is named after the colon. Nothing is looked for
in the body and behind it. -/
def supertypeNodes (afterColon : Bool) : List Tree → List Tree
  | [] => []
  | child :: rest =>
    if child.kind = "delegation_specifiers" then
      child.namedChildren ++ supertypeNodes afterColon rest
    else if child.kind = "delegation_specifier" then child :: supertypeNodes afterColon rest
    else if child.kind = ":" then supertypeNodes true rest
    else if ["class_body", "enum_class_body", "type_constraints"].contains child.kind then []
    else if afterColon && child.isNamed && !TextPart.kindHas child.kind "comment" then
      child :: supertypeNodes afterColon rest
    else supertypeNodes afterColon rest

/-- The text before the first parenthesis outside of angle brackets, unless that is the first
character. -/
def beforeArguments (depth : Int) (isFirst : Bool) : List Char → List Char
  | [] => []
  | char :: rest =>
    let deeper := if char = '<' then depth + 1 else if char = '>' then depth - 1 else depth
    if char = '(' && depth = 0 && !isFirst then []
    else char :: beforeArguments deeper false rest

/-- The type of a supertype, without the arguments of its constructor and without what it is
delegated to. -/
def supertypeText (written : List Char) : List Char :=
  let declared := match Text.splitOnce? " by ".toList written with
    | some (type, _) => type
    | none => written
  Text.trim (beforeArguments 0 true declared)

/-- The supertype that a node writes. -/
def supertypeOf (site : Site) (tree : Tree) : Supertype :=
  let type := site.parseType (supertypeText (tree.text site.content))
  ⟨type, site.markers.resolve? type.fqn, []⟩

/-- The header of a class-like declaration with a name. -/
def ofTree? (site : Site) (tree : Tree) : Option ClassHeader :=
  (tree.declarationName? site.content).map fun name =>
    let typeParameters := typeParametersOf site.content tree
    let within := site.withTypeParameters typeParameters
    { fqn := site.qualify name
      name := name
      kind := kindOf site.content tree
      typeParameters := typeParameters
      annotations := Annotation.listOfTree site tree
      supertypes := (supertypeNodes false tree.children).map (supertypeOf within) }

end ClassHeader

/-! ### Functions -/

/-- The signature of a function with its annotations. -/
structure FunctionHeader where
  name : String
  fqn : String
  receiver : Option TypeRef
  parameters : List TypeRef
  parameterNames : List String
  typeParameters : List String
  annotations : List Annotation

namespace FunctionHeader

/-- What stands between the keyword of a function and its parameters. -/
def signature? (content : List Char) (tree parameters : Tree) : Option (List Char) := do
  let keyword ← tree.childOfKind? ["fun"]
  let between ← Text.slice? content ⟨keyword.span.stop, parameters.span.start⟩
  return Text.trim between

/-- The type parameters in front of a signature, and the rest of it. They may also stand
elsewhere in the declaration. A list that is not closed is no signature. -/
def splitTypeParameters? (content : List Char) (tree : Tree) (signature : List Char) :
    Option (List String × List Char) :=
  if signature.head? = some '<' then
    (Text.splitClosingAngle? signature).map fun parts =>
      (Parameter.typeNamesOfText parts.1, Text.trim parts.2)
  else some (ClassHeader.typeParametersOf content tree, signature)

/-- The receiver of a signature without type parameters, if it has one, and the name. -/
def splitReceiver (signature : List Char) : Option (List Char) × String :=
  match Text.splitLastDot? signature with
  | some (receiver, name) => (some receiver, Name.unquote (Text.trim name))
  | none => (none, Name.unquote (Text.trim signature))

/-- The type of a parameter that is written without one. -/
def missingType : List Char := "Any".toList

/-- The header of a function with a parameter list and a name. -/
def ofTree? (site : Site) (tree : Tree) : Option FunctionHeader := do
  let list ← tree.childOfKind? ["function_value_parameters"]
  let signature ← signature? site.content tree list
  let (typeParameters, rest) ← splitTypeParameters? site.content tree signature
  let (receiver, name) := splitReceiver rest
  if name.isEmpty then none
  else
    let within := site.withTypeParameters typeParameters
    let parameters := Parameter.listOfText (list.text site.content)
    return {
      name := name
      fqn := site.qualify name
      receiver := receiver.map within.parseType
      parameters := parameters.map fun parameter =>
        within.parseType (parameter.type?.getD missingType)
      parameterNames := parameters.map (·.name)
      typeParameters := typeParameters
      annotations := Annotation.listOfTree site tree }

/-- The function as calls see it. -/
def toSymbol (header : FunctionHeader) : FunctionSymbol where
  callee := ⟨header.fqn, header.receiver.isSome, header.annotations⟩
  parameters := header.parameters
  parameterNames := header.parameterNames
  typeParameters := header.typeParameters

end FunctionHeader

/-! ### Properties -/

namespace Tree

/-- The name of a property. -/
def propertyName? (content : List Char) (tree : Tree) : Option String :=
  let declared := (tree.childOfKind? ["variable_declaration"]).bind fun declaration =>
    declaration.children.find? isIdentifier
  (declared.or (tree.children.find? isIdentifier)).map (identifierName content)

/-- The initial value of a property: the first named node after the equals sign. -/
def initializer? (tree : Tree) : Option Tree :=
  ((tree.children.dropWhile fun child => child.kind ≠ "=").drop 1).find? (·.isNamed)

end Tree

end SourceCapture
