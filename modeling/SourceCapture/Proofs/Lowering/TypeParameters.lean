/-
The type parameters in the types of conversions. The type of a conversion is written at a call to
the interface itself, or else it is the declared type of a parameter of the function that is
called. In the latter the type parameters of this function are erased. Those of the functions and
the classes around the call, or around the declaration of what is called, are not: they stay
wherever the types that are written mention them.
-/

import SourceCapture.Proofs.Lowering.Conversions
import SourceCapture.Proofs.Lowering.Origins
import SourceCapture.Proofs.SampleTrees
import SourceCapture.Proofs.Symbols.Declared
import SourceCapture.Proofs.TypeNames

namespace SourceCapture

variable {markers : MarkerNames} {files : List ParsedFile}

/-! ### Around a call -/

namespace Site

variable {site place : Site} {tree node : Tree}

/-- The type parameters that a function or a class declares. Nothing else has any. -/
def declaredTypeParameters (site : Site) (tree : Tree) : List String :=
  if tree.isClassLike then ((ClassHeader.ofTree? site tree).map (·.typeParameters)).getD []
  else if tree.kind = "function_declaration" then
    ((FunctionHeader.ofTree? site tree).map (·.typeParameters)).getD []
  else []

/-- The places and nodes that the lowering of a node comes to, with the type parameters of the
functions and the classes on the way. -/
inductive ComesWithin : Site → Tree → List String → Site → Tree → Prop where
  | here {site : Site} {tree : Tree} : ComesWithin site tree [] site tree
  | inside {site place : Site} {tree child node : Tree} {names : List String}
      (member : child ∈ (site.inner tree).2)
      (within : ComesWithin (site.inner tree).1 child names place node) :
      ComesWithin site tree (site.declaredTypeParameters tree ++ names) place node

theorem comesTo_iff_exists_comesWithin :
    ComesTo site tree place node ↔ ∃ names, ComesWithin site tree names place node := by
  constructor
  · intro comes
    induction comes with
    | here => exact ⟨[], .here⟩
    | inside member _ inductionHypothesis =>
      obtain ⟨names, within⟩ := inductionHypothesis
      exact ⟨_, .inside member within⟩
  · rintro ⟨names, within⟩
    induction within with
    | here => exact .here
    | inside member _ inductionHypothesis => exact .inside member inductionHypothesis

theorem isIn_inner (site : Site) (tree : Tree) : (site.inner tree).1.IsIn site := by
  have self := IsIn.refl site
  rw [inner]
  split
  · split <;> exact self
  split
  · rw [inDeclaration]
    split
    · split
      · exact self.withTypeParameters _
      · exact self
    split
    · split <;> exact self
    split
    · exact (self.inside _).withTypeParameters _
    · exact self
  · split <;> exact self

/-- Lowering stays in the file and knows the same all over it. -/
theorem ComesTo.isIn (comes : ComesTo site tree place node) : place.IsIn site := by
  induction comes with
  | here => exact IsIn.refl _
  | inside _ _ inductionHypothesis => exact inductionHypothesis.trans (isIn_inner _ _)

/-! ### What a call calls -/

/-- The type parameters of what a call calls, and those of the functions and the classes around
its declaration. A call that stands for a conversion calls the interface. -/
inductive Calls (markers : MarkerNames) (files : List ParsedFile) (place : Site)
    (parts : CallParts) : List String → List String → Prop where
  | interface {literal node : Tree} {type : TypeRef} {owner known : ClassHeader}
      {declaration : Site} (found : place.converted? parts = some (literal, type, owner))
      (meant : (symbolsOf markers files).class? type.fqn = some known)
      (declared : DeclaredIn markers files declaration node)
      (own : known ∈ (FileSymbols.own declaration node).classes) :
      Calls markers files place parts known.typeParameters declaration.typeParameters
  | function {node : Tree} {function : FunctionSymbol} {declaration : Site}
      (plain : place.converted? parts = none) (called : place.called? parts = some function)
      (declared : DeclaredIn markers files declaration node)
      (own : function ∈ (FileSymbols.own declaration node).functions) :
      Calls markers files place parts function.typeParameters declaration.typeParameters

theorem mem_functions_of_called? {parts : CallParts} {function : FunctionSymbol}
    (called : place.called? parts = some function) : function ∈ place.symbols.functions := by
  have ofFirst : ∀ names, function ∈ firstOverloads place.symbols names →
      function ∈ place.symbols.functions := by
    intro names member
    induction names with
    | nil => cases member
    | cons fqn rest inductionHypothesis =>
      rw [firstOverloads] at member
      split at member
      · exact inductionHypothesis member
      · exact (List.mem_filter.mp member).1
  obtain ⟨name, -, found⟩ := Option.bind_eq_some_iff.mp called
  rw [function?, Option.or_eq_some_iff] at found
  rcases found with fitting | ⟨-, first⟩
  · exact ofFirst _ (List.mem_of_find?_eq_some fitting)
  · exact ofFirst _ (List.mem_of_mem_head? first)

/-- Whatever a call converts lambdas for is declared in a file of the run. -/
theorem Converts.exists_calls {parts : CallParts} {conversion : Expr}
    (knows : place.symbols = symbolsOf markers files)
    (converts : place.Converts parts conversion) :
    ∃ own outer, place.Calls markers files parts own outer := by
  cases converts with
  | constructed found =>
    have interface := functionalInterface?_of_converted? found
    rw [functionalInterface?, knows] at interface
    obtain ⟨known, meant, -⟩ :=
      Option.map_eq_some_iff.mp (Option.filter_eq_some_iff.mp interface).1
    obtain ⟨declaration, node, declared, own, -⟩ := exists_declaredIn_of_class? meant
    exact ⟨_, _, .interface found meant declared own⟩
  | passed plain _ _ target =>
    obtain ⟨function, called, -⟩ := target?_eq_some_iff.mp target
    have known := mem_functions_of_called? called
    rw [knows] at known
    obtain ⟨declaration, node, declared, own⟩ := exists_declaredIn_of_mem_functions known
    exact ⟨_, _, .function plain called declared own⟩

/-! ### What a call converts -/

/-- The type arguments that are written at a call. -/
def writtenArguments (place : Site) (parts : CallParts) : List TypeRef :=
  match parts.typeArguments? with
  | some list =>
    (Text.splitTopLevel ',' (Parameter.withoutBrackets '<' '>' (list.text place.content))).map
      place.parseType
  | none => []

/-- Whether the function that is called takes a lambda as an interface, by the type that its
parameter is declared with. -/
structure TakesLambdaAs (place : Site) (parts : CallParts) (function : FunctionSymbol)
    (parameter : TypeRef) : Prop where
  plain : place.converted? parts = none
  called : place.called? parts = some function
  atSlot : ∃ argument ∈ parts.arguments place.content, argument.1.literal?.isSome = true ∧
    parameterAt? function argument.2 = some parameter
  interface : (place.functionalInterface? parameter.fqn).isSome = true

/-- Whether the types that are written for the conversions of a call mention no type parameters:
neither the interface and its type arguments at a call to the interface, nor the type of a
parameter that takes a lambda, where its function's own type parameters do not count. -/
structure WritesNoParameter (place : Site) (parts : CallParts) (own others : List String) :
    Prop where
  constructed : ∀ literal type owner, place.converted? parts = some (literal, type, owner) →
    ¬TypeRef.Mentions (type.fqn :: TypeRef.namesOfAll (place.writtenArguments parts))
      (own ++ others)
  passed : ∀ function parameter, place.TakesLambdaAs parts function parameter →
    ¬TypeRef.Mentions (parameter.namesBeside function.typeParameters) others

/-- A call to an interface gives it the type arguments that are written, or else unknown ones. -/
theorem mentions_of_converted? {parts : CallParts} {literal : Tree} {type : TypeRef}
    {owner : ClassHeader} (found : place.converted? parts = some (literal, type, owner))
    (parameters : List String) :
    TypeRef.Mentions type.names parameters ↔ TypeRef.Mentions
      (type.fqn :: TypeRef.namesOfAll (place.writtenArguments parts)) parameters := by
  obtain ⟨name, -, constructed⟩ := construction?_of_converted? found
  rw [construction?] at constructed
  split at constructed
  · obtain ⟨interface, -, same⟩ := Option.map_eq_some_iff.mp constructed
    cases same
    rw [TypeRef.names, writtenArguments, TypeRef.fqn]
    cases parts.typeArguments? with
    | some list => exact Iff.rfl
    | none => exact TypeRef.mentions_cons_unknown_iff _ _ _
  · cases constructed

theorem converts_passed_iff {parts : CallParts} {function : FunctionSymbol} {type : TypeRef}
    (plain : place.converted? parts = none) (called : place.called? parts = some function) :
    (∃ span owner operand, place.Converts parts (.conversion span type owner operand)) ↔
      ∃ parameter, place.TakesLambdaAs parts function parameter ∧
        parameter.erase function.typeParameters = type := by
  constructor
  · rintro ⟨span, owner, operand, converts⟩
    cases converts with
    | constructed found =>
      rw [plain] at found
      cases found
    | passed _ member isLambda target =>
      obtain ⟨other, same, parameter, atSlot, interface, erased⟩ := target?_eq_some_iff.mp target
      rw [called] at same
      cases same
      exact ⟨parameter, ⟨plain, called, ⟨_, member, Option.isSome_of_eq_some isLambda, atSlot⟩,
        Option.isSome_of_eq_some interface⟩, erased⟩
  · rintro ⟨parameter, ⟨-, -, ⟨argument, member, isLambda, atSlot⟩, interface⟩, erased⟩
    obtain ⟨literal, isLambda⟩ := Option.isSome_iff_exists.mp isLambda
    obtain ⟨owner, interface⟩ := Option.isSome_iff_exists.mp interface
    have target := target?_eq_some_iff.mpr ⟨function, called, parameter, atSlot, interface, erased⟩
    exact ⟨_, _, _, .passed plain member isLambda target⟩

/-- The types of the conversions that a call makes mention just the type parameters that the
types written for them do. -/
theorem Calls.writesNoParameter_iff {parts : CallParts} {own outer : List String}
    (calls : place.Calls markers files parts own outer) (others : List String) :
    place.WritesNoParameter parts own others ↔ ∀ span type owner operand,
      place.Converts parts (.conversion span type owner operand) →
        ¬TypeRef.Mentions type.names (own ++ others) := by
  cases calls with
  | interface found =>
    constructor
    · intro none span type owner operand converts
      cases converts with
      | constructed same =>
        rw [mentions_of_converted? same]
        exact none.constructed _ _ _ same
      | passed plain =>
        rw [found] at plain
        cases plain
    · intro clear
      refine ⟨fun literal type owner same => ?_, fun function parameter takes => ?_⟩
      · rw [← mentions_of_converted? same]
        exact clear _ _ _ _ (.constructed same)
      · have plain := takes.plain
        rw [found] at plain
        cases plain
  | function plain called =>
    constructor
    · intro none span type owner operand converts
      obtain ⟨parameter, takes, rfl⟩ :=
        (converts_passed_iff plain called).mp ⟨span, owner, operand, converts⟩
      rw [TypeRef.mentions_erase_append_iff]
      exact none.passed _ _ takes
    · intro clear
      refine ⟨fun literal type owner found => ?_, fun function parameter takes => ?_⟩
      · rw [plain] at found
        cases found
      · have same := takes.called
        rw [called] at same
        cases same
        obtain ⟨span, owner, operand, converts⟩ :=
          (converts_passed_iff plain called).mpr ⟨parameter, takes, rfl⟩
        rw [← TypeRef.mentions_erase_append_iff]
        exact clear _ _ _ _ converts

end Site

/-! ### Whole files -/

/-- The calls that the lowering of a file comes to, with the type parameters of what is called,
and those of the functions and the classes around its declaration and around the call. -/
def ParsedFile.CallsWithin (markers : MarkerNames) (files : List ParsedFile) (file : ParsedFile)
    (place : Site) (parts : CallParts) (own others : List String) : Prop :=
  ∃ node outer around, node.kind = "call_expression" ∧ CallParts.ofTree? node = some parts ∧
    (∃ top ∈ SourceFile.topTrees (file.site (symbolsOf markers files) markers) file.root,
      Site.ComesWithin (file.site (symbolsOf markers files) markers) top around place node) ∧
    place.Calls markers files parts own outer ∧ outer ++ around = others

theorem ParsedFile.CallsWithin.mem_items {file : ParsedFile} {place : Site} {parts : CallParts}
    {own others : List String} {conversion : Expr}
    (within : file.CallsWithin markers files place parts own others)
    (converts : place.Converts parts conversion) :
    Item.expression conversion ∈ (file.lower (symbolsOf markers files) markers).items := by
  obtain ⟨node, outer, around, call, read, ⟨top, topMember, comes⟩, -, -⟩ := within
  have comesTo := Site.comesTo_iff_exists_comesWithin.mpr ⟨around, comes⟩
  exact (file.conversion_mem_items_iff _ markers converts.isConversion).mpr
    ⟨place, node, ⟨top, topMember, comesTo⟩, call, parts, read, converts⟩

/-- Whether no type parameter gets into the type of a conversion. Every conversion in a lowered
file is made by a call, and no name in its type is a type parameter of what is called, or of a
function or a class around its declaration or around the call. -/
def KeepsParametersOut (markers : MarkerNames) (files : List ParsedFile) : Prop :=
  ∀ file ∈ files, ∀ span type owner operand,
    Item.expression (.conversion span type owner operand) ∈
      (file.lower (symbolsOf markers files) markers).items →
    (∃ place parts own others, file.CallsWithin markers files place parts own others ∧
      place.Converts parts (.conversion span type owner operand)) ∧
    ∀ place parts own others, file.CallsWithin markers files place parts own others →
      place.Converts parts (.conversion span type owner operand) →
        ¬TypeRef.Mentions type.names (own ++ others)

/-- The place and the node to which lowering comes by the nodes at some positions, with the type
parameters on the way. -/
def Site.descend? (site : Site) (tree : Tree) : List Nat → Option (List String × Site × Tree)
  | [] => some ([], site, tree)
  | position :: deeper => do
    let child ← (site.inner tree).2[position]?
    let (names, reached) ← (site.inner tree).1.descend? child deeper
    return (site.declaredTypeParameters tree ++ names, reached)

theorem Site.comesWithin_of_descend? {place : Site} {node : Tree} {names : List String} :
    ∀ {positions : List Nat} {site : Site} {tree : Tree},
      site.descend? tree positions = some (names, place, node) →
        ComesWithin site tree names place node
  | [], site, tree, found => by
    cases found
    exact .here
  | position :: deeper, site, tree, found => by
    obtain ⟨child, atPosition, found⟩ := Option.bind_eq_some_iff.mp found
    obtain ⟨⟨inside, reached⟩, deeperFound, found⟩ := Option.bind_eq_some_iff.mp found
    cases found
    exact .inside (List.mem_of_getElem? atPosition) (comesWithin_of_descend? deeperFound)

namespace Tree

/-- A list `<T>` with a type parameter of one character. -/
def oneTypeParameter (start : Nat) : Tree :=
  branch "type_parameters" start (start + 3) [
    token "<" start (start + 1),
    branch "type_parameter" (start + 1) (start + 2) [leaf "identifier" (start + 1) (start + 2)],
    token ">" (start + 2) (start + 3)]

/-- A list with a type argument. -/
def oneTypeArgument (argument : Tree) : Tree :=
  let ⟨start, stop⟩ := argument.span
  branch "type_arguments" (start - 1) (stop + 1) [
    token "<" (start - 1) start,
    branch "type_projection" start stop [argument],
    token ">" stop (stop + 1)]

/-- The type `N<T>`, for names of one character each. -/
def genericType (start : Nat) : Tree :=
  branch "user_type" start (start + 4) [
    leaf "identifier" start (start + 1),
    oneTypeArgument
      (branch "user_type" (start + 2) (start + 3) [leaf "identifier" (start + 2) (start + 3)])]

/-- The property `val N = …`, for a name of one character. -/
def valueProperty (start : Nat) (value : Tree) : Tree :=
  branch "property_declaration" start value.span.stop [
    token "val" start (start + 3),
    branch "variable_declaration" (start + 4) (start + 5)
      [leaf "identifier" (start + 4) (start + 5)],
    token "=" (start + 6) (start + 7),
    value]

end Tree

def genericContent : List Char :=
  ["import com.github.tarcv.kotbridge.*\n", "fun interface A<R> : Capturable<A<R>>\n",
    "class C<T> \x7b\n", "fun f(b: A<T>) \x7b\x7d\n", "val x = f \x7b 1 \x7d\n",
    "val y = A<T> \x7b 2 \x7d\n", "\x7d\n"].flatMap String.toList

/-- A class with a type parameter in which a block is converted to an interface twice: by a
function of the class, and by a call to the interface. -/
def genericFile : ParsedFile where
  document := .ofFile ⟨"/p/src/A.kt"⟩ genericContent ⟨"/p"⟩
  root := .branch "source_file" 0 142 [
    .wholeLibraryImport 0,
    .branch "class_declaration" 36 73 [
      .token "fun" 36 39,
      .token "interface" 40 49,
      .leaf "identifier" 50 51,
      .oneTypeParameter 51,
      .token ":" 55 56,
      .branch "delegation_specifiers" 57 73 [
        .branch "delegation_specifier" 57 73 [
          .branch "user_type" 57 73
            [.leaf "identifier" 57 67, .oneTypeArgument (.genericType 68)]]]],
    .branch "class_declaration" 74 141 [
      .token "class" 74 79,
      .leaf "identifier" 80 81,
      .oneTypeParameter 81,
      .branch "class_body" 85 141 [
        .token "\x7b" 85 86,
        .branch "function_declaration" 87 104 [
          .token "fun" 87 90,
          .leaf "identifier" 91 92,
          .branch "function_value_parameters" 92 101 [
            .token "(" 92 93,
            .branch "parameter" 93 100
              [.leaf "identifier" 93 94, .token ":" 94 95, .genericType 96],
            .token ")" 100 101],
          .branch "function_body" 102 104
            [.branch "block" 102 104 [.token "\x7b" 102 103, .token "\x7d" 103 104]]],
        .valueProperty 105 (.blockCall 113),
        .valueProperty 121 (.branch "call_expression" 129 139 [
          .leaf "identifier" 129 130,
          .oneTypeArgument (.branch "user_type" 131 132 [.leaf "identifier" 131 132]),
          .branch "annotated_lambda" 134 139 [.blockLiteral 134]]),
        .token "\x7d" 140 141]]]

/-- The outermost place of the file, with the file's own symbols. -/
def genericSite : Site := genericFile.site (symbolsOf {} [genericFile]) {}

end SourceCapture
