/-
The full names of the classes that a file is lowered to. Lowering enters the classes around a node
one by one, except where it takes the lambda out of a node that stands for one: it takes the first
one in preorder, and that may be inside a class in the arguments of an annotation. The classes
inside such a lambda go without the name of that class. In all other places a class has the same
name as in the passes that list it, look for its constants and register it.
-/

import SourceCapture.Proofs.ClassNames
import SourceCapture.Proofs.Lowering.TypeParameters

namespace SourceCapture

variable {markers : MarkerNames} {files : List ParsedFile}

/-! ### On the way to a node -/

namespace Tree

/-- Whether a node stands at or below another one, with the class-like nodes on the way down to
it, innermost first. The lower node is not on the way. -/
inductive Holds : Tree → List Tree → Tree → Prop where
  | here {tree : Tree} : Holds tree [] tree
  | inside {tree child node : Tree} {around : List Tree} (member : child ∈ tree.children)
      (deeper : Holds child around node) : Holds tree (around ++ tree.ownClass) node

theorem exists_holds_of_mem_nodes {tree node : Tree} (below : node ∈ tree.nodes) :
    ∃ around, tree.Holds around node := by
  induction tree using Tree.induction with
  | step tree inductionHypothesis =>
    rcases (mem_nodes_iff node tree).mp below with rfl | ⟨child, member, deeper⟩
    · exact ⟨[], .here⟩
    · obtain ⟨around, holds⟩ := inductionHypothesis child member deeper
      exact ⟨_, .inside member holds⟩

theorem Holds.exists_eq_append {tree node : Tree} {around : List Tree}
    (holds : tree.Holds around node) (smaller : sizeOf node < sizeOf tree) :
    ∃ crossed, around = crossed ++ tree.ownClass := by
  cases holds with
  | here => exact absurd smaller (Nat.lt_irrefl _)
  | inside => exact ⟨_, rfl⟩

/-- Whether all of some class-like nodes have a name, be it the one that an unnamed companion
goes by. -/
def AllNamed (content : List Char) (chain : List Tree) : Prop :=
  ∀ node ∈ chain, (node.declarationName? content).isSome = true

instance (content : List Char) (chain : List Tree) : Decidable (AllNamed content chain) :=
  inferInstanceAs (Decidable (∀ node ∈ chain, (node.declarationName? content).isSome = true))

theorem mem_nodes_of_literal? {tree literal : Tree} (found : tree.literal? = some literal) :
    literal ∈ tree.nodes := by
  rw [literal?] at found
  split at found
  · cases found
    exact mem_nodes_self tree
  · split at found
    · exact mem_nodes_of_find? found
    · cases found

end Tree

namespace Site

/-- What is lowered with a node lies below it. -/
theorem IsInner.mem_nodes {content : List Char} {tree child : Tree}
    (inner : IsInner content tree child) : child ∈ tree.nodes := by
  cases inner with
  | child member => exact Tree.mem_nodes_of_mem_namedChildren member
  | ofClass member => exact (Tree.mem_nodes_of_mem_memberTrees member).1
  | initializer member => exact Tree.mem_nodes_of_mem_initializerTrees member
  | literal found member =>
    exact Tree.mem_nodes_trans (Tree.mem_nodes_of_mem_namedChildren member)
      (Tree.mem_nodes_of_literal? found)
  | onlyLambda read only member =>
    exact Tree.mem_nodes_trans (Tree.mem_nodes_of_mem_namedChildren member)
      (Tree.mem_nodes_of_onlyLambda? read only)
  | receiver read found => exact Tree.mem_nodes_of_receiver? read found
  | argument read member => exact Tree.mem_nodes_of_mem_callArguments read member

/-- The places and nodes that the lowering of a node comes to, with the class-like nodes on the
way, innermost first. -/
inductive ComesAround : Site → Tree → List Tree → Site → Tree → Prop where
  | here {site : Site} {tree : Tree} : ComesAround site tree [] site tree
  | inside {site place : Site} {tree child node : Tree} {between around : List Tree}
      (member : child ∈ (site.inner tree).2) (way : tree.Holds between child)
      (within : ComesAround (site.inner tree).1 child around place node) :
      ComesAround site tree (around ++ between) place node

theorem comesTo_iff_exists_comesAround {site place : Site} {tree node : Tree} :
    ComesTo site tree place node ↔ ∃ around, ComesAround site tree around place node := by
  constructor
  · intro comes
    induction comes with
    | here => exact ⟨[], .here⟩
    | inside member _ inductionHypothesis =>
      obtain ⟨around, within⟩ := inductionHypothesis
      obtain ⟨between, way⟩ := Tree.exists_holds_of_mem_nodes (isInner_of_mem_inner member).mem_nodes
      exact ⟨_, .inside member way within⟩
  · rintro ⟨around, within⟩
    induction within with
    | here => exact .here
    | inside member _ _ inductionHypothesis => exact .inside member inductionHypothesis

/-! ### The classes that are entered -/

/-- Whether every class that is known is known under its own name. -/
def KnowsByName (site : Site) : Prop :=
  ∀ fqn known, site.symbols.class? fqn = some known → known.fqn = fqn

theorem fqn_knownHeader {site : Site} (knows : site.KnowsByName) (written : ClassHeader) :
    (site.knownHeader written).fqn = written.fqn := by
  rcases site.knownHeader_cases written with ⟨known, found, -, seen⟩ | ⟨-, seen⟩
  · have fqn := knows _ known found
    rw [seen]
    exact fqn
  · rw [seen]

theorem KnowsByName.of_isIn {site place : Site} (knows : site.KnowsByName)
    (isIn : place.IsIn site) : place.KnowsByName := by
  rw [KnowsByName, isIn.symbols]
  exact knows

/-- Lowering goes into a class-like node with its full name in front of those of the classes
around, and into other nodes with the same classes around. -/
theorem enclosing_inner {site : Site} (knows : site.KnowsByName) {tree : Tree} {name : String}
    (classLike : tree.isClassLike = true)
    (named : tree.declarationName? site.content = some name) :
    (site.inner tree).1.enclosing = site.qualify name :: site.enclosing := by
  obtain ⟨noFunction, noProperty⟩ := Tree.kind_of_isClassLike classLike
  have declared := Tree.isDeclaration_of_isClassLike classLike
  have noCall := (Tree.kind_of_isDeclaration declared).1
  rw [inner, if_neg noCall, if_pos declared, inDeclaration, if_neg noFunction, if_neg noProperty,
    ClassHeader.ofTree?, named]
  show (site.knownHeader _).fqn :: site.enclosing = _
  rw [fqn_knownHeader knows]

theorem enclosing_inner_of_not_isClassLike (site : Site) {tree : Tree}
    (other : tree.isClassLike = false) : (site.inner tree).1.enclosing = site.enclosing := by
  rw [inner]
  split
  · split <;> rfl
  split
  case isTrue declared =>
    rw [inDeclaration]
    split
    · split <;> rfl
    case isFalse noFunction =>
    split
    · split <;> rfl
    case isFalse noProperty =>
      simp [Tree.isDeclaration, other, noFunction, noProperty] at declared
  · split <;> rfl

/-- The classes that have been entered at a node are some of those around it, and the name of the
innermost one is made of their names. -/
theorem ComesAround.exists_entered {site place : Site} {tree node : Tree} {around : List Tree}
    (within : ComesAround site tree around place node) (knows : site.KnowsByName)
    (named : Tree.AllNamed site.content around) (chain : List Tree)
    (start : site.outer? = Tree.outerName? site.content site.scope.package chain) :
    ∃ entered, entered.Sublist around ∧
      place.enclosing.length = entered.length + site.enclosing.length ∧
        place.outer? = Tree.outerName? site.content site.scope.package (entered ++ chain) := by
  induction within generalizing chain with
  | here => exact ⟨[], .slnil, (Nat.zero_add _).symm, start⟩
  | @inside site place tree child node between around member way _ inductionHypothesis =>
    obtain ⟨crossed, rfl⟩ := way.exists_eq_append (sizeOf_lt_of_mem_inner member)
    have inFile := isIn_inner site tree
    have step := inductionHypothesis (knows.of_isIn inFile)
      (inFile.content ▸ fun other otherMember => named other (List.mem_append_left _ otherMember))
      (tree.ownClass ++ chain)
    rw [inFile.content, inFile.scope] at step
    cases classLike : tree.isClassLike with
    | false =>
      have enclosing := enclosing_inner_of_not_isClassLike site classLike
      have none : tree.ownClass = [] := if_neg (classLike ▸ Bool.false_ne_true)
      rw [outer?, enclosing, none, List.nil_append] at step
      obtain ⟨entered, sublist, length, outer⟩ := step start
      exact ⟨entered, sublist.trans (List.sublist_append_left _ _), length, outer⟩
    | true =>
      have own : tree.ownClass = [tree] := if_pos classLike
      rw [own] at named step
      obtain ⟨name, declared⟩ := Option.isSome_iff_exists.mp (named tree (by simp))
      have enclosing := enclosing_inner knows classLike declared
      rw [outer?, enclosing] at step
      have inside : (site.qualify name :: site.enclosing).head? =
          Tree.outerName? site.content site.scope.package ([tree] ++ chain) := by
        have entered := outer?_inside ⟨rfl, rfl⟩ declared
        rw [start, Tree.within_outerName?] at entered
        exact entered
      obtain ⟨entered, sublist, length, outer⟩ := step inside
      refine ⟨entered ++ [tree], ?_, ?_, ?_⟩
      · rw [own]
        exact sublist.append (List.sublist_append_right _ _)
      · rw [length, List.length_cons, List.length_append, List.length_singleton]
        omega
      · rw [outer, List.append_assoc]

end Site

/-! ### The names that are given -/

theorem Tree.map_within_eq {content : List Char} {package : Option String} {node : Tree}
    {chain : List Tree} (named : (node.declarationName? content).isSome = true) :
    (node.declarationName? content).map (Name.within package (outerName? content package chain)) =
      some (fullName content package (node :: chain)) := by
  obtain ⟨name, declared⟩ := Option.isSome_iff_exists.mp named
  rw [declared, Option.map_some, ← simpleName_eq declared, within_outerName?]

namespace Site

variable {content : List Char} {package : Option String} {place : Site} {node : Tree}
  {chain : List Tree}

/-- The name that a node has at a place, if the class at the place has that of its chain. -/
theorem map_qualify_eq (isInFile : place.IsInFile content package)
    (outer : place.outer? = Tree.outerName? content package chain)
    (named : (node.declarationName? content).isSome = true) :
    (node.declarationName? place.content).map place.qualify =
      some (Tree.fullName content package (node :: chain)) := by
  have qualify : place.qualify = Name.within package (Tree.outerName? content package chain) := by
    funext name
    rw [qualify_eq_within, ← outer?, outer, isInFile.2]
  rw [isInFile.1, qualify, Tree.map_within_eq named]

theorem fqn_declaration?_of_isClassLike (knows : place.KnowsByName)
    (classLike : node.isClassLike = true) :
    (place.declaration? node).map (·.fqn) =
      (node.declarationName? place.content).map place.qualify := by
  obtain ⟨noFunction, noProperty⟩ := Tree.kind_of_isClassLike classLike
  rw [declaration?_eq, if_neg noFunction, if_neg noProperty, ClassHeader.ofTree?, Option.map_map,
    Option.map_map]
  refine congrArg (Option.map · _) (funext fun name => ?_)
  exact fqn_knownHeader knows _

end Site

/-! ### Whole files -/

namespace ParsedFile

/-- The package of a file. -/
def package? (file : ParsedFile) : Option String :=
  (FileScope.ofTree file.document.content file.root).package

/-- The full name of a class-like node by the package of its file, the names of the class-like
nodes around it and its own name. -/
def fullName (file : ParsedFile) (around : List Tree) (node : Tree) : String :=
  Tree.fullName file.document.content file.package? (node :: around)

theorem isInFile_site (file : ParsedFile) (symbols : SymbolTable) (markers : MarkerNames) :
    (file.site symbols markers).IsInFile file.document.content file.package? :=
  ⟨rfl, rfl⟩

/-- The places and nodes that the lowering of a file comes to, with the class-like nodes around
them, innermost first. -/
def ComesAround (file : ParsedFile) (symbols : SymbolTable) (markers : MarkerNames)
    (around : List Tree) (place : Site) (node : Tree) : Prop :=
  ∃ top ∈ SourceFile.topTrees (file.site symbols markers) file.root,
    Site.ComesAround (file.site symbols markers) top around place node

theorem comesTo_iff_exists_comesAround {file : ParsedFile} {symbols : SymbolTable}
    {place : Site} {node : Tree} : file.ComesTo symbols markers place node ↔
      ∃ around, file.ComesAround symbols markers around place node := by
  constructor
  · rintro ⟨top, member, comes⟩
    obtain ⟨around, within⟩ := Site.comesTo_iff_exists_comesAround.mp comes
    exact ⟨around, top, member, within⟩
  · rintro ⟨around, top, member, within⟩
    exact ⟨top, member, Site.comesTo_iff_exists_comesAround.mpr ⟨around, within⟩⟩

/-- The declarations that a file is lowered to are those of the nodes that lowering comes to. -/
theorem declaration_mem_items_iff {file : ParsedFile} {symbols : SymbolTable}
    {lowered : Declaration} :
    Item.declaration lowered ∈ (file.lower symbols markers).items ↔
      ∃ around place node, file.ComesAround symbols markers around place node ∧
        node.isDeclaration = true ∧ place.declaration? node = some lowered := by
  rw [file.mem_items_iff symbols markers rfl]
  simp only [comesTo_iff_exists_comesAround]
  constructor
  · rintro ⟨place, node, ⟨around, comes⟩, turns⟩
    exact ⟨around, place, node, comes, turns⟩
  · rintro ⟨around, place, node, comes, turns⟩
    exact ⟨place, node, ⟨around, comes⟩, turns⟩

/-- What the passes over a file give a node for its full name, one that they come to inside the
class-like nodes around, innermost first. -/
inductive GivesName (markers : MarkerNames) (files : List ParsedFile) (file : ParsedFile)
    (around : List Tree) (node : Tree) : Option String → Prop where
  /-- The entry in the list of the classes of the file. -/
  | listed {top : Tree} {outer : Option String} (member : top ∈ file.root.namedChildren)
      (descends : Tree.Descends (FileScope.within? file.document.content file.package?) none top
        around outer node) : GivesName markers files file around node
          (FileScope.listed? file.document.content file.package? outer node)
  /-- The class in which the constants inside the node are looked for. -/
  | searched {symbols : SymbolTable} {top : Tree} {place : Site}
      (member : top ∈ file.root.namedChildren)
      (descends : Tree.Descends ConstDefinition.within? (file.site symbols markers) top around
        place node) : GivesName markers files file around node
          ((ConstDefinition.within? place node).bind Site.outer?)
  /-- The class that is registered. -/
  | registered {symbols : SymbolTable} {top : Tree} {place : Site}
      (member : top ∈ file.root.namedChildren)
      (descends : Tree.Descends FileSymbols.within? (file.site symbols markers) top around
        place node) : GivesName markers files file around node
          ((ClassHeader.ofTree? place node).map (·.fqn))
  /-- The class that the node is lowered to. -/
  | lowered {place : Site}
      (comes : file.ComesAround (symbolsOf markers files) markers around place node) :
      GivesName markers files file around node ((place.declaration? node).map (·.fqn))

end ParsedFile

/-- Whether all passes over some files that come to a class-like node give it its full name, if it
and the class-like nodes around it are named. -/
def NamesClassesAlike (markers : MarkerNames) (files : List ParsedFile) : Prop :=
  ∀ file ∈ files, ∀ around node given, file.GivesName markers files around node given →
    node.isClassLike = true → Tree.AllNamed file.document.content (node :: around) →
      given = some (file.fullName around node)

namespace ParsedFile

variable {file : ParsedFile} {around : List Tree} {place : Site} {node : Tree}

/-- Lowering gives a class-like node its full name just when it has entered all of the class-like
nodes around. -/
theorem fqn_declaration?_eq_iff
    (comes : file.ComesAround (symbolsOf markers files) markers around place node)
    (classLike : node.isClassLike = true)
    (named : Tree.AllNamed file.document.content (node :: around)) :
    (place.declaration? node).map (·.fqn) = some (file.fullName around node) ↔
      place.enclosing.length = around.length := by
  obtain ⟨top, -, within⟩ := comes
  obtain ⟨own, others⟩ := List.forall_mem_cons.mp named
  have knows : Site.KnowsByName (file.site (symbolsOf markers files) markers) :=
    fun _ _ found => fqn_of_class?_symbolsOf markers files found
  have isIn := (Site.comesTo_iff_exists_comesAround.mpr ⟨around, within⟩).isIn
  have isInFile : place.IsInFile file.document.content file.package? :=
    ⟨isIn.content, congrArg FileScope.package isIn.scope⟩
  obtain ⟨entered, sublist, length, outer⟩ := within.exists_entered knows others [] rfl
  rw [List.append_nil] at outer
  rw [Site.fqn_declaration?_of_isClassLike (knows.of_isIn isIn) classLike,
    Site.map_qualify_eq isInFile outer own, Option.some_inj, fullName]
  have length : place.enclosing.length = entered.length := length
  rw [length]
  exact ⟨fun same => congrArg List.length (Tree.eq_of_fullName_eq sublist same),
    fun same => by rw [sublist.eq_of_length same]⟩

end ParsedFile

namespace Tree

/-- The node at the end of a way down, given by the positions among the children, with the
class-like nodes on the way. -/
def descend? (tree : Tree) : List Nat → Option (List Tree × Tree)
  | [] => some ([], tree)
  | position :: deeper => do
    let child ← tree.children[position]?
    let (around, reached) ← child.descend? deeper
    return (around ++ tree.ownClass, reached)

theorem holds_of_descend? {node : Tree} {around : List Tree} :
    ∀ (positions : List Nat) {tree : Tree},
      tree.descend? positions = some (around, node) → tree.Holds around node
  | [], tree, found => by
    cases found
    exact .here
  | position :: deeper, tree, found => by
    obtain ⟨child, atPosition, found⟩ := Option.bind_eq_some_iff.mp found
    obtain ⟨⟨between, reached⟩, deeperFound, found⟩ := Option.bind_eq_some_iff.mp found
    cases found
    exact .inside (List.mem_of_getElem? atPosition) (holds_of_descend? deeper deeperFound)

/-- The class `class D` in a block. -/
def innerClass : Tree :=
  branch "class_declaration" 42 49 [token "class" 42 47, leaf "identifier" 48 49]

/-- The block `{ class D }`. -/
def classBlock : Tree :=
  branch "lambda_literal" 40 51 [token "\x7b" 40 41, innerClass, token "\x7d" 50 51]

/-- The class `class C { val g = { class D } }`. -/
def outerClass : Tree :=
  branch "class_declaration" 22 53 [
    token "class" 22 27,
    leaf "identifier" 28 29,
    branch "class_body" 30 53
      [token "\x7b" 30 31, valueProperty 32 classBlock, token "\x7d" 52 53]]

/-- The call `f @A(object { … }) { 1 }` with the classes in the annotation. -/
def annotatedCall : Tree :=
  branch "call_expression" 8 62 [
    leaf "identifier" 8 9,
    branch "annotated_lambda" 10 62 [
      branch "annotation" 10 56 [
        token "@" 10 11,
        branch "constructor_invocation" 11 56 [
          branch "user_type" 11 12 [leaf "identifier" 11 12],
          branch "value_arguments" 12 56 [
            token "(" 12 13,
            branch "value_argument" 13 55 [
              branch "object_literal" 13 55 [
                token "object" 13 19,
                branch "class_body" 20 55 [token "\x7b" 20 21, outerClass, token "\x7d" 54 55]]],
            token ")" 55 56]]],
      blockLiteral 57]]

theorem annotatedCall_holds_classBlock : annotatedCall.Holds [outerClass] classBlock :=
  holds_of_descend? [1, 0, 1, 1, 1, 0, 1, 1, 2, 1, 3] rfl

end Tree

def crossedContent : List Char :=
  "val x = f @A(object \x7b class C \x7b val g = \x7b class D \x7d \x7d \x7d) \x7b 1 \x7d\n".toList

/-- A file with a class in an annotation, and with another class in a block of that class. -/
def crossedFile : ParsedFile where
  document := .ofFile ⟨"/p/src/A.kt"⟩ crossedContent ⟨"/p"⟩
  root := .branch "source_file" 0 63 [.valueProperty 0 .annotatedCall]

/-- The outermost place of the file, with the file's own symbols. -/
def crossedSite : Site := crossedFile.site (symbolsOf {} [crossedFile]) {}

theorem Site.ComesAround.only {site place : Site} {tree child node : Tree}
    {between around : List Tree} (inner : site.inner tree = (site, [child]))
    (way : tree.Holds between child) (within : ComesAround site child around place node) :
    ComesAround site tree (around ++ between) place node := by
  have member : child ∈ (site.inner tree).2 := by
    rw [inner]
    exact List.mem_singleton_self _
  refine .inside member way ?_
  rw [inner]
  exact within

theorem crossedSite_inner_call :
    crossedSite.inner .annotatedCall = (crossedSite, [.classBlock]) := by
  have plain : (crossedSite.converted? ⟨.leaf "identifier" 8 9, [.lambda .classBlock]⟩).isNone =
      true := by
    decide +kernel
  have read : CallParts.ofTree? .annotatedCall =
      some ⟨.leaf "identifier" 8 9, [.lambda .classBlock]⟩ := rfl
  have call : Tree.annotatedCall.kind = "call_expression" := rfl
  rw [Site.inner, if_pos call, read]
  show (_, crossedSite.inCall _) = _
  rw [Site.inCall, Option.isNone_iff_eq_none.mp plain]
  rfl

theorem crossedFile_comesAround : crossedFile.ComesAround (symbolsOf {} [crossedFile]) {}
    [.outerClass] crossedSite .innerClass := by
  have property : crossedSite.inner (.valueProperty 0 .annotatedCall) =
      (crossedSite, [.annotatedCall]) := by
    have named : ((Tree.valueProperty 0 .annotatedCall).propertyName?
        crossedSite.content).isSome = true := by
      decide +kernel
    rw [Site.inner_of_property rfl named]
    rfl
  have block : crossedSite.inner .classBlock = (crossedSite, [.innerClass]) := rfl
  have headed : (crossedSite.heading? (.valueProperty 0 .annotatedCall)).isSome = true := by
    decide +kernel
  refine ⟨.valueProperty 0 .annotatedCall, ?_, ?_⟩
  · refine List.mem_append_left _ (List.mem_filter.mpr ⟨?_, headed⟩)
    exact List.mem_singleton_self _
  · have inBlock := Site.ComesAround.only block (Tree.holds_of_descend? [1] rfl) .here
    have inCall := inBlock.only crossedSite_inner_call Tree.annotatedCall_holds_classBlock
    exact inCall.only property (Tree.holds_of_descend? [3] rfl)

end SourceCapture
