/-
What reading and lowering need to know of other files. The headers of declarations only hang
on which class names are known and on the values of constants; what is known of a class
beyond its name does not matter for them. Lowering also looks at the headers of classes and
at the overloads of functions, and at nothing else.
-/

import Mathlib.Data.List.Basic
import SourceCapture.FileSymbols
import SourceCapture.Proofs.Constants.Value
import SourceCapture.Proofs.Lowering.Equations
import SourceCapture.Proofs.SamePlace

namespace SourceCapture.Site

/-- Two views of one place at which the same class names are known and constants have the same
values. -/
structure ReadsAlike (site other : Site) : Prop extends SamePlace site other where
  markers : site.markers = other.markers
  typeParameters : site.typeParameters = other.typeParameters
  classes : site.symbols.hasClass = other.symbols.hasClass
  constants : site.constant? = other.constant?

/-- Two views of one place at which classes, functions and constants are the same. -/
structure LowersAlike (site other : Site) : Prop extends ReadsAlike site other where
  headers : site.symbols.resolvedClass? = other.symbols.resolvedClass?
  overloads : site.symbols.overloads = other.symbols.overloads

variable {site other : Site}

namespace ReadsAlike

theorem withTypeParameters (alike : site.ReadsAlike other) (names : List String) :
    (site.withTypeParameters names).ReadsAlike (other.withTypeParameters names) where
  toSamePlace := ⟨alike.content, alike.scope, alike.enclosing⟩
  markers := alike.markers
  typeParameters := congrArg (· ++ names) alike.typeParameters
  classes := alike.classes
  constants := alike.constants

theorem inside (alike : site.ReadsAlike other) (fqn : String) :
    (site.inside fqn).ReadsAlike (other.inside fqn) where
  toSamePlace := alike.toSamePlace.inside fqn
  markers := alike.markers
  typeParameters := alike.typeParameters
  classes := alike.classes
  constants := alike.constants

/-! ### Names, types and values -/

theorem resolveClass (alike : site.ReadsAlike other) : site.resolveClass = other.resolveClass := by
  funext name
  rw [Site.resolveClass, Site.resolveClass, alike.typeParameters, alike.markers, alike.classes,
    alike.scope, alike.enclosing]

theorem parseType (alike : site.ReadsAlike other) : site.parseType = other.parseType := by
  funext written
  rw [Site.parseType, Site.parseType, alike.resolveClass]

theorem evaluate (alike : site.ReadsAlike other) : site.evaluate = other.evaluate := by
  funext tree
  refine evaluate_congr tree alike.content fun name _ => ?_
  rw [meaning?, meaning?, alike.scope, alike.enclosing, alike.classes, alike.constants]

/-! ### Headers -/

theorem annotations (alike : site.ReadsAlike other) :
    Annotation.listOfTree site = Annotation.listOfTree other := by
  have each : Annotation.ofTree site = Annotation.ofTree other := by
    funext note
    simp only [alike.content, alike.resolveClass, alike.markers, alike.evaluate,
      Annotation.ofTree, Annotation.argumentsAt]
  funext tree
  unfold Annotation.listOfTree
  rw [each, alike.content]

theorem supertypeOf (alike : site.ReadsAlike other) :
    ClassHeader.supertypeOf site = ClassHeader.supertypeOf other := by
  funext tree
  rw [ClassHeader.supertypeOf, ClassHeader.supertypeOf, alike.content, alike.parseType,
    alike.markers]

theorem classHeader (alike : site.ReadsAlike other) :
    ClassHeader.ofTree? site = ClassHeader.ofTree? other := by
  funext tree
  have supertypes : ∀ names, ClassHeader.supertypeOf (site.withTypeParameters names) =
      ClassHeader.supertypeOf (other.withTypeParameters names) :=
    fun names => (alike.withTypeParameters names).supertypeOf
  simp only [ClassHeader.ofTree?, alike.content, alike.qualify, alike.annotations, supertypes]

theorem functionHeader (alike : site.ReadsAlike other) :
    FunctionHeader.ofTree? site = FunctionHeader.ofTree? other := by
  funext tree
  have types : ∀ names, (site.withTypeParameters names).parseType =
      (other.withTypeParameters names).parseType :=
    fun names => (alike.withTypeParameters names).parseType
  simp only [FunctionHeader.ofTree?, alike.content, alike.qualify, alike.annotations, types]

/-! ### The symbols of a file -/

mutual

theorem below {site other : Site} (alike : site.ReadsAlike other) : ∀ tree : Tree,
    FileSymbols.below site tree = FileSymbols.below other tree
  | .node _ _ _ _ children => by
    rw [FileSymbols.below, FileSymbols.below, alike.among children]

theorem among {site other : Site} (alike : site.ReadsAlike other) : ∀ trees : List Tree,
    FileSymbols.among site trees = FileSymbols.among other trees
  | [] => rfl
  | first :: rest => by
    have inClass : ∀ fqn names,
        FileSymbols.below ((site.inside fqn).withTypeParameters names) first =
          FileSymbols.below ((other.inside fqn).withTypeParameters names) first :=
      fun fqn names => ((alike.inside fqn).withTypeParameters names).below first
    have inFunction : ∀ names, FileSymbols.below (site.withTypeParameters names) first =
        FileSymbols.below (other.withTypeParameters names) first :=
      fun names => (alike.withTypeParameters names).below first
    simp only [FileSymbols.among, alike.classHeader, alike.functionHeader, inClass, inFunction,
      alike.below first, alike.among rest]

end

end ReadsAlike

namespace LowersAlike

theorem withTypeParameters (alike : site.LowersAlike other) (names : List String) :
    (site.withTypeParameters names).LowersAlike (other.withTypeParameters names) where
  toReadsAlike := alike.toReadsAlike.withTypeParameters names
  headers := alike.headers
  overloads := alike.overloads

theorem inside (alike : site.LowersAlike other) (fqn : String) :
    (site.inside fqn).LowersAlike (other.inside fqn) where
  toReadsAlike := alike.toReadsAlike.inside fqn
  headers := alike.headers
  overloads := alike.overloads

/-! ### Classes and functions of other files -/

theorem functionalInterface? (alike : site.LowersAlike other) :
    site.functionalInterface? = other.functionalInterface? := by
  funext fqn
  rw [Site.functionalInterface?, Site.functionalInterface?, alike.headers]

theorem knownHeader (alike : site.LowersAlike other) : site.knownHeader = other.knownHeader := by
  funext header
  rw [Site.knownHeader, Site.knownHeader, alike.headers]

theorem function? (alike : site.LowersAlike other) : site.function? = other.function? := by
  funext name argumentCount
  have first : firstOverloads site.symbols = firstOverloads other.symbols := by
    funext names
    induction names with
    | nil => rfl
    | cons fqn rest inductionHypothesis =>
      rw [firstOverloads, firstOverloads, alike.overloads, inductionHypothesis]
  rw [Site.function?, Site.function?, first, alike.scope, alike.enclosing]

theorem construction? (alike : site.LowersAlike other) :
    site.construction? = other.construction? := by
  funext name typeArguments?
  simp only [Site.construction?, alike.resolveClass, alike.functionalInterface?, alike.content,
    alike.parseType]

theorem passed (alike : site.LowersAlike other) : site.passed = other.passed := by
  funext function? slot argument
  cases argument <;> simp only [Site.passed, alike.functionalInterface?]

theorem callee? (alike : site.LowersAlike other) : site.callee? = other.callee? := by
  funext name? function? hasReceiver
  rw [Site.callee?, Site.callee?, alike.scope]

theorem converted? (alike : site.LowersAlike other) : site.converted? = other.converted? := by
  funext parts
  simp only [Site.converted?, alike.content, alike.construction?]

theorem called? (alike : site.LowersAlike other) : site.called? = other.called? := by
  funext parts
  simp only [Site.called?, alike.content, alike.function?]

end LowersAlike

/-! ### Lowering -/

/-- Whether a node is lowered to the same at two views of any place that are alike. -/
structure LowersSame (tree : Tree) : Prop where
  expression : ∀ {site other : Site}, site.LowersAlike other → site.expr? tree = other.expr? tree
  declaration : ∀ {site other : Site}, site.LowersAlike other →
    site.declaration? tree = other.declaration? tree

theorem filterMap_expr?_congr (alike : site.LowersAlike other) {trees : List Tree}
    (same : ∀ tree ∈ trees, LowersSame tree) :
    trees.filterMap site.expr? = trees.filterMap other.expr? :=
  List.filterMap_congr fun tree member => (same tree member).expression alike

theorem group_congr (alike : site.LowersAlike other) {tree : Tree}
    (inner : ∀ child, sizeOf child < sizeOf tree → LowersSame child) :
    site.group tree = other.group tree := by
  rw [group_eq, group_eq, filterMap_expr?_congr alike fun child member =>
    inner child (Tree.sizeOf_lt_of_mem_namedChildren member)]

theorem lambda_congr (alike : site.LowersAlike other) {tree : Tree}
    (inner : ∀ child, sizeOf child < sizeOf tree → LowersSame child) :
    site.lambda tree = other.lambda tree := by
  have statements : tree.statementTrees.filterMap site.expr? =
      tree.statementTrees.filterMap other.expr? :=
    filterMap_expr?_congr alike fun child member =>
      inner child (Tree.sizeOf_lt_of_mem_filter member)
  rw [lambda_eq, lambda_eq, statements]

theorem call_congr (alike : site.LowersAlike other) {tree : Tree}
    (inner : ∀ child, sizeOf child < sizeOf tree → LowersSame child) :
    site.call tree = other.call tree := by
  rw [call_eq, call_eq]
  cases read : CallParts.ofTree? tree with
  | none => exact group_congr alike inner
  | some parts =>
    dsimp only
    rw [← alike.converted?]
    cases found : site.converted? parts with
    | some target =>
      obtain ⟨literal, type, owner⟩ := target
      have smaller := CallParts.sizeOf_lt_of_onlyLambda? read (onlyLambda?_of_converted? found)
      dsimp only
      rw [lambda_congr alike fun child less => inner child (Nat.lt_trans less smaller)]
    | none =>
      dsimp only
      have receiver : parts.receiver?.bind site.expr? = parts.receiver?.bind other.expr? := by
        cases path : parts.receiver? with
        | none => rfl
        | some tree =>
          exact (inner tree (CallParts.sizeOf_lt_of_receiver? read path)).expression alike
      have arguments : (parts.arguments site.content).filterMap (fun argument =>
            (site.expr? argument.1).map (site.passed (site.called? parts) argument.2)) =
          (parts.arguments site.content).filterMap (fun argument =>
            (other.expr? argument.1).map (other.passed (other.called? parts) argument.2)) := by
        refine List.filterMap_congr fun argument member => ?_
        rw [(inner argument.1 (CallParts.sizeOf_lt_of_mem_arguments read member)).expression alike,
          alike.passed, alike.called?]
      rw [receiver, arguments, alike.callee?, alike.called?, alike.content]

theorem declaration?_congr (alike : site.LowersAlike other) {tree : Tree}
    (inner : ∀ child, sizeOf child < sizeOf tree → LowersSame child) :
    site.declaration? tree = other.declaration? tree := by
  have bodies : ∀ {site other : Site}, site.LowersAlike other →
      tree.bodyTrees.filterMap site.expr? = tree.bodyTrees.filterMap other.expr? :=
    fun alike => filterMap_expr?_congr alike fun child member =>
      inner child (Tree.sizeOf_lt_of_mem_filter member)
  have initializers : ∀ {site other : Site}, site.LowersAlike other →
      tree.initializerTrees.filterMap site.expr? = tree.initializerTrees.filterMap other.expr? :=
    fun alike => filterMap_expr?_congr alike fun child member =>
      inner child (Tree.sizeOf_lt_of_mem_initializerTrees member)
  have members : ∀ {site other : Site}, site.LowersAlike other →
      tree.memberTrees.filterMap site.declaration? =
        tree.memberTrees.filterMap other.declaration? :=
    fun alike => List.filterMap_congr fun child member =>
      (inner child (Tree.sizeOf_lt_of_mem_memberTrees member)).declaration alike
  rw [declaration?_eq, declaration?_eq]
  split
  · rw [alike.functionHeader]
    refine congrArg (Option.map · _) (funext fun header => ?_)
    rw [bodies (alike.withTypeParameters header.typeParameters)]
  · split
    · rw [alike.content]
      refine congrArg (Option.map · _) (funext fun name => ?_)
      rw [bodies alike, alike.qualify, alike.annotations]
    · rw [alike.classHeader]
      refine congrArg (Option.map · _) (funext fun written => ?_)
      dsimp only
      rw [alike.knownHeader]
      have within := (alike.inside (other.knownHeader written).fqn).withTypeParameters
        (other.knownHeader written).typeParameters
      rw [members within, initializers within]

theorem expr?_congr (alike : site.LowersAlike other) {tree : Tree}
    (inner : ∀ child, sizeOf child < sizeOf tree → LowersSame child) :
    site.expr? tree = other.expr? tree := by
  rw [expr?_eq, expr?_eq, call_congr alike inner, lambda_congr alike inner,
    declaration?_congr alike inner, group_congr alike inner]
  split
  · rfl
  · split
    · rfl
    · by_cases noted : tree.kind = "annotated_lambda"
      · rw [if_pos noted, if_pos noted]
        cases found : tree.find? ["lambda_literal"] with
        | none => rfl
        | some literal =>
          have smaller := Tree.sizeOf_find?_lt (by simp [noted]) found
          dsimp only
          rw [lambda_congr alike fun child less => inner child (Nat.lt_trans less smaller)]
      · rw [if_neg noted, if_neg noted]

theorem lowersSame (tree : Tree) : LowersSame tree :=
  have inner : ∀ child, sizeOf child < sizeOf tree → LowersSame child :=
    fun child _ => lowersSame child
  ⟨fun alike => expr?_congr alike inner, fun alike => declaration?_congr alike inner⟩
termination_by sizeOf tree

/-- A file is lowered to the same with any symbols that say the same of other files. -/
theorem LowersAlike.ofTree (alike : site.LowersAlike other) (root : Tree) :
    SourceFile.ofTree site root = SourceFile.ofTree other root := by
  have declarations : site.declaration? = other.declaration? :=
    funext fun tree => (lowersSame tree).declaration alike
  have expressions : site.expr? = other.expr? :=
    funext fun tree => (lowersSame tree).expression alike
  rw [SourceFile.ofTree, SourceFile.ofTree, alike.scope, declarations, expressions]

end SourceCapture.Site
