/-
Where what a file is lowered to comes from. Every declaration that the capture pass meets is
what a declaration of the syntax tree is lowered to, at a place of the file, and every
expression that it meets has the range of a node of the syntax tree. A lambda is only converted
to an interface that is among the symbols.
-/

import SourceCapture.Proofs.Lowering.Views
import SourceCapture.Proofs.Traversal
import SourceCapture.Proofs.Trees

namespace SourceCapture

/-- Whether a place is in the same file as another one, seen with the same symbols. -/
structure Site.IsIn (place site : Site) : Prop where
  content : place.content = site.content
  scope : place.scope = site.scope
  symbols : place.symbols = site.symbols
  markers : place.markers = site.markers

/-- Whether an item of a file is made of a node of its syntax tree. -/
def Item.ComesFrom (site : Site) (root : Tree) : Item → Prop
  | .declaration lowered => ∃ place : Site, place.IsIn site ∧ ∃ tree ∈ root.nodes,
      tree.isDeclaration = true ∧ place.declaration? tree = some lowered
  | .expression expr => ∃ tree ∈ root.nodes, expr.span = some tree.span

/-- Whether an item is no conversion to an interface that is not known. -/
def Item.HasKnownOwner (symbols : SymbolTable) : Item → Prop
  | .expression (.conversion _ _ owner _) => ∃ fqn, symbols.resolvedClass? fqn = some owner
  | _ => True

/-- Whether an item is made of a node, and only of what is known. -/
structure Item.IsLoweredFrom (site : Site) (root : Tree) (item : Item) : Prop where
  comesFrom : item.ComesFrom site root
  knownOwner : item.HasKnownOwner site.symbols

namespace Site

variable {site place : Site} {root : Tree}

theorem IsIn.refl (site : Site) : site.IsIn site := ⟨rfl, rfl, rfl, rfl⟩

theorem IsIn.trans {inner : Site} (innerIn : inner.IsIn place) (isIn : place.IsIn site) :
    inner.IsIn site :=
  ⟨innerIn.content.trans isIn.content, innerIn.scope.trans isIn.scope,
    innerIn.symbols.trans isIn.symbols, innerIn.markers.trans isIn.markers⟩

theorem IsIn.inside (isIn : place.IsIn site) (fqn : String) : (place.inside fqn).IsIn site :=
  ⟨isIn.content, isIn.scope, isIn.symbols, isIn.markers⟩

theorem IsIn.withTypeParameters (isIn : place.IsIn site) (names : List String) :
    (place.withTypeParameters names).IsIn site :=
  ⟨isIn.content, isIn.scope, isIn.symbols, isIn.markers⟩

/-- Whether all items in an expression are made of nodes. -/
def AllFrom (site : Site) (root : Tree) (expr : Expr) : Prop :=
  ∀ item ∈ expr.items, item.IsLoweredFrom site root

/-- Whether all items that a node is lowered to, at any place of the file, are made of
nodes. -/
structure LowersFrom (site : Site) (root tree : Tree) : Prop where
  expression : ∀ {place : Site}, place.IsIn site → ∀ {expr}, place.expr? tree = some expr →
    site.AllFrom root expr
  declaration : ∀ {place : Site}, place.IsIn site → tree.isDeclaration = true →
    ∀ {declaration}, place.declaration? tree = some declaration →
      ∀ item ∈ declaration.items, item.IsLoweredFrom site root

/-! ### Lists of expressions -/

theorem lowered_of_mem_itemsOfExprs (isIn : place.IsIn site) {trees : List Tree}
    (inner : ∀ tree ∈ trees, LowersFrom site root tree) {item : Item}
    (member : item ∈ itemsOfExprs (trees.filterMap place.expr?)) :
    item.IsLoweredFrom site root := by
  rw [itemsOfExprs_eq_flatMap] at member
  obtain ⟨expr, exprMember, inside⟩ := List.mem_flatMap.mp member
  obtain ⟨tree, treeMember, lowered⟩ := List.mem_filterMap.mp exprMember
  exact (inner tree treeMember).expression isIn lowered item inside

theorem lowered_of_mem_itemsOfDeclarations (isIn : place.IsIn site) {trees : List Tree}
    (inner : ∀ tree ∈ trees, LowersFrom site root tree ∧ tree.isDeclaration = true) {item : Item}
    (member : item ∈ itemsOfDeclarations (trees.filterMap place.declaration?)) :
    item.IsLoweredFrom site root := by
  rw [itemsOfDeclarations_eq_flatMap] at member
  obtain ⟨declaration, declarationMember, inside⟩ := List.mem_flatMap.mp member
  obtain ⟨tree, treeMember, lowered⟩ := List.mem_filterMap.mp declarationMember
  obtain ⟨from?, declared⟩ := inner tree treeMember
  exact from?.declaration isIn declared lowered item inside

/-! ### Expressions -/

section

variable {tree : Tree} (known : tree ∈ root.nodes)
  (inner : ∀ child, sizeOf child < sizeOf tree → child ∈ root.nodes → LowersFrom site root child)

include known inner

theorem allFrom_group (isIn : place.IsIn site) : site.AllFrom root (place.group tree) := by
  intro item member
  rw [group_eq, Expr.items, List.mem_cons] at member
  rcases member with rfl | inside
  · exact ⟨⟨tree, known, rfl⟩, trivial⟩
  · refine lowered_of_mem_itemsOfExprs isIn (fun child childMember => ?_) inside
    exact inner child (Tree.sizeOf_lt_of_mem_namedChildren childMember)
      (Tree.mem_nodes_trans (Tree.mem_nodes_of_mem_namedChildren childMember) known)

theorem allFrom_lambda (isIn : place.IsIn site) : site.AllFrom root (place.lambda tree) := by
  intro item member
  rw [lambda_eq, Expr.items, List.mem_cons] at member
  rcases member with rfl | inside
  · exact ⟨⟨tree, known, rfl⟩, trivial⟩
  · refine lowered_of_mem_itemsOfExprs isIn (fun child childMember => ?_) inside
    have named := (List.mem_filter.mp childMember).1
    exact inner child (Tree.sizeOf_lt_of_mem_namedChildren named)
      (Tree.mem_nodes_trans (Tree.mem_nodes_of_mem_namedChildren named) known)

omit known inner in
theorem exists_of_functionalInterface? (isIn : place.IsIn site) {fqn : String}
    {owner : ClassHeader} (found : place.functionalInterface? fqn = some owner) :
    ∃ fqn, site.symbols.resolvedClass? fqn = some owner := by
  rw [functionalInterface?, isIn.symbols] at found
  exact ⟨fqn, (Option.filter_eq_some_iff.mp found).1⟩

omit known inner in
/-- Passing an argument on adds a conversion at most, which has the range of its lambda. -/
theorem allFrom_passed (isIn : place.IsIn site) {expr : Expr} (from? : site.AllFrom root expr)
    (function? : Option FunctionSymbol) (slot : ArgumentSlot) :
    site.AllFrom root (place.passed function? slot expr) := by
  intro item member
  cases expr with
  | lambda span body =>
    rw [passed] at member
    split at member
    case h_1 type owner target =>
      obtain ⟨function, -, target⟩ := Option.bind_eq_some_iff.mp target
      obtain ⟨parameter, -, target⟩ := Option.bind_eq_some_iff.mp target
      obtain ⟨_, found, target⟩ := Option.bind_eq_some_iff.mp target
      cases target
      rw [Expr.items, List.mem_cons] at member
      rcases member with rfl | inside
      · have self := from? (.expression (.lambda span body)) List.mem_cons_self
        exact ⟨self.comesFrom, exists_of_functionalInterface? isIn found⟩
      · exact from? item inside
    case h_2 => exact from? item member
  | call span callee receiver arguments => exact from? item member
  | conversion span type owner operand => exact from? item member
  | declaration lowered => exact from? item member
  | group span children => exact from? item member

theorem allFrom_conversion (isIn : place.IsIn site) {literal : Tree} (below : literal ∈ tree.nodes)
    (smaller : sizeOf literal < sizeOf tree) (type : TypeRef) {owner : ClassHeader}
    (knownOwner : ∃ fqn, site.symbols.resolvedClass? fqn = some owner) :
    site.AllFrom root (.conversion (some literal.span) type owner (place.lambda literal)) := by
  intro item member
  have literalKnown := Tree.mem_nodes_trans below known
  rw [Expr.items, List.mem_cons] at member
  rcases member with rfl | inside
  · exact ⟨⟨literal, literalKnown, rfl⟩, knownOwner⟩
  · exact allFrom_lambda literalKnown (fun child less => inner child (Nat.lt_trans less smaller))
      isIn item inside

section

variable {parts : CallParts} (read : CallParts.ofTree? tree = some parts)

include read

theorem lowered_of_mem_receiver (isIn : place.IsIn site) {item : Item}
    (member : item ∈ itemsOfReceiver (parts.receiver?.bind place.expr?)) :
    item.IsLoweredFrom site root := by
  cases path : parts.receiver? with
  | none =>
    rw [path] at member
    cases member
  | some child =>
    rw [path, Option.bind_some] at member
    cases lowered : place.expr? child with
    | none =>
      rw [lowered] at member
      cases member
    | some expr =>
      rw [lowered] at member
      have below := Tree.mem_nodes_trans (Tree.mem_nodes_of_receiver? read path) known
      exact (inner child (CallParts.sizeOf_lt_of_receiver? read path) below).expression isIn lowered
        item member

theorem lowered_of_mem_arguments (isIn : place.IsIn site) {function? : Option FunctionSymbol}
    {item : Item}
    (member : item ∈ itemsOfExprs ((parts.arguments place.content).filterMap fun argument =>
      (place.expr? argument.1).map (place.passed function? argument.2))) :
    item.IsLoweredFrom site root := by
  rw [itemsOfExprs_eq_flatMap] at member
  obtain ⟨expr, exprMember, inside⟩ := List.mem_flatMap.mp member
  obtain ⟨argument, argumentMember, given⟩ := List.mem_filterMap.mp exprMember
  obtain ⟨plain, lowered, rfl⟩ := Option.map_eq_some_iff.mp given
  have below :=
    Tree.mem_nodes_trans (Tree.mem_nodes_of_mem_callArguments read argumentMember) known
  have smaller := CallParts.sizeOf_lt_of_mem_arguments read argumentMember
  exact allFrom_passed isIn ((inner argument.1 smaller below).expression isIn lowered) _ _ item
    inside

end

theorem allFrom_call (isIn : place.IsIn site) : site.AllFrom root (place.call tree) := by
  rw [call_eq]
  cases read : CallParts.ofTree? tree with
  | none => exact allFrom_group known inner isIn
  | some parts =>
    dsimp only
    cases found : place.converted? parts with
    | some target =>
      obtain ⟨literal, type, owner⟩ := target
      have only := onlyLambda?_of_converted? found
      have knownOwner := functionalInterface?_of_converted? found
      exact allFrom_conversion known inner isIn (Tree.mem_nodes_of_onlyLambda? read only)
        (CallParts.sizeOf_lt_of_onlyLambda? read only) type
        (exists_of_functionalInterface? isIn knownOwner)
    | none =>
      intro item member
      dsimp only at member
      rw [Expr.items, List.mem_cons, List.mem_append] at member
      rcases member with rfl | receiver | arguments
      · exact ⟨⟨tree, known, rfl⟩, trivial⟩
      · exact lowered_of_mem_receiver known inner read isIn receiver
      · exact lowered_of_mem_arguments known inner read isIn arguments

/-! ### Declarations -/

theorem lowered_of_mem_body (isIn : place.IsIn site) {item : Item}
    (member : item ∈ itemsOfExprs (tree.bodyTrees.filterMap place.expr?)) :
    item.IsLoweredFrom site root := by
  refine lowered_of_mem_itemsOfExprs isIn (fun child childMember => ?_) member
  have named := (List.mem_filter.mp childMember).1
  exact inner child (Tree.sizeOf_lt_of_mem_namedChildren named)
    (Tree.mem_nodes_trans (Tree.mem_nodes_of_mem_namedChildren named) known)

theorem lowered_of_mem_declaration (isIn : place.IsIn site) (declared : tree.isDeclaration = true)
    {lowered : Declaration} (found : place.declaration? tree = some lowered) :
    ∀ item ∈ lowered.items, item.IsLoweredFrom site root := by
  intro item member
  have self : Item.IsLoweredFrom site root (.declaration lowered) :=
    ⟨⟨place, isIn, tree, known, declared, found⟩, trivial⟩
  cases declares_of_declaration? found with
  | function =>
    rw [Declaration.items, List.mem_cons] at member
    rcases member with rfl | inside
    · exact self
    · exact lowered_of_mem_body known inner (isIn.withTypeParameters _) inside
  | property =>
    rw [Declaration.items, List.mem_cons] at member
    rcases member with rfl | inside
    · exact self
    · exact lowered_of_mem_body known inner isIn inside
  | @classLike _ header within _ _ _ _ inside =>
    rw [Declaration.items, List.mem_cons, List.mem_append] at member
    have isInside : within.IsIn site :=
      inside ▸ (isIn.inside header.fqn).withTypeParameters header.typeParameters
    rcases member with rfl | members | initializers
    · exact self
    · refine lowered_of_mem_itemsOfDeclarations isInside (fun child childMember => ?_) members
      obtain ⟨below, isDeclaration⟩ := Tree.mem_nodes_of_mem_memberTrees childMember
      exact ⟨inner child (Tree.sizeOf_lt_of_mem_memberTrees childMember)
        (Tree.mem_nodes_trans below known), isDeclaration⟩
    · refine lowered_of_mem_itemsOfExprs isInside (fun child childMember => ?_) initializers
      exact inner child (Tree.sizeOf_lt_of_mem_initializerTrees childMember)
        (Tree.mem_nodes_trans (Tree.mem_nodes_of_mem_initializerTrees childMember) known)

theorem allFrom_expr? (isIn : place.IsIn site) {expr : Expr}
    (found : place.expr? tree = some expr) : site.AllFrom root expr := by
  cases expresses_of_expr? found with
  | call => exact allFrom_call known inner isIn
  | lambda => exact allFrom_lambda known inner isIn
  | annotated kind sought =>
    have smaller := Tree.sizeOf_find?_lt (by simp [kind]) sought
    exact allFrom_lambda (Tree.mem_nodes_trans (Tree.mem_nodes_of_find? sought) known)
      (fun child less => inner child (Nat.lt_trans less smaller)) isIn
  | declaration declared sought =>
    intro item member
    rw [Expr.items, List.mem_cons] at member
    rcases member with rfl | inside
    · exact ⟨⟨tree, known, span_of_declaration? sought⟩, trivial⟩
    · exact lowered_of_mem_declaration known inner isIn declared sought item inside
  | group => exact allFrom_group known inner isIn

end

theorem lowersFrom {site : Site} {root : Tree} (tree : Tree) (known : tree ∈ root.nodes) :
    LowersFrom site root tree :=
  have inner : ∀ child, sizeOf child < sizeOf tree → child ∈ root.nodes →
      LowersFrom site root child :=
    fun child _ below => lowersFrom child below
  ⟨fun isIn _ found => allFrom_expr? known inner isIn found,
    fun isIn declared _ found => lowered_of_mem_declaration known inner isIn declared found⟩
termination_by sizeOf tree

end Site

/-- What a file is lowered to is made of the nodes of its syntax tree and of what is known. -/
theorem SourceFile.lowered_of_mem_items (site : Site) (root : Tree) :
    ∀ item ∈ (SourceFile.ofTree site root).items, item.IsLoweredFrom site root := by
  intro item member
  have known : ∀ tree ∈ root.namedChildren, tree ∈ root.nodes :=
    fun tree => Tree.mem_nodes_of_mem_namedChildren
  rw [SourceFile.items, SourceFile.ofTree, List.mem_append] at member
  rcases member with declarations | statements
  · refine Site.lowered_of_mem_itemsOfDeclarations (Site.IsIn.refl site)
      (fun tree treeMember => ?_) declarations
    obtain ⟨node, declared⟩ := List.mem_filter.mp treeMember
    exact ⟨Site.lowersFrom tree (known tree (List.mem_filter.mp node).1), declared⟩
  · refine Site.lowered_of_mem_itemsOfExprs (Site.IsIn.refl site) (fun tree treeMember => ?_)
      statements
    exact Site.lowersFrom tree (known tree
      (List.mem_filter.mp (List.mem_filter.mp treeMember).1).1)

/-- What a file is lowered to is made of the nodes of its syntax tree. -/
theorem SourceFile.comesFrom_of_mem_items (site : Site) (root : Tree) :
    ∀ item ∈ (SourceFile.ofTree site root).items, item.ComesFrom site root :=
  fun item member => (lowered_of_mem_items site root item member).comesFrom

end SourceCapture
