/-
What a file is lowered to has the shape of its syntax tree. Everything that is lowered inside of
something else comes from below the node of the other, so in a well-formed tree it has a range
inside of the other's range, and every node is used once at most. So no block is lowered twice: a
lambda comes from its own literal, and a conversion adds nothing but itself in front of its
lambda, at the same place.
-/

import SourceCapture.Proofs.Captures.SampleRuns
import SourceCapture.Proofs.Lowering.Shares

namespace SourceCapture

/-! ### Items with what is inside of them -/

namespace Item

/-- The place of the item. -/
def span : Item → Option Span
  | .declaration lowered => lowered.span
  | .expression expr => expr.span

/-- The item and everything inside of it. -/
def items : Item → List Item
  | .declaration lowered => lowered.items
  | .expression expr => expr.items

/-- Whether both items have places, one inside of the other. -/
def LiesIn (inner outer : Item) : Prop :=
  ∃ place around, inner.span = some place ∧ outer.span = some around ∧ place.Within around

/-- Whether the item is a lambda at a place. -/
def isLambdaAt (place : Span) : Item → Bool
  | .expression (.lambda span _) => span = some place
  | _ => false

/-- Whether the item is a conversion at a place. -/
def isConversionAt (place : Span) : Item → Bool
  | .expression (.conversion span _ _ _) => span = some place
  | _ => false

/-- Whether the item, where it is a conversion, is one of a lambda at its own place. -/
def ConvertsLambda : Item → Prop
  | .expression (.conversion span _ _ operand) => ∃ body, operand = .lambda span body
  | _ => True

/-- Whether the item has the place of a node, and everything inside of it the places of nodes
below. -/
structure StandsFor (item : Item) (node : Tree) : Prop where
  span : item.span = some node.span
  inside : ∀ inner ∈ item.items, ∃ below ∈ node.nodes, inner.span = some below.span

end Item

/-- Whether the node is the literal of a lambda at a place. -/
def Tree.isLambdaAt (place : Span) (tree : Tree) : Bool :=
  tree.kind = "lambda_literal" && tree.span = place

/-! ### Items made of nodes -/

/-- Whether items are made of nodes: each stands for one of them, and no more lambdas are made
than there are literals. -/
structure MadeOf (items : List Item) (nodes : List Tree) : Prop where
  standsFor : ∀ item ∈ items, ∃ node ∈ nodes, item.StandsFor node
  converts : ∀ item ∈ items, item.ConvertsLambda
  lambdas : ∀ place, items.countP (·.isLambdaAt place) ≤ nodes.countP (·.isLambdaAt place)

namespace MadeOf

variable {items others : List Item} {nodes more : List Tree} {tree : Tree}

theorem nil (nodes : List Tree) : MadeOf [] nodes where
  standsFor _ member := nomatch member
  converts _ member := nomatch member
  lambdas _ := Nat.zero_le _

theorem mono (made : MadeOf items nodes) (subperm : nodes.Subperm more) : MadeOf items more where
  standsFor item member := by
    obtain ⟨node, known, stands⟩ := made.standsFor item member
    exact ⟨node, subperm.subset known, stands⟩
  converts := made.converts
  lambdas place := (made.lambdas place).trans (subperm.countP_le _)

theorem append (first : MadeOf items nodes) (second : MadeOf others more) :
    MadeOf (items ++ others) (nodes ++ more) where
  standsFor item member := by
    rcases List.mem_append.mp member with inFirst | inSecond
    · obtain ⟨node, known, stands⟩ := first.standsFor item inFirst
      exact ⟨node, List.mem_append_left _ known, stands⟩
    · obtain ⟨node, known, stands⟩ := second.standsFor item inSecond
      exact ⟨node, List.mem_append_right _ known, stands⟩
  converts item member := (List.mem_append.mp member).elim (first.converts item)
    (second.converts item)
  lambdas place := by
    rw [List.countP_append, List.countP_append]
    exact Nat.add_le_add (first.lambdas place) (second.lambdas place)

/-- What is read off nodes one by one is made of these nodes. -/
theorem flatMap {Entry Result : Type} {entries : List Entry} {node : Entry → Tree}
    {read : Entry → Option Result} {itemsOf : Result → List Item}
    (each : ∀ entry ∈ entries, ∀ result, read entry = some result →
      MadeOf (itemsOf result) (node entry).nodes) :
    MadeOf ((entries.filterMap read).flatMap itemsOf) (Tree.nodesAmong (entries.map node)) := by
  induction entries with
  | nil => exact nil _
  | cons first rest inductionHypothesis =>
    rw [List.forall_mem_cons] at each
    have others := inductionHypothesis each.2
    rw [List.map_cons, Tree.nodesAmong, List.filterMap_cons]
    cases found : read first with
    | none => exact others.mono (List.sublist_append_right _ _).subperm
    | some result =>
      rw [List.flatMap_cons]
      exact (each.1 result found).append others

/-- The item of a node, around items that are made of what is below the node. -/
theorem around (made : MadeOf items tree.nodes) (item : Item) (span : item.span = some tree.span)
    (inside : item.items = item :: items) (converts : item.ConvertsLambda) :
    (∀ other ∈ item :: items, ∃ node ∈ tree.nodes, other.StandsFor node) ∧
      ∀ other ∈ item :: items, other.ConvertsLambda := by
  have self : item.StandsFor tree := by
    refine ⟨span, fun inner member => ?_⟩
    rw [inside, List.mem_cons] at member
    rcases member with rfl | deeper
    · exact ⟨tree, Tree.mem_nodes_self tree, span⟩
    · obtain ⟨below, known, stands⟩ := made.standsFor inner deeper
      exact ⟨below, known, stands.span⟩
  refine ⟨List.forall_mem_cons.mpr ⟨⟨tree, Tree.mem_nodes_self tree, self⟩, made.standsFor⟩, ?_⟩
  exact List.forall_mem_cons.mpr ⟨converts, made.converts⟩

theorem cons {item : Item} (made : MadeOf items tree.nodes) (span : item.span = some tree.span)
    (inside : item.items = item :: items) (converts : item.ConvertsLambda)
    (noLambda : ∀ place, item.isLambdaAt place = false) : MadeOf (item :: items) tree.nodes where
  standsFor := (made.around item span inside converts).1
  converts := (made.around item span inside converts).2
  lambdas place := by
    rw [List.countP_cons_of_neg (Bool.eq_false_iff.mp (noLambda place))]
    exact made.lambdas place

/-- The nodes below a node are some of its nodes. -/
theorem ofBelow (made : MadeOf items nodes)
    (below : nodes.Subperm (Tree.nodesAmong tree.children)) : MadeOf items tree.nodes := by
  refine made.mono (below.trans ?_)
  rw [Tree.nodes_eq_cons]
  exact (List.sublist_cons_self _ _).subperm

/-- A lambda is made of its own literal and of what is below. -/
theorem lambda {body : List Expr} (isLambda : tree.kind = "lambda_literal")
    (made : MadeOf (itemsOfExprs body) nodes)
    (below : nodes.Subperm (Tree.nodesAmong tree.children)) :
    MadeOf (Expr.lambda (some tree.span) body).items tree.nodes := by
  obtain ⟨standsFor, converts⟩ := (made.ofBelow below).around
    (.expression (.lambda (some tree.span) body)) rfl rfl trivial
  refine ⟨standsFor, converts, fun place => ?_⟩
  have fewer := (made.mono below).lambdas place
  have same : Item.isLambdaAt place (.expression (.lambda (some tree.span) body)) =
      tree.isLambdaAt place := by
    rw [Item.isLambdaAt, Tree.isLambdaAt, isLambda]
    simp
  rw [Expr.items, Tree.nodes_eq_cons, List.countP_cons, List.countP_cons, same]
  exact Nat.add_le_add_right fewer _

/-- A conversion adds nothing but itself to its lambda. -/
theorem conversion {span : Option Span} {body : List Expr}
    (made : MadeOf (Expr.lambda span body).items nodes) (type : TypeRef) (owner : ClassHeader) :
    MadeOf (Expr.conversion span type owner (.lambda span body)).items nodes where
  standsFor item member := by
    rw [Expr.items, List.mem_cons] at member
    rcases member with rfl | inside
    · obtain ⟨node, known, stands⟩ := made.standsFor _ List.mem_cons_self
      refine ⟨node, known, stands.span, fun inner innerMember => ?_⟩
      rcases List.mem_cons.mp innerMember with rfl | deeper
      · exact ⟨node, Tree.mem_nodes_self node, stands.span⟩
      · exact stands.inside inner deeper
    · exact made.standsFor item inside
  converts item member := by
    rw [Expr.items, List.mem_cons] at member
    rcases member with rfl | inside
    · exact ⟨body, rfl⟩
    · exact made.converts item inside
  lambdas place := by
    rw [Expr.items, List.countP_cons_of_neg (by exact Bool.false_ne_true)]
    exact made.lambdas place

end MadeOf

/-! ### What nodes are lowered to -/

/-- Whether a node is lowered, at any place, to items that are made of it. -/
structure Tree.LowersOnce (tree : Tree) : Prop where
  expression : ∀ {place : Site} {expr : Expr}, place.expr? tree = some expr →
    MadeOf expr.items tree.nodes
  declaration : ∀ {place : Site} {lowered : Declaration}, place.declaration? tree = some lowered →
    MadeOf lowered.items tree.nodes

namespace Site

variable {place : Site} {tree : Tree}

theorem madeOf_exprs (place : Site) (trees : List Tree)
    (inner : ∀ child ∈ trees, child.LowersOnce) :
    MadeOf (itemsOfExprs (trees.filterMap place.expr?)) (Tree.nodesAmong trees) := by
  have made : MadeOf ((trees.filterMap place.expr?).flatMap Expr.items)
      (Tree.nodesAmong (trees.map id)) :=
    MadeOf.flatMap fun child member _ => (inner child member).expression
  rw [List.map_id] at made
  rw [itemsOfExprs_eq_flatMap]
  exact made

theorem madeOf_declarations (place : Site) (trees : List Tree)
    (inner : ∀ child ∈ trees, child.LowersOnce) :
    MadeOf (itemsOfDeclarations (trees.filterMap place.declaration?)) (Tree.nodesAmong trees) := by
  have made : MadeOf ((trees.filterMap place.declaration?).flatMap Declaration.items)
      (Tree.nodesAmong (trees.map id)) :=
    MadeOf.flatMap fun child member _ => (inner child member).declaration
  rw [List.map_id] at made
  rw [itemsOfDeclarations_eq_flatMap]
  exact made

/-- Passing an argument on adds a conversion of its lambda at most. -/
theorem madeOf_passed {expr : Expr} {nodes : List Tree} (made : MadeOf expr.items nodes)
    (place : Site) (function? : Option FunctionSymbol) (slot : ArgumentSlot) :
    MadeOf (place.passed function? slot expr).items nodes := by
  cases expr with
  | lambda span body =>
    rw [passed]
    split
    case h_1 type owner _ => exact made.conversion type owner
    case h_2 => exact made
  | call span callee receiver arguments => exact made
  | conversion span type owner operand => exact made
  | declaration lowered => exact made
  | group span children => exact made

section

variable (inner : ∀ child : Tree, sizeOf child < sizeOf tree → child.LowersOnce)

include inner

theorem madeOf_group (place : Site) : MadeOf (place.group tree).items tree.nodes := by
  have children := place.madeOf_exprs tree.namedChildren fun child member =>
    inner child (Tree.sizeOf_lt_of_mem_namedChildren member)
  have below := children.ofBelow (Tree.nodesAmong_namedChildren_sublist tree).subperm
  rw [group_eq]
  exact below.cons rfl rfl trivial fun _ => rfl

theorem madeOf_lambda (place : Site) (isLambda : tree.kind = "lambda_literal") :
    MadeOf (place.lambda tree).items tree.nodes := by
  have statements := place.madeOf_exprs tree.statementTrees fun child member =>
    inner child (Tree.sizeOf_lt_of_mem_filter member)
  rw [lambda_eq]
  refine statements.lambda isLambda (List.Sublist.subperm (List.Sublist.trans ?_
    (Tree.nodesAmong_namedChildren_sublist tree)))
  exact Tree.nodesAmong_sublist List.filter_sublist

theorem madeOf_body (place : Site) :
    MadeOf (itemsOfExprs (tree.bodyTrees.filterMap place.expr?)) tree.nodes := by
  have body := place.madeOf_exprs tree.bodyTrees fun child member =>
    inner child (Tree.sizeOf_lt_of_mem_filter member)
  refine body.ofBelow (List.Sublist.subperm (List.Sublist.trans ?_
    (Tree.nodesAmong_namedChildren_sublist tree)))
  exact Tree.nodesAmong_sublist List.filter_sublist

theorem madeOf_parts {parts : CallParts} (read : CallParts.ofTree? tree = some parts)
    (place : Site) (function? : Option FunctionSymbol) :
    MadeOf (itemsOfReceiver (parts.receiver?.bind place.expr?) ++
      itemsOfExprs ((parts.arguments place.content).filterMap fun argument =>
        (place.expr? argument.1).map (place.passed function? argument.2))) tree.nodes := by
  have receiver : MadeOf (itemsOfReceiver (parts.receiver?.bind place.expr?))
      (Tree.nodesAmong parts.receiver?.toList) := by
    cases path : parts.receiver? with
    | none => exact MadeOf.nil _
    | some child =>
      rw [Option.bind_some, Option.toList_some, Tree.nodesAmong_singleton]
      cases lowered : place.expr? child with
      | none => exact MadeOf.nil _
      | some expr =>
        exact (inner child (CallParts.sizeOf_lt_of_receiver? read path)).expression lowered
  have arguments : MadeOf (itemsOfExprs ((parts.arguments place.content).filterMap
      fun argument => (place.expr? argument.1).map (place.passed function? argument.2)))
      (Tree.nodesAmong ((parts.arguments place.content).map (·.1))) := by
    rw [itemsOfExprs_eq_flatMap]
    refine MadeOf.flatMap fun argument member expr found => ?_
    obtain ⟨plain, lowered, rfl⟩ := Option.map_eq_some_iff.mp found
    have smaller := CallParts.sizeOf_lt_of_mem_arguments read member
    exact madeOf_passed ((inner argument.1 smaller).expression lowered) place _ _
  exact (receiver.append arguments).ofBelow (Tree.nodesAmong_callParts_subperm read place.content)

theorem madeOf_call (place : Site) : MadeOf (place.call tree).items tree.nodes := by
  rw [call_eq]
  cases read : CallParts.ofTree? tree with
  | none => exact madeOf_group inner place
  | some parts =>
    dsimp only
    cases found : place.converted? parts with
    | some target =>
      obtain ⟨literal, type, owner⟩ := target
      have only := onlyLambda?_of_converted? found
      have smaller := CallParts.sizeOf_lt_of_onlyLambda? read only
      have lambda := madeOf_lambda (fun child less => inner child (Nat.lt_trans less smaller)) place
        (Tree.kind_of_onlyLambda? read only)
      have below := Tree.nodes_sublist_of_mem (Tree.mem_nodes_of_onlyLambda? read only)
      dsimp only
      rw [lambda_eq] at lambda ⊢
      exact (lambda.conversion type owner).mono below.subperm
    | none => exact (madeOf_parts inner read place _).cons rfl rfl trivial fun _ => rfl

theorem madeOf_declaration {lowered : Declaration}
    (found : place.declaration? tree = some lowered) :
    MadeOf lowered.items tree.nodes := by
  cases declares_of_declaration? found with
  | function | property => exact (madeOf_body inner _).cons rfl rfl trivial fun _ => rfl
  | @classLike _ _ within =>
    have members := within.madeOf_declarations tree.memberTrees fun child member =>
      inner child (Tree.sizeOf_lt_of_mem_memberTrees member)
    have initializers := within.madeOf_exprs tree.initializerTrees fun child member =>
      inner child (Tree.sizeOf_lt_of_mem_initializerTrees member)
    have both := (members.append initializers).ofBelow (Tree.nodesAmong_classParts_subperm tree)
    exact both.cons rfl rfl trivial fun _ => rfl

theorem madeOf_expr {expr : Expr} (found : place.expr? tree = some expr) :
    MadeOf expr.items tree.nodes := by
  cases expresses_of_expr? found with
  | call => exact madeOf_call inner place
  | lambda kind => exact madeOf_lambda inner place kind
  | @annotated literal kind sought =>
    have smaller := Tree.sizeOf_find?_lt (by simp [kind]) sought
    have isLambda : literal.kind = "lambda_literal" :=
      List.mem_singleton.mp (List.contains_iff_mem.mp (Tree.contains_kind_of_find? sought))
    have lambda := madeOf_lambda (fun child less => inner child (Nat.lt_trans less smaller)) place
      isLambda
    exact lambda.mono (Tree.nodes_sublist_of_mem (Tree.mem_nodes_of_find? sought)).subperm
  | declaration declared sought =>
    exact (madeOf_declaration inner sought).cons (span_of_declaration? sought) rfl trivial
      fun _ => rfl
  | group => exact madeOf_group inner place

end

end Site

/-- Every node is lowered to items that are made of it. -/
theorem Tree.lowersOnce (tree : Tree) : tree.LowersOnce :=
  have inner : ∀ child : Tree, sizeOf child < sizeOf tree → child.LowersOnce :=
    fun child _ => lowersOnce child
  ⟨fun found => Site.madeOf_expr inner found, fun found => Site.madeOf_declaration inner found⟩
termination_by sizeOf tree

/-- What a file is lowered to is made of the nodes of its syntax tree. -/
theorem SourceFile.madeOf (site : Site) (root : Tree) :
    MadeOf (SourceFile.ofTree site root).items root.nodes := by
  rw [SourceFile.items, SourceFile.ofTree]
  dsimp only
  generalize kept : root.namedChildren.filter _ = trees
  have declarations := site.madeOf_declarations (trees.filter (·.isDeclaration))
    fun child _ => child.lowersOnce
  have statements := site.madeOf_exprs (trees.filter (!·.isDeclaration))
    fun child _ => child.lowersOnce
  have both := declarations.append statements
  rw [← Tree.nodesAmong_append] at both
  refine both.ofBelow ((Tree.nodesAmong_subperm (List.filter_append_perm _ _).subperm).trans ?_)
  rw [← kept]
  exact ((Tree.nodesAmong_sublist List.filter_sublist).trans
    (Tree.nodesAmong_namedChildren_sublist root)).subperm

/-! ### Conversions and their lambdas -/

section

variable (place : Span)

/-- Whether items hold no more conversions at a place than lambdas. -/
def ConvertsEachOnce (items : List Item) : Prop :=
  items.countP (·.isConversionAt place) ≤ items.countP (·.isLambdaAt place)

variable {place}

theorem ConvertsEachOnce.append {front back : List Item} (first : ConvertsEachOnce place front)
    (second : ConvertsEachOnce place back) : ConvertsEachOnce place (front ++ back) := by
  rw [ConvertsEachOnce, List.countP_append, List.countP_append]
  exact Nat.add_le_add first second

/-- An item that is no conversion leaves enough lambdas. -/
theorem ConvertsEachOnce.cons {item : Item} {items : List Item}
    (others : ConvertsEachOnce place items) (noConversion : item.isConversionAt place = false) :
    ConvertsEachOnce place (item :: items) := by
  rw [ConvertsEachOnce, List.countP_cons_of_neg (Bool.eq_false_iff.mp noConversion),
    List.countP_cons]
  exact Nat.le_add_right_of_le others

/-- A conversion comes with its own lambda. -/
theorem ConvertsEachOnce.conversion {span : Option Span} {body : List Expr}
    (others : ConvertsEachOnce place (itemsOfExprs body)) (type : TypeRef) (owner : ClassHeader) :
    ConvertsEachOnce place (Expr.conversion span type owner (.lambda span body)).items := by
  have same : Item.isConversionAt place (.expression (.conversion span type owner
      (.lambda span body))) = Item.isLambdaAt place (.expression (.lambda span body)) := rfl
  have ofLambda : Item.isConversionAt place (.expression (.lambda span body)) = false := rfl
  have ofConversion : Item.isLambdaAt place (.expression (.conversion span type owner
      (.lambda span body))) = false := rfl
  rw [ConvertsEachOnce, Expr.items, Expr.items, List.countP_cons, List.countP_cons,
    List.countP_cons, List.countP_cons, same, ofLambda, ofConversion]
  exact Nat.add_le_add_right others _

mutual

theorem Declaration.convertsEachOnce : ∀ declaration : Declaration,
    (∀ item ∈ declaration.items, item.ConvertsLambda) → ConvertsEachOnce place declaration.items
  | .classLike header span members initializers, converts => by
    rw [Declaration.items, List.forall_mem_cons, List.forall_mem_append] at converts
    exact ((convertsEachOnce_declarations members converts.2.1).append
      (convertsEachOnce_exprs initializers converts.2.2)).cons rfl
  | .function name fqn annotations receiver parameters span body, converts => by
    rw [Declaration.items, List.forall_mem_cons] at converts
    exact (convertsEachOnce_exprs body converts.2).cons rfl
  | .property name fqn annotations span body, converts => by
    rw [Declaration.items, List.forall_mem_cons] at converts
    exact (convertsEachOnce_exprs body converts.2).cons rfl

theorem convertsEachOnce_declarations : ∀ declarations : List Declaration,
    (∀ item ∈ itemsOfDeclarations declarations, item.ConvertsLambda) →
      ConvertsEachOnce place (itemsOfDeclarations declarations)
  | [], _ => Nat.le_refl _
  | first :: rest, converts => by
    rw [itemsOfDeclarations, List.forall_mem_append] at converts
    exact (Declaration.convertsEachOnce first converts.1).append
      (convertsEachOnce_declarations rest converts.2)

theorem Expr.convertsEachOnce : ∀ expr : Expr,
    (∀ item ∈ expr.items, item.ConvertsLambda) → ConvertsEachOnce place expr.items
  | .call span callee receiver arguments, converts => by
    rw [Expr.items, List.forall_mem_cons, List.forall_mem_append] at converts
    exact ((convertsEachOnce_receiver receiver converts.2.1).append
      (convertsEachOnce_exprs arguments converts.2.2)).cons rfl
  | .conversion span type owner (.lambda own body), converts => by
    rw [Expr.items, Expr.items, List.forall_mem_cons, List.forall_mem_cons] at converts
    obtain ⟨_, same⟩ := converts.1
    cases same
    exact (convertsEachOnce_exprs body converts.2.2).conversion type owner
  | .conversion span type owner (.call _ _ _ _), converts =>
    absurd (converts _ List.mem_cons_self) fun ⟨_, same⟩ => nomatch same
  | .conversion span type owner (.conversion _ _ _ _), converts =>
    absurd (converts _ List.mem_cons_self) fun ⟨_, same⟩ => nomatch same
  | .conversion span type owner (.declaration _), converts =>
    absurd (converts _ List.mem_cons_self) fun ⟨_, same⟩ => nomatch same
  | .conversion span type owner (.group _ _), converts =>
    absurd (converts _ List.mem_cons_self) fun ⟨_, same⟩ => nomatch same
  | .lambda span body, converts => by
    rw [Expr.items, List.forall_mem_cons] at converts
    exact (convertsEachOnce_exprs body converts.2).cons rfl
  | .declaration lowered, converts => by
    rw [Expr.items, List.forall_mem_cons] at converts
    exact (Declaration.convertsEachOnce lowered converts.2).cons rfl
  | .group span children, converts => by
    rw [Expr.items, List.forall_mem_cons] at converts
    exact (convertsEachOnce_exprs children converts.2).cons rfl

theorem convertsEachOnce_receiver : ∀ receiver : Option Expr,
    (∀ item ∈ itemsOfReceiver receiver, item.ConvertsLambda) →
      ConvertsEachOnce place (itemsOfReceiver receiver)
  | none, _ => Nat.le_refl _
  | some receiver, converts => Expr.convertsEachOnce receiver converts

theorem convertsEachOnce_exprs : ∀ exprs : List Expr,
    (∀ item ∈ itemsOfExprs exprs, item.ConvertsLambda) →
      ConvertsEachOnce place (itemsOfExprs exprs)
  | [], _ => Nat.le_refl _
  | first :: rest, converts => by
    rw [itemsOfExprs, List.forall_mem_append] at converts
    exact (Expr.convertsEachOnce first converts.1).append
      (convertsEachOnce_exprs rest converts.2)

end

end

/-! ### Whole files -/

/-- Whether a source file keeps the blocks of a tree apart: everything lies inside of what it is
below, a conversion is one of the lambda at its own place, and there are no more lambdas at a place
than literals in the tree, and no more conversions than lambdas. -/
structure SourceFile.KeepsBlocks (file : SourceFile) (root : Tree) : Prop where
  nested : ∀ outer ∈ file.items, ∀ inner ∈ outer.items, inner.LiesIn outer
  operand : ∀ span type owner operand,
    Item.expression (.conversion span type owner operand) ∈ file.items →
      ∃ body, operand = .lambda span body
  lambdas : ∀ place, file.items.countP (·.isLambdaAt place) ≤
    root.nodes.countP (·.isLambdaAt place)
  conversions : ∀ place, file.items.countP (·.isConversionAt place) ≤
    file.items.countP (·.isLambdaAt place)

/-- A file with a well-formed tree is lowered, with any symbols, to a source file that keeps the
blocks of the tree apart. So no block is lowered or converted twice. -/
theorem ParsedFile.keepsBlocks_lower (file : ParsedFile) (symbols : SymbolTable)
    (markers : MarkerNames) (wellFormed : file.root.WellFormed file.document.content) :
    (file.lower symbols markers).KeepsBlocks file.root := by
  have made : MadeOf (file.lower symbols markers).items file.root.nodes :=
    SourceFile.madeOf (file.site symbols markers) file.root
  constructor
  case nested =>
    intro outer member inner inside
    obtain ⟨node, known, stands⟩ := made.standsFor outer member
    obtain ⟨below, deeper, span⟩ := stands.inside inner inside
    exact ⟨below.span, node.span, span, stands.span, (wellFormed.ofMem known).within deeper⟩
  case operand => exact fun span type owner operand member => made.converts _ member
  case lambdas => exact made.lambdas
  case conversions =>
    intro place
    have converts := made.converts
    rw [SourceFile.items, List.forall_mem_append] at converts
    exact (convertsEachOnce_declarations _ converts.1).append
      (convertsEachOnce_exprs _ converts.2)

/-- The script with a block that is converted. -/
theorem scriptFile_keepsBlocks_lower :
    scriptFile.root.WellFormed scriptFile.document.content ∧
      Item.expression (.blockConversion "A" scriptOwner 70) ∈
        (scriptFile.lower (symbolsOf {} [scriptFile]) {}).items ∧
      (scriptFile.lower (symbolsOf {} [scriptFile]) {}).KeepsBlocks scriptFile.root := by
  have wellFormed : scriptFile.root.WellFormed scriptFile.document.content := by decide +kernel
  exact ⟨wellFormed, blockConversion_mem_items_script,
    ParsedFile.keepsBlocks_lower scriptFile _ _ wellFormed⟩

end SourceCapture
