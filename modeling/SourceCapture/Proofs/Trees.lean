/-
What lies below a node of a syntax tree. Everything that lowering goes on to from a node, and
every annotation of a declaration, is the node itself or lies below it. In a well-formed tree
what lies below a node covers a part of the range of the node.
-/

import SourceCapture.Lowering
import SourceCapture.Proofs.Text.Cuts

namespace SourceCapture

/-- Whether a span covers a part of another one, or all of it. -/
def Span.Within (inner outer : Span) : Prop :=
  outer.start ≤ inner.start ∧ inner.stop ≤ outer.stop

instance (inner outer : Span) : Decidable (inner.Within outer) :=
  inferInstanceAs (Decidable (_ ∧ _))

theorem Span.Within.refl (span : Span) : span.Within span := ⟨Nat.le_refl _, Nat.le_refl _⟩

theorem Span.Within.trans {first second third : Span} (inner : first.Within second)
    (outer : second.Within third) : first.Within third :=
  ⟨Nat.le_trans outer.1 inner.1, Nat.le_trans inner.2 outer.2⟩

namespace Tree

/-! ### Nodes below a node -/

/-- What holds of a node once it holds of its children holds of all nodes. -/
theorem induction {motive : Tree → Prop}
    (step : ∀ tree, (∀ child ∈ tree.children, motive child) → motive tree) (tree : Tree) :
    motive tree :=
  step tree fun child member =>
    have := sizeOf_lt_of_mem_children member
    induction step child
termination_by sizeOf tree

theorem nodesAmong_eq_flatMap (trees : List Tree) : nodesAmong trees = trees.flatMap nodes := by
  induction trees with
  | nil => rfl
  | cons first rest inductionHypothesis =>
    rw [nodesAmong, inductionHypothesis, List.flatMap_cons]

theorem mem_nodes_iff (inner tree : Tree) :
    inner ∈ tree.nodes ↔ inner = tree ∨ ∃ child ∈ tree.children, inner ∈ child.nodes := by
  cases tree with
  | node kind isNamed span field children =>
    rw [nodes, List.mem_cons, nodesAmong_eq_flatMap, List.mem_flatMap]
    rfl

theorem mem_nodes_self (tree : Tree) : tree ∈ tree.nodes :=
  (mem_nodes_iff tree tree).mpr (Or.inl rfl)

theorem mem_nodes_trans {inner middle outer : Tree} (below : inner ∈ middle.nodes)
    (above : middle ∈ outer.nodes) : inner ∈ outer.nodes := by
  induction outer using Tree.induction with
  | step outer inductionHypothesis =>
    rcases (mem_nodes_iff middle outer).mp above with rfl | ⟨child, member, deeper⟩
    · exact below
    · exact (mem_nodes_iff inner outer).mpr
        (Or.inr ⟨child, member, inductionHypothesis child member deeper⟩)

theorem mem_nodes_of_mem_children {child tree : Tree} (member : child ∈ tree.children) :
    child ∈ tree.nodes :=
  (mem_nodes_iff child tree).mpr (Or.inr ⟨child, member, mem_nodes_self child⟩)

theorem mem_nodes_of_mem_namedChildren {child tree : Tree}
    (member : child ∈ tree.namedChildren) : child ∈ tree.nodes :=
  mem_nodes_of_mem_children (mem_children_of_mem_namedChildren member)

/-! ### What is found in a node -/

mutual

theorem mem_nodes_of_find? {kinds : List String} : ∀ {tree found : Tree},
    find? kinds tree = some found → found ∈ tree.nodes
  | .node kind isNamed span field children, found, result => by
    rw [find?] at result
    split at result
    · cases result
      exact mem_nodes_self _
    · exact List.mem_cons_of_mem _ (mem_nodesAmong_of_findAmong? result)

theorem mem_nodesAmong_of_findAmong? {kinds : List String} : ∀ {trees : List Tree}
    {found : Tree}, findAmong? kinds trees = some found → found ∈ nodesAmong trees
  | [], found, result => by cases result
  | first :: rest, found, result => by
    rw [findAmong?] at result
    rw [nodesAmong, List.mem_append]
    split at result
    · split at result
      case h_1 inner same =>
        cases result
        exact Or.inl (mem_nodes_of_find? same)
      case h_2 => exact Or.inr (mem_nodesAmong_of_findAmong? result)
    · exact Or.inr (mem_nodesAmong_of_findAmong? result)

end

mutual

theorem mem_nodes_of_mem_bodyNodes : ∀ {tree found : Tree}, found ∈ bodyNodes tree →
    found ∈ tree.nodes
  | .node _ _ _ _ _, _, member =>
    List.mem_cons_of_mem _ (mem_nodesAmong_of_mem_bodyNodesAmong member)

theorem mem_nodesAmong_of_mem_bodyNodesAmong : ∀ {trees : List Tree} {found : Tree},
    found ∈ bodyNodesAmong trees → found ∈ nodesAmong trees
  | [], found, member => by cases member
  | first :: rest, found, member => by
    rw [bodyNodesAmong, List.mem_append] at member
    rw [nodesAmong, List.mem_append]
    rcases member with here | later
    · split at here
      · cases here
      · split at here
        · exact Or.inl (mem_nodes_of_mem_bodyNodes here)
        · rw [List.mem_singleton] at here
          exact Or.inl (here ▸ mem_nodes_self first)
    · exact Or.inr (mem_nodesAmong_of_mem_bodyNodesAmong later)

end

theorem mem_nodes_of_mem_memberTrees {tree child : Tree} (member : child ∈ tree.memberTrees) :
    child ∈ tree.nodes ∧ child.isDeclaration = true := by
  obtain ⟨body, bodyMember, inBody⟩ := List.mem_flatMap.mp member
  obtain ⟨inside, declared⟩ := List.mem_filter.mp inBody
  exact ⟨mem_nodes_trans (mem_nodes_of_mem_bodyNodes inside)
    (mem_nodes_of_mem_namedChildren (List.mem_filter.mp bodyMember).1), declared⟩

theorem mem_nodes_of_mem_initializerTrees {tree child : Tree}
    (member : child ∈ tree.initializerTrees) : child ∈ tree.nodes := by
  obtain ⟨part, partMember, inPart⟩ := List.mem_flatMap.mp member
  have below := mem_nodes_of_mem_namedChildren partMember
  split at inPart
  · exact mem_nodes_trans (mem_nodes_of_mem_bodyNodes (List.mem_filter.mp inPart).1) below
  · split at inPart
    · cases inPart
    · rw [List.mem_singleton] at inPart
      exact inPart ▸ below

/-! ### The parts of a call -/

theorem mem_nodes_of_ofTree? {tree : Tree} {argument : WrittenArgument}
    (read : WrittenArgument.ofTree? tree = some argument) : argument.value ∈ tree.nodes := by
  rw [WrittenArgument.ofTree?] at read
  split at read
  · cases read
    exact mem_nodes_self tree
  · obtain ⟨value, last, rfl⟩ := Option.map_eq_some_iff.mp read
    exact mem_nodes_of_mem_namedChildren (List.mem_of_getLast? last)

theorem mem_nodes_of_mem_arguments {list : Tree} {argument : WrittenArgument}
    (member : argument ∈ WrittenArgument.listOfTree list) : argument.value ∈ list.nodes := by
  obtain ⟨node, nodeMember, read⟩ := List.mem_filterMap.mp member
  exact mem_nodes_trans (mem_nodes_of_ofTree? read) (mem_nodes_of_mem_namedChildren nodeMember)

mutual

theorem mem_nodes_of_mem_listOfTree : ∀ {tree : Tree} {piece : CallPiece},
    piece ∈ CallPiece.listOfTree tree → piece.tree ∈ tree.nodes
  | .node kind isNamed span field children, piece, member => by
    rw [CallPiece.listOfTree] at member
    split at member
    · obtain ⟨argument, argumentMember, rfl⟩ := List.mem_map.mp member
      exact mem_nodes_of_mem_arguments argumentMember
    · split at member
      · obtain ⟨literal, found, rfl⟩ := Option.map_eq_some_iff.mp (Option.mem_toList.mp member)
        exact mem_nodes_of_find? found
      · split at member
        · rw [List.mem_singleton.mp member]
          exact mem_nodes_self _
        · split at member
          · rw [List.mem_singleton.mp member]
            exact mem_nodes_self _
          · split at member
            · exact List.mem_cons_of_mem _ (mem_nodesAmong_of_mem_listAmong member)
            · cases member

theorem mem_nodesAmong_of_mem_listAmong : ∀ {trees : List Tree} {piece : CallPiece},
    piece ∈ CallPiece.listAmong trees → piece.tree ∈ nodesAmong trees
  | [], piece, member => by cases member
  | first :: rest, piece, member => by
    rw [CallPiece.listAmong, List.mem_append] at member
    rw [nodesAmong, List.mem_append]
    rcases member with here | later
    · split at here
      · exact Or.inl (mem_nodes_of_mem_listOfTree here)
      · cases here
    · exact Or.inr (mem_nodesAmong_of_mem_listAmong later)

end

section

variable {tree : Tree} {parts : CallParts}

theorem mem_nodes_callee (read : CallParts.ofTree? tree = some parts) :
    parts.callee ∈ tree.nodes := by
  rw [CallParts.ofTree?] at read
  split at read
  case h_1 => cases read
  case h_2 callee rest same =>
    cases read
    exact mem_nodes_of_mem_namedChildren (by rw [same]; exact List.mem_cons_self)

theorem mem_nodes_of_mem_pieces (read : CallParts.ofTree? tree = some parts) {piece : CallPiece}
    (member : piece ∈ parts.pieces) : piece.tree ∈ tree.nodes := by
  rw [CallParts.ofTree?] at read
  split at read
  case h_1 => cases read
  case h_2 callee rest same =>
    cases read
    obtain ⟨node, nodeMember, pieceMember⟩ := List.mem_flatMap.mp member
    have inside : node ∈ tree.namedChildren := by
      rw [same]
      exact List.mem_cons_of_mem _ nodeMember
    exact mem_nodes_trans (mem_nodes_of_mem_listOfTree pieceMember)
      (mem_nodes_of_mem_namedChildren inside)

theorem mem_nodes_of_mem_values (read : CallParts.ofTree? tree = some parts)
    {argument : WrittenArgument} (member : argument ∈ parts.values) :
    argument.value ∈ tree.nodes := by
  obtain ⟨piece, pieceMember, same⟩ := List.mem_filterMap.mp member
  split at same
  · cases same
    exact mem_nodes_of_mem_pieces read pieceMember
  · cases same

theorem mem_nodes_of_mem_lambdas (read : CallParts.ofTree? tree = some parts) {literal : Tree}
    (member : literal ∈ parts.lambdas) : literal ∈ tree.nodes := by
  obtain ⟨piece, pieceMember, same⟩ := List.mem_filterMap.mp member
  split at same
  · cases same
    exact mem_nodes_of_mem_pieces read pieceMember
  · cases same

theorem mem_nodes_of_mem_callArguments (read : CallParts.ofTree? tree = some parts)
    {content : List Char} {argument : Tree × ArgumentSlot}
    (member : argument ∈ parts.arguments content) : argument.1 ∈ tree.nodes := by
  rw [CallParts.arguments, List.mem_append] at member
  rcases member with value | literal
  · obtain ⟨entry, entryMember, rfl⟩ := List.mem_map.mp value
    exact mem_nodes_of_mem_values read (List.fst_mem_of_mem_zipIdx entryMember)
  · obtain ⟨tree, treeMember, rfl⟩ := List.mem_map.mp literal
    exact mem_nodes_of_mem_lambdas read treeMember

/-- The receiver of a call is below its callee. -/
theorem mem_calleeNodes_of_receiver? {receiver : Tree}
    (found : parts.receiver? = some receiver) : receiver ∈ parts.callee.nodes := by
  rw [CallParts.receiver?] at found
  split at found
  · cases found
  · split at found
    · split at found
      case h_1 first second rest same =>
        cases found
        exact mem_nodes_of_mem_namedChildren (by rw [same]; exact List.mem_cons_self)
      case h_2 => cases found
    · cases found
      exact mem_nodes_self _

theorem mem_nodes_of_receiver? (read : CallParts.ofTree? tree = some parts) {receiver : Tree}
    (found : parts.receiver? = some receiver) : receiver ∈ tree.nodes :=
  mem_nodes_trans (mem_calleeNodes_of_receiver? found) (mem_nodes_callee read)

theorem mem_nodes_of_onlyLambda? (read : CallParts.ofTree? tree = some parts) {literal : Tree}
    (found : parts.onlyLambda? = some literal) : literal ∈ tree.nodes := by
  rw [CallParts.onlyLambda?] at found
  split at found
  case h_1 only _ same =>
    cases found
    exact mem_nodes_of_mem_lambdas read (by rw [same]; exact List.mem_cons_self)
  case h_2 value same _ =>
    split at found
    · cases found
      have member : (⟨none, literal⟩ : WrittenArgument) ∈ parts.values := by
        rw [same]
        exact List.mem_cons_self
      exact mem_nodes_of_mem_values read member
    · cases found
  case h_3 => cases found

end

/-! ### Annotations -/

mutual

theorem mem_nodes_of_mem_modifiersAt {content : List Char} : ∀ {tree note : Tree},
    note ∈ (modifiersAt content tree).annotations → note ∈ tree.nodes
  | .node kind isNamed span field children, note, member => by
    rw [modifiersAt] at member
    split at member
    · rw [List.mem_singleton.mp member]
      exact mem_nodes_self _
    · split at member
      · cases member
      · exact List.mem_cons_of_mem _ (mem_nodesAmong_of_mem_modifiersAmong member)

theorem mem_nodesAmong_of_mem_modifiersAmong {content : List Char} : ∀ {trees : List Tree}
    {note : Tree}, note ∈ (modifiersAmong content trees).annotations → note ∈ nodesAmong trees
  | [], note, member => by cases member
  | first :: rest, note, member => by
    rw [modifiersAmong, List.mem_append] at member
    rw [nodesAmong, List.mem_append]
    exact member.imp mem_nodes_of_mem_modifiersAt mem_nodesAmong_of_mem_modifiersAmong

end

/-- The annotations of a declaration lie below it. -/
theorem mem_nodes_of_mem_annotations {content : List Char} {tree note : Tree}
    (member : note ∈ (tree.modifiers content).annotations) : note ∈ tree.nodes := by
  rw [modifiers] at member
  split at member
  case h_1 list found =>
    have inList : note ∈ list.nodes := by
      obtain ⟨child, childMember, deeper⟩ := List.mem_flatMap.mp
        (nodesAmong_eq_flatMap _ ▸ mem_nodesAmong_of_mem_modifiersAmong member)
      exact (mem_nodes_iff note list).mpr (Or.inr ⟨child, childMember, deeper⟩)
    exact mem_nodes_trans inList (mem_nodes_of_mem_children (List.mem_of_find?_eq_some found))
  case h_2 => cases member

/-! ### Well-formed trees -/

/-- Whether the nodes of a tree cover ranges of a text, each of them inside of its parent. -/
structure WellFormed (content : List Char) (tree : Tree) : Prop where
  fits : ∀ node ∈ tree.nodes, node.span.Fits content
  nested : ∀ node ∈ tree.nodes, ∀ child ∈ node.children, child.span.Within node.span

instance (content : List Char) (tree : Tree) : Decidable (tree.WellFormed content) :=
  decidable_of_iff ((∀ node ∈ tree.nodes, node.span.Fits content) ∧
    ∀ node ∈ tree.nodes, ∀ child ∈ node.children, child.span.Within node.span)
    ⟨fun ⟨fits, nested⟩ => ⟨fits, nested⟩, fun wellFormed => ⟨wellFormed.fits, wellFormed.nested⟩⟩

variable {content : List Char} {tree : Tree}

/-- The nodes of a well-formed tree are well-formed trees. -/
theorem WellFormed.ofMem (wellFormed : tree.WellFormed content) {inner : Tree}
    (member : inner ∈ tree.nodes) : inner.WellFormed content where
  fits node below := wellFormed.fits node (mem_nodes_trans below member)
  nested node below := wellFormed.nested node (mem_nodes_trans below member)

/-- What lies below a node covers a part of its range. -/
theorem WellFormed.within (wellFormed : tree.WellFormed content) {inner : Tree}
    (member : inner ∈ tree.nodes) : inner.span.Within tree.span := by
  induction tree using Tree.induction with
  | step tree inductionHypothesis =>
    rcases (mem_nodes_iff inner tree).mp member with rfl | ⟨child, childMember, deeper⟩
    · exact Span.Within.refl _
    · have below := wellFormed.ofMem (mem_nodes_of_mem_children childMember)
      exact (inductionHypothesis child childMember below deeper).trans
        (wellFormed.nested tree (mem_nodes_self tree) child childMember)

end Tree

end SourceCapture
