/-
No part of a node is lowered twice. The nodes that lowering goes on to from a node stand side by
side: taken together with everything below them they are a part of what is below the node, and
what is there several times is taken at most as often. For the body of a class this is because
its nodes are either members or initializers, and for a call because the receiver comes from the
callee and every other part of the call is a value, a lambda or a list of type arguments.
-/

import Mathlib.Data.List.Flatten
import Mathlib.Data.List.Perm.Subperm
import SourceCapture.Proofs.Trees
import SourceCapture.Proofs.Uncommented

namespace SourceCapture.Tree

/-! ### Nodes below several nodes -/

theorem nodes_eq_cons (tree : Tree) : tree.nodes = tree :: nodesAmong tree.children := by
  cases tree
  rfl

theorem nodesAmong_append (front back : List Tree) :
    nodesAmong (front ++ back) = nodesAmong front ++ nodesAmong back := by
  rw [nodesAmong_eq_flatMap, nodesAmong_eq_flatMap, nodesAmong_eq_flatMap, List.flatMap_append]

theorem nodesAmong_singleton (tree : Tree) : nodesAmong [tree] = tree.nodes := by
  rw [nodesAmong, nodesAmong, List.append_nil]

theorem nodesAmong_sublist {some all : List Tree} (sublist : some.Sublist all) :
    (nodesAmong some).Sublist (nodesAmong all) := by
  rw [nodesAmong_eq_flatMap, nodesAmong_eq_flatMap]
  exact sublist.flatMap nodes

theorem nodesAmong_subperm {some all : List Tree} (subperm : some.Subperm all) :
    (nodesAmong some).Subperm (nodesAmong all) := by
  obtain ⟨ordered, perm, sublist⟩ := subperm
  refine ⟨nodesAmong ordered, ?_, nodesAmong_sublist sublist⟩
  rw [nodesAmong_eq_flatMap, nodesAmong_eq_flatMap]
  exact perm.flatMap_right nodes

/-- With every node the nodes below it are below, in their order. -/
theorem nodes_sublist_of_mem {inner outer : Tree} (member : inner ∈ outer.nodes) :
    inner.nodes.Sublist outer.nodes := by
  induction outer using Tree.induction with
  | step outer inductionHypothesis =>
    rcases (mem_nodes_iff inner outer).mp member with rfl | ⟨child, childMember, deeper⟩
    · exact List.Sublist.refl _
    · have among : child.nodes.Sublist (nodesAmong outer.children) := by
        rw [← nodesAmong_singleton]
        exact nodesAmong_sublist (List.singleton_sublist.mpr childMember)
      rw [nodes_eq_cons outer]
      exact ((inductionHypothesis child childMember deeper).trans among).cons _

theorem nodesAmong_namedChildren_sublist (tree : Tree) :
    (nodesAmong tree.namedChildren).Sublist (nodesAmong tree.children) :=
  nodesAmong_sublist List.filter_sublist

/-- What is read off nodes one by one, each time from below the node itself, is not read twice. -/
theorem nodesAmong_filterMap_sublist {read : Tree → Option Tree}
    (below : ∀ tree found, read tree = some found → found ∈ tree.nodes) (trees : List Tree) :
    (nodesAmong (trees.filterMap read)).Sublist (nodesAmong trees) := by
  induction trees with
  | nil => exact List.Sublist.refl _
  | cons first rest inductionHypothesis =>
    rw [List.filterMap_cons, nodesAmong]
    cases found : read first with
    | none => exact inductionHypothesis.trans (List.sublist_append_right _ _)
    | some inner =>
      exact (nodes_sublist_of_mem (below first inner found)).append inductionHypothesis

/-! ### The bodies of classes -/

mutual

theorem nodesAmong_bodyNodes_sublist : ∀ tree : Tree,
    (nodesAmong tree.bodyNodes).Sublist tree.nodes
  | .node _ _ _ _ children => (nodesAmong_bodyNodesAmong_sublist children).cons _

theorem nodesAmong_bodyNodesAmong_sublist : ∀ trees : List Tree,
    (nodesAmong (bodyNodesAmong trees)).Sublist (nodesAmong trees)
  | [] => List.Sublist.refl _
  | first :: rest => by
    rw [bodyNodesAmong, nodesAmong_append, nodesAmong]
    refine List.Sublist.append ?_ (nodesAmong_bodyNodesAmong_sublist rest)
    split
    · exact List.nil_sublist _
    · split
      · exact nodesAmong_bodyNodes_sublist first
      · rw [nodesAmong_singleton]

end

/-- The nodes that a child of a class adds to the members and the initializers. -/
def classParts (child : Tree) : List Tree :=
  if child.isClassBody then child.bodyNodes
  else if headerKinds.contains child.kind then []
  else [child]

theorem nodesAmong_classParts_sublist (child : Tree) :
    (nodesAmong child.classParts).Sublist child.nodes := by
  rw [classParts]
  split
  · exact nodesAmong_bodyNodes_sublist child
  · split
    · exact List.nil_sublist _
    · rw [nodesAmong_singleton]

theorem memberTrees_eq_flatMap (tree : Tree) :
    tree.memberTrees = tree.namedChildren.flatMap fun child =>
      if child.isClassBody then child.bodyNodes.filter (·.isDeclaration) else [] := by
  rw [memberTrees]
  induction tree.namedChildren with
  | nil => rfl
  | cons first rest inductionHypothesis =>
    rw [List.filter_cons, List.flatMap_cons, ← inductionHypothesis]
    split
    · rw [List.flatMap_cons]
    · rw [List.nil_append]

/-- Every part of a class is either a member or an initializer. -/
theorem memberTrees_append_initializerTrees_perm (tree : Tree) :
    (tree.memberTrees ++ tree.initializerTrees).Perm (tree.namedChildren.flatMap classParts) := by
  rw [memberTrees_eq_flatMap, initializerTrees]
  refine (List.flatMap_append_perm _ _ _).trans (List.Perm.flatMap_left _ fun child _ => ?_)
  rw [classParts]
  split
  · exact List.filter_append_perm _ _
  · rw [List.nil_append]

theorem nodesAmong_classParts_subperm (tree : Tree) :
    (nodesAmong tree.memberTrees ++ nodesAmong tree.initializerTrees).Subperm
      (nodesAmong tree.children) := by
  rw [← nodesAmong_append]
  refine (nodesAmong_subperm (memberTrees_append_initializerTrees_perm tree).subperm).trans ?_
  refine List.Sublist.subperm (List.Sublist.trans ?_ (nodesAmong_namedChildren_sublist tree))
  rw [nodesAmong_eq_flatMap, nodesAmong_eq_flatMap, List.flatMap_assoc]
  refine List.Sublist.flatMap_right _ fun child _ => ?_
  rw [← nodesAmong_eq_flatMap]
  exact nodesAmong_classParts_sublist child

/-! ### The parts of calls -/

/-- The values in parentheses are below the nodes that hold them. -/
theorem nodesAmong_arguments_sublist (list : Tree) :
    (nodesAmong ((WrittenArgument.listOfTree list).map (·.value))).Sublist list.nodes := by
  rw [WrittenArgument.listOfTree, List.map_filterMap, nodes_eq_cons]
  refine List.Sublist.cons _ (List.Sublist.trans ?_ (nodesAmong_namedChildren_sublist list))
  refine nodesAmong_filterMap_sublist (fun node found read => ?_) _
  obtain ⟨argument, given, rfl⟩ := Option.map_eq_some_iff.mp read
  exact mem_nodes_of_ofTree? given

mutual

theorem nodesAmong_listOfTree_sublist : ∀ tree : Tree,
    (nodesAmong ((CallPiece.listOfTree tree).map CallPiece.tree)).Sublist tree.nodes
  | .node kind isNamed span field children => by
    rw [CallPiece.listOfTree]
    split
    · rw [List.map_map]
      exact nodesAmong_arguments_sublist _
    split
    · cases found : find? ["lambda_literal"] (.node kind isNamed span field children) with
      | none => exact List.nil_sublist _
      | some literal =>
        show (nodesAmong [literal]).Sublist _
        rw [nodesAmong_singleton]
        exact nodes_sublist_of_mem (mem_nodes_of_find? found)
    split
    · show (nodesAmong [_]).Sublist _
      rw [nodesAmong_singleton]
      exact List.Sublist.refl _
    split
    · show (nodesAmong [_]).Sublist _
      rw [nodesAmong_singleton]
      exact List.Sublist.refl _
    split
    · exact (nodesAmong_listAmong_sublist children).cons _
    · exact List.nil_sublist _

theorem nodesAmong_listAmong_sublist : ∀ trees : List Tree,
    (nodesAmong ((CallPiece.listAmong trees).map CallPiece.tree)).Sublist (nodesAmong trees)
  | [] => List.Sublist.refl _
  | first :: rest => by
    rw [CallPiece.listAmong, List.map_append, nodesAmong_append, nodesAmong]
    refine List.Sublist.append ?_ (nodesAmong_listAmong_sublist rest)
    split
    · exact nodesAmong_listOfTree_sublist first
    · exact List.nil_sublist _

end

/-- Every argument is another piece of the call. -/
theorem arguments_subperm (content : List Char) (parts : CallParts) :
    ((parts.arguments content).map (·.1)).Subperm (parts.pieces.map CallPiece.tree) := by
  have trees : (parts.arguments content).map (·.1) =
      parts.values.map (·.value) ++ parts.lambdas := by
    rw [CallParts.arguments, List.map_append, List.map_map, List.map_map]
    congr 1
    · show List.map ((·.value) ∘ Prod.fst) parts.values.zipIdx = _
      rw [← List.map_map, List.zipIdx_map_fst]
    · exact List.map_id' parts.lambdas
  rw [trees, CallParts.values, CallParts.lambdas]
  induction parts.pieces with
  | nil => exact List.Subperm.refl _
  | cons piece pieces inductionHypothesis =>
    cases piece with
    | value argument => exact (List.subperm_cons _).mpr inductionHypothesis
    | lambda literal =>
      refine (List.perm_middle.subperm).trans ?_
      exact (List.subperm_cons _).mpr inductionHypothesis
    | typeArguments list =>
      exact inductionHypothesis.trans (List.sublist_cons_self _ _).subperm

/-- What a call is lowered with are different parts of it. -/
theorem nodesAmong_callParts_subperm {tree : Tree} {parts : CallParts}
    (read : CallParts.ofTree? tree = some parts) (content : List Char) :
    (nodesAmong parts.receiver?.toList ++
      nodesAmong ((parts.arguments content).map (·.1))).Subperm (nodesAmong tree.children) := by
  refine List.Subperm.trans ?_ (nodesAmong_namedChildren_sublist tree).subperm
  rw [CallParts.ofTree?] at read
  split at read
  case h_1 => cases read
  case h_2 callee rest same =>
    rw [same, nodesAmong]
    refine List.Subperm.append (List.Sublist.subperm ?_) ?_
    · cases found : parts.receiver? with
      | none => exact List.nil_sublist _
      | some receiver =>
        rw [Option.toList_some, nodesAmong_singleton]
        have inCallee := nodes_sublist_of_mem (mem_calleeNodes_of_receiver? found)
        cases read
        exact inCallee
    · refine (nodesAmong_subperm (arguments_subperm content parts)).trans ?_
      cases read
      show (nodesAmong ((rest.flatMap CallPiece.listOfTree).map CallPiece.tree)).Subperm _
      rw [List.map_flatMap, nodesAmong_eq_flatMap, nodesAmong_eq_flatMap, List.flatMap_assoc]
      refine (List.Sublist.flatMap_right _ fun node _ => ?_).subperm
      rw [← nodesAmong_eq_flatMap]
      exact nodesAmong_listOfTree_sublist node

/-! ### The lambdas of calls -/

mutual

theorem kind_of_lambda_mem_listOfTree : ∀ {tree literal : Tree},
    CallPiece.lambda literal ∈ CallPiece.listOfTree tree → literal.kind = "lambda_literal"
  | .node kind isNamed span field children, literal, member => by
    rw [CallPiece.listOfTree] at member
    split at member
    · obtain ⟨argument, -, same⟩ := List.mem_map.mp member
      cases same
    split at member
    · obtain ⟨found, sought, same⟩ := Option.map_eq_some_iff.mp (Option.mem_toList.mp member)
      cases same
      exact List.mem_singleton.mp (List.contains_iff_mem.mp (contains_kind_of_find? sought))
    split at member
    case isTrue isLambda =>
      cases List.mem_singleton.mp member
      exact isLambda
    split at member
    · cases List.mem_singleton.mp member
    split at member
    · exact kind_of_lambda_mem_listAmong member
    · cases member

theorem kind_of_lambda_mem_listAmong : ∀ {trees : List Tree} {literal : Tree},
    CallPiece.lambda literal ∈ CallPiece.listAmong trees → literal.kind = "lambda_literal"
  | [], _, member => by cases member
  | first :: rest, _, member => by
    rw [CallPiece.listAmong, List.mem_append] at member
    rcases member with here | later
    · split at here
      · exact kind_of_lambda_mem_listOfTree here
      · cases here
    · exact kind_of_lambda_mem_listAmong later

end

theorem kind_of_mem_lambdas {tree literal : Tree} {parts : CallParts}
    (read : CallParts.ofTree? tree = some parts) (member : literal ∈ parts.lambdas) :
    literal.kind = "lambda_literal" := by
  obtain ⟨piece, pieceMember, same⟩ := List.mem_filterMap.mp member
  rw [CallParts.ofTree?] at read
  split at read
  case h_1 => cases read
  case h_2 callee rest _ =>
    cases read
    obtain ⟨node, -, inNode⟩ := List.mem_flatMap.mp pieceMember
    split at same
    · cases same
      exact kind_of_lambda_mem_listOfTree inNode
    · cases same

/-- The only argument of a call is a lambda itself. -/
theorem kind_of_onlyLambda? {tree literal : Tree} {parts : CallParts}
    (read : CallParts.ofTree? tree = some parts) (found : parts.onlyLambda? = some literal) :
    literal.kind = "lambda_literal" := by
  rw [CallParts.onlyLambda?] at found
  split at found
  case h_1 only _ same =>
    cases found
    exact kind_of_mem_lambdas read (by rw [same]; exact List.mem_cons_self)
  case h_2 value same _ =>
    split at found
    case isTrue isLambda =>
      cases found
      exact isLambda
    case isFalse => cases found
  case h_3 => cases found

end SourceCapture.Tree
