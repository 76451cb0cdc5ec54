/-
What nodes are lowered to without the comments in argument lists, one kind of node at a time.
Nothing is lowered from a comment itself. A lambda and a group come out the same just when the nodes
inside do, and so do a call that means the same and a declaration with the same heading. A call
can only mean something else if a comment stands among its own arguments.
-/

import SourceCapture.Proofs.Lowering.Reached
import SourceCapture.Proofs.Lowering.UncommentedCalls

namespace SourceCapture

/-! ### Annotations -/

/-- An annotation that keeps its arguments has no comments among them. -/
theorem Annotation.no_comment_of_argumentsAt_eq {site : Site} {tree list : Tree}
    (found : tree.find? ["value_arguments"] = some list)
    (same : argumentsAt site tree = argumentsAt site tree.uncommented) :
    ∀ argument ∈ list.namedChildren, argument.isCommentLeaf = false := by
  have isList : list.kind = "value_arguments" := by
    simpa using Tree.contains_kind_of_find? found
  have lengths := congrArg List.length same
  rw [argumentsAt, argumentsAt, Tree.find?_uncommented (by decide), found] at lengths
  dsimp only [Option.map_some] at lengths
  rw [List.length_map, List.length_map, WrittenArgument.length_listOfTree_uncommented isList,
    Nat.add_eq_left, List.length_eq_zero_iff, List.filter_eq_nil_iff] at lengths
  exact fun argument member => Bool.eq_false_iff.mpr (lengths argument member)

/-! ### Headers -/

namespace ClassHeader

theorem typeParametersOf_uncommented (content : List Char) (tree : Tree) :
    typeParametersOf content tree.uncommented = typeParametersOf content tree := by
  rw [typeParametersOf, typeParametersOf, Tree.childOfKind?_uncommented (by decide)]
  cases tree.childOfKind? ["type_parameters"] with
  | none => rfl
  | some list =>
    dsimp only [Option.map_some]
    rw [Tree.text_uncommented]

theorem isSome_ofTree?_uncommented (site : Site) (tree : Tree) :
    (ofTree? site tree.uncommented).isSome =
      (ofTree? site tree).isSome := by
  rw [ofTree?, ofTree?, Option.isSome_map, Option.isSome_map, Tree.declarationName?_uncommented]

end ClassHeader

namespace FunctionHeader

theorem signature?_uncommented (content : List Char) (tree parameters : Tree) :
    signature? content tree.uncommented parameters.uncommented =
      signature? content tree parameters := by
  rw [signature?, signature?, Tree.childOfKind?_uncommented (by decide), Tree.span_uncommented]
  cases tree.childOfKind? ["fun"] with
  | none => rfl
  | some keyword =>
    show Option.bind (Text.slice? content ⟨keyword.uncommented.span.stop, _⟩) _ = _
    rw [Tree.span_uncommented]
    rfl

/-- Without the comments a function has the same header up to its annotations. -/
theorem ofTree?_uncommented (site : Site) (tree : Tree) :
    ofTree? site tree.uncommented = (ofTree? site tree).map fun header =>
      { header with annotations := Annotation.listOfTree site tree.uncommented } := by
  rw [ofTree?, ofTree?, Tree.childOfKind?_uncommented (by decide)]
  cases tree.childOfKind? ["function_value_parameters"] with
  | none => rfl
  | some list =>
    show Option.bind (signature? site.content tree.uncommented list.uncommented) _ =
      Option.map _ (Option.bind (signature? site.content tree list) _)
    rw [signature?_uncommented]
    cases signature? site.content tree list with
    | none => rfl
    | some signature =>
      have split : splitTypeParameters? site.content tree.uncommented signature =
          splitTypeParameters? site.content tree signature := by
        rw [splitTypeParameters?, splitTypeParameters?,
          ClassHeader.typeParametersOf_uncommented]
      show Option.bind (splitTypeParameters? site.content tree.uncommented signature) _ =
        Option.map _ (Option.bind (splitTypeParameters? site.content tree signature) _)
      rw [split]
      cases splitTypeParameters? site.content tree signature with
      | none => rfl
      | some parts =>
        simp only [Option.bind_some, Tree.text_uncommented]
        split <;> rfl

end FunctionHeader

namespace Site

theorem isSome_heading?_uncommented (site : Site) (tree : Tree) :
    (site.heading? tree.uncommented).isSome = (site.heading? tree).isSome := by
  rw [heading?, heading?, Tree.kind_uncommented, FunctionHeader.ofTree?_uncommented,
    Tree.propertyName?_uncommented]
  split
  · rw [Option.isSome_map, Option.isSome_map, Option.isSome_map]
  · split
    · rw [Option.isSome_map, Option.isSome_map]
    · rw [Option.isSome_map, Option.isSome_map, ClassHeader.isSome_ofTree?_uncommented]

end Site

/-! ### Nodes inside -/

theorem Tree.literal?_uncommented (tree : Tree) :
    tree.uncommented.literal? = tree.literal?.map uncommented := by
  rw [literal?, literal?, kind_uncommented]
  split
  · rfl
  · split
    · exact find?_uncommented (by decide) tree
    · rfl

namespace Site

variable {site : Site}

theorem expr?_of_isCommentLeaf {tree : Tree} (comment : tree.isCommentLeaf = true) :
    site.expr? tree = none := by
  have empty : tree.namedChildren = [] := by
    rw [Tree.namedChildren, Tree.children_of_isCommentLeaf comment]
    rfl
  rw [expr?_eq_none_iff]
  rcases Tree.kind_of_isCommentLeaf comment with kind | kind <;>
    simp [kind, expressionKinds, Tree.isDeclaration, Tree.isClassLike, empty]

theorem literal?_of_isCommentLeaf {tree : Tree} (comment : tree.isCommentLeaf = true) :
    tree.literal? = none := by
  rw [Tree.literal?]
  rcases Tree.kind_of_isCommentLeaf comment with kind | kind <;> simp [kind]

theorem heading?_of_isCommentLeaf {tree : Tree} (comment : tree.isCommentLeaf = true) :
    site.heading? tree = none := by
  have nameless : tree.declarationName? site.content = none := by
    rw [Tree.declarationName?, Tree.children_of_isCommentLeaf comment]
    rcases Tree.kind_of_isCommentLeaf comment with kind | kind <;> simp [kind]
  rw [heading?, ClassHeader.ofTree?, nameless]
  rcases Tree.kind_of_isCommentLeaf comment with kind | kind <;> simp [kind]

theorem uncommented_of_isCommentLeaf {tree : Tree} (comment : tree.isCommentLeaf = true) :
    tree.uncommented = tree := by
  cases tree with
  | node kind isNamed span field children =>
    have childless : children = [] := Tree.children_of_isCommentLeaf comment
    rw [Tree.uncommented, childless, Tree.uncommentedAmong]

theorem expr?_uncommented_of_none {tree : Tree} (nothing : site.expr? tree = none) :
    site.expr? tree.uncommented = none := by
  obtain ⟨noExpression, noDeclaration, empty⟩ := expr?_eq_none_iff.mp nothing
  have loses := Tree.losesComments_namedChildren tree
  rw [empty] at loses
  rw [expr?_eq_none_iff, Tree.kind_uncommented, Tree.isDeclaration_uncommented]
  exact ⟨noExpression, noDeclaration, loses.eq_nil⟩

theorem isSome_expr?_of_uncommented {tree : Tree}
    (found : (site.expr? tree.uncommented).isSome = true) : (site.expr? tree).isSome = true := by
  by_contra nothing
  rw [Option.not_isSome_iff_eq_none] at nothing
  rw [expr?_uncommented_of_none nothing] at found
  cases found

/-- The same is lowered from nodes without comments just when it is from each of them. -/
theorem filterMap_expr?_eq_iff {trees others : List Tree}
    (loses : Tree.LosesComments trees others) :
    trees.filterMap site.expr? = others.filterMap site.expr? ↔
      ∀ tree ∈ trees, site.expr? tree = site.expr? tree.uncommented := by
  refine loses.filterMap_eq_iff_forall (fun tree => expr?_of_isCommentLeaf)
    (fun tree other same found => ?_) (fun tree comment => ?_) (fun tree other same => ?_)
  · rw [same] at found
    exact isSome_expr?_of_uncommented found
  · rw [uncommented_of_isCommentLeaf comment]
  · rw [same]

theorem group_eq_uncommented_iff {tree : Tree} :
    site.group tree = site.group tree.uncommented ↔
      ∀ child ∈ tree.namedChildren, site.expr? child = site.expr? child.uncommented := by
  rw [group_eq, group_eq, Tree.span_uncommented,
    ← filterMap_expr?_eq_iff (Tree.losesComments_namedChildren tree)]
  exact ⟨fun same => (Expr.group.inj same).2, fun same => by rw [same]⟩

theorem lambda_eq_uncommented_iff {literal : Tree} :
    site.lambda literal = site.lambda literal.uncommented ↔
      ∀ child ∈ literal.statementTrees, site.expr? child = site.expr? child.uncommented := by
  rw [lambda_eq, lambda_eq, Tree.span_uncommented,
    ← filterMap_expr?_eq_iff (Tree.losesComments_statementTrees literal)]
  exact ⟨fun same => (Expr.lambda.inj same).2, fun same => by rw [same]⟩

/-! ### Arguments -/

/-- An argument is taken the same without the comments inside it just when it is lowered to the
same, and as the same if it is a lambda. -/
theorem map_passed_eq_uncommented_iff {tree : Tree}
    {function? otherFunction? : Option FunctionSymbol} {slot otherSlot : ArgumentSlot} :
    (site.expr? tree).map (site.passed function? slot) =
        (site.expr? tree.uncommented).map (site.passed otherFunction? otherSlot) ↔
      tree.literal?.map (fun _ => site.target? function? slot) =
          tree.uncommented.literal?.map (fun _ => site.target? otherFunction? otherSlot) ∧
        site.expr? tree = site.expr? tree.uncommented := by
  have uncommented := tree.literal?_uncommented
  cases found : tree.literal? with
  | none =>
    rw [found, Option.map_none] at uncommented
    rw [map_passed_of_literal?_none found, map_passed_of_literal?_none uncommented, uncommented]
    exact ⟨fun same => ⟨rfl, same⟩, fun both => both.2⟩
  | some literal =>
    rw [found, Option.map_some] at uncommented
    rw [expr?_of_literal? found, expr?_of_literal? uncommented, uncommented]
    simp only [Option.map_some, Option.some_inj, lambda_eq, passed_lambda]
    cases site.target? function? slot <;> cases site.target? otherFunction? otherSlot <;>
      simp [Prod.ext_iff, and_assoc]

theorem arguments_eq_uncommented_iff (site : Site) {parts bare : CallParts}
    (loses : parts.LosesComments bare) :
    ((parts.arguments site.content).filterMap fun argument =>
        (site.expr? argument.1).map (site.passed (site.called? parts) argument.2)) =
      ((bare.arguments site.content).filterMap fun argument =>
        (site.expr? argument.1).map (site.passed (site.called? bare) argument.2)) ↔
      site.targets parts = site.targets bare ∧
        ∀ tree ∈ (parts.arguments site.content).map (·.1),
          site.expr? tree = site.expr? tree.uncommented := by
  have aligned := loses.arguments site.content
  have silent : ∀ argument : Tree × ArgumentSlot, argument.1.isCommentLeaf = true →
      site.expr? argument.1 = site.expr? argument.1.uncommented := fun argument comment => by
    rw [uncommented_of_isCommentLeaf comment]
  -- The expressions and the targets are read off one alignment of the arguments.
  rw [targets, targets, List.forall_mem_map]
  rw [aligned.filterMap_eq_iff (fun argument comment => ?_) fun argument other same found => ?_,
    aligned.filterMap_eq_iff (fun argument comment => ?_) fun argument other same found => ?_,
    ← Loses.and_iff silent]
  · constructor
    · intro alike
      refine alike.imp fun argument _ other held => ?_
      have reads := held.2
      rw [held.1, map_passed_eq_uncommented_iff] at reads
      rw [held.1]
      exact ⟨⟨rfl, reads.1⟩, reads.2⟩
    · intro alike
      refine alike.imp fun argument _ other held => ⟨held.1.1, ?_⟩
      have reads := held.1.2
      rw [held.1.1] at reads ⊢
      exact map_passed_eq_uncommented_iff.mpr ⟨reads, held.2⟩
  · rw [literal?_of_isCommentLeaf comment, Option.map_none]
  · rw [Option.isSome_map, same, Tree.literal?_uncommented, Option.isSome_map] at found
    rw [Option.isSome_map]
    exact found
  · rw [expr?_of_isCommentLeaf comment, Option.map_none]
  · rw [Option.isSome_map, same] at found
    rw [Option.isSome_map]
    exact isSome_expr?_of_uncommented found

/-! ### Calls -/

theorem call_eq_uncommented_iff {tree : Tree} {parts bare : CallParts}
    (read : CallParts.ofTree? tree = some parts)
    (readBare : CallParts.ofTree? tree.uncommented = some bare) (loses : parts.LosesComments bare) :
    site.call tree = site.call tree.uncommented ↔
      site.meaning parts = site.meaning bare ∧
        ∀ child ∈ site.inCall parts, site.expr? child = site.expr? child.uncommented := by
  rw [call_eq, call_eq, read, readBare, meaning, meaning, inCall, Tree.span_uncommented]
  dsimp only
  cases found : site.converted? parts with
  | some conversion =>
    obtain ⟨literal, type, owner⟩ := conversion
    rw [converted?_of_losesComments loses found, ← lambda_eq_uncommented_iff]
    simp [Tree.span_uncommented]
  | none =>
    cases foundBare : site.converted? bare with
    -- A lambda that shared its call with comments is converted once it is alone.
    | some conversion => simp
    | none =>
      have receivers : parts.receiver?.bind site.expr? = bare.receiver?.bind site.expr? ↔
          ∀ receiver ∈ parts.receiver?.toList,
            site.expr? receiver = site.expr? receiver.uncommented := by
        rw [loses.receiver?]
        cases parts.receiver? <;> simp
      have arguments := site.arguments_eq_uncommented_iff loses
      simp only [Expr.call.injEq, CallMeaning.call.injEq, List.forall_mem_append, receivers,
        arguments, calleeOf, true_and, and_assoc]
      exact and_congr_right fun _ => and_left_comm

/-- Only comments among the arguments themselves change what a call means. -/
theorem meaning_eq_of_no_comment {parts bare : CallParts} (loses : parts.LosesComments bare)
    (noComment : ∀ argument ∈ parts.values, argument.value.isCommentLeaf = false) :
    site.meaning parts = site.meaning bare := by
  have called : site.called? bare = site.called? parts := by
    rw [called?, called?, loses.name?, loses.argumentCount_eq noComment]
  have callee : site.calleeOf bare = site.calleeOf parts := by
    rw [calleeOf, calleeOf, called, loses.name?, loses.receiver?, Option.isSome_map]
  have targets : site.targets bare = site.targets parts := by
    rw [Site.targets, Site.targets, called, loses.arguments_eq noComment, List.filterMap_map]
    refine List.filterMap_congr fun argument _ => ?_
    rw [Function.comp_apply, Tree.literal?_uncommented, Option.map_map]
    rfl
  rw [meaning, meaning, callee, targets, converted?_eq_bind, converted?_eq_bind,
    loses.onlyLambda?_eq noComment, constructed?_of_losesComments site loses]
  cases parts.onlyLambda? with
  | none => rfl
  | some literal => cases site.constructed? parts <;> rfl

/-! ### Declarations -/

theorem filterMap_declaration?_eq_iff {trees others : List Tree}
    (loses : Tree.LosesComments trees others) :
    trees.filterMap site.declaration? = others.filterMap site.declaration? ↔
      ∀ tree ∈ trees, site.declaration? tree = site.declaration? tree.uncommented := by
  refine loses.filterMap_eq_iff_forall (fun tree comment => ?_) (fun tree other same found => ?_)
    (fun tree comment => ?_) (fun tree other same => ?_)
  · rw [← Option.not_isSome_iff_eq_none, isSome_declaration?, heading?_of_isCommentLeaf comment]
    exact Bool.false_ne_true
  · rw [same, isSome_declaration?, isSome_heading?_uncommented] at found
    rw [isSome_declaration?, found]
  · rw [uncommented_of_isCommentLeaf comment]
  · rw [same]

/-- A declaration with a heading is lowered to the same just when its expression is. -/
theorem declaration?_eq_iff_of_isDeclaration (site : Site) {tree : Tree}
    (declaration : tree.isDeclaration = true) :
    site.declaration? tree = site.declaration? tree.uncommented ↔
      ((site.heading? tree).isSome = true →
        site.expr? tree = site.expr? tree.uncommented) := by
  have bare : tree.uncommented.isDeclaration = true := by
    rw [Tree.isDeclaration_uncommented, declaration]
  have headed := isSome_declaration? site tree
  have headedBare := isSome_declaration? site tree.uncommented
  rw [isSome_heading?_uncommented, ← headed] at headedBare
  rw [← headed, expr?_of_isDeclaration declaration, expr?_of_isDeclaration bare]
  cases found : site.declaration? tree with
  | none =>
    rw [found, Option.isSome_none, Option.isSome_eq_false_iff, Option.isNone_iff_eq_none]
      at headedBare
    simp [headedBare]
  | some lowered =>
    rw [found] at headedBare
    obtain ⟨loweredBare, foundBare⟩ := Option.isSome_iff_exists.mp headedBare
    simp [foundBare]

theorem headed_eq_iff {declarations otherDeclarations trees others : List Tree}
    (losesDeclarations : Tree.LosesComments declarations otherDeclarations)
    (all : ∀ tree ∈ declarations, tree.isDeclaration = true)
    (loses : Tree.LosesComments trees others) :
    (declarations.filterMap site.declaration? = otherDeclarations.filterMap site.declaration? ∧
        trees.filterMap site.expr? = others.filterMap site.expr?) ↔
      ∀ tree ∈ site.headed declarations trees,
        site.expr? tree = site.expr? tree.uncommented := by
  rw [filterMap_declaration?_eq_iff losesDeclarations, filterMap_expr?_eq_iff loses, headed,
    List.forall_mem_append]
  refine and_congr_left fun _ => ?_
  simp only [List.mem_filter, and_imp]
  exact forall₂_congr fun tree member =>
    site.declaration?_eq_iff_of_isDeclaration (all tree member)

theorem declaration?_eq_uncommented_iff {tree : Tree}
    (headed : (site.heading? tree).isSome = true) :
    site.declaration? tree = site.declaration? tree.uncommented ↔
      site.heading? tree = site.heading? tree.uncommented ∧
        ∀ child ∈ (site.inDeclaration tree).2, (site.inDeclaration tree).1.expr? child =
          (site.inDeclaration tree).1.expr? child.uncommented := by
  have bodies := Tree.losesComments_bodyTrees tree
  rw [heading?] at headed
  rw [declaration?_eq, declaration?_eq, heading?, heading?, inDeclaration, Tree.kind_uncommented,
    Tree.span_uncommented, FunctionHeader.ofTree?_uncommented, Tree.propertyName?_uncommented]
  split at headed
  case isTrue function =>
    rw [Option.isSome_map] at headed
    obtain ⟨header, read⟩ := Option.isSome_iff_exists.mp headed
    simp only [if_pos function, read, Option.map_some, ← filterMap_expr?_eq_iff bodies]
    simp
  case isFalse noFunction =>
    split at headed
    case isTrue property =>
      rw [Option.isSome_map] at headed
      obtain ⟨name, read⟩ := Option.isSome_iff_exists.mp headed
      simp only [if_neg noFunction, if_pos property, read, Option.map_some,
        ← filterMap_expr?_eq_iff bodies]
      simp
    case isFalse noProperty =>
      rw [Option.isSome_map] at headed
      have headedBare := ClassHeader.isSome_ofTree?_uncommented site tree
      rw [headed] at headedBare
      obtain ⟨written, read⟩ := Option.isSome_iff_exists.mp headed
      obtain ⟨writtenBare, readBare⟩ := Option.isSome_iff_exists.mp headedBare
      simp only [if_neg noFunction, if_neg noProperty, read, readBare, Option.map_some,
        Option.some_inj, Heading.classLike.injEq, Declaration.classLike.injEq, true_and]
      -- What is inside stands in a class of that header, so the headers are to agree first.
      refine and_congr_right fun same => ?_
      rw [← same]
      exact headed_eq_iff (Tree.losesComments_memberTrees tree)
        (fun member inside => Tree.isDeclaration_of_mem_memberTrees inside)
        (Tree.losesComments_initializerTrees tree)

end Site

end SourceCapture
