/-
Calls and functions without the comments in argument lists. A comment between the parentheses is
read as one more argument, so what stays of a call without it is everything else: the callee, the
other arguments in order, the lambdas behind the parentheses and the type arguments. Only the
positions of the arguments change, and how many there are.
-/

import SourceCapture.Proofs.Lowering.Equations
import SourceCapture.Proofs.Uncommented

namespace SourceCapture

/-! ### Arguments -/

namespace WrittenArgument

/-- The argument without comments in argument lists inside it. -/
def uncommented (argument : WrittenArgument) : WrittenArgument :=
  ⟨argument.name?.map Tree.uncommented, argument.value.uncommented⟩

/-- Whether arguments lose no more than comments that are read as arguments. -/
def LoseComments (arguments others : List WrittenArgument) : Prop :=
  Loses (·.value.isCommentLeaf = true) (fun argument other => other = argument.uncommented)
    arguments others

theorem ofTree?_uncommented (tree : Tree) :
    ofTree? tree.uncommented = (ofTree? tree).map uncommented := by
  rw [ofTree?, ofTree?, Tree.kind_uncommented]
  by_cases argument : tree.kind = "value_argument"
  · have noList : tree.kind ≠ "value_arguments" := by simp [argument]
    have token : tree.uncommented.hasToken "=" = tree.hasToken "=" := by
      rw [Tree.hasToken, Tree.hasToken, Tree.children_uncommented noList, List.any_map]
      refine congrArg (List.any tree.children) (funext fun child => ?_)
      rw [Function.comp_apply, Tree.kind_uncommented]
    rw [if_neg (not_not.mpr argument), if_neg (not_not.mpr argument),
      Tree.namedChildren_uncommented noList, token]
    dsimp only
    have name : Option.filter Tree.isIdentifier (tree.namedChildren.head?.map Tree.uncommented) =
        (tree.namedChildren.head?.filter Tree.isIdentifier).map Tree.uncommented := by
      cases tree.namedChildren.head? with
      | none => rfl
      | some first =>
        rw [Option.map_some, Option.filter_some, Option.filter_some, Tree.isIdentifier_uncommented]
        split <;> rfl
    rw [List.getLast?_map, List.length_map, List.head?_map, Option.map_map, Option.map_map]
    refine congrArg (Option.map · _) (funext fun value => ?_)
    rw [Function.comp_apply, Function.comp_apply]
    split
    · rw [name]
      rfl
    · rfl
  · rw [if_pos argument, if_pos argument]
    rfl

theorem loseComments_listOfTree (list : Tree) :
    LoseComments (listOfTree list) (listOfTree list.uncommented) := by
  refine Loses.filterMap (fun tree other same => ?_) (fun tree comment argument read => ?_)
    (Tree.losesComments_namedChildren list)
  · rw [same, ofTree?_uncommented]
  · have noArgument : tree.kind ≠ "value_argument" := by
      rcases Tree.kind_of_isCommentLeaf comment with kind | kind <;> simp [kind]
    rw [ofTree?, if_pos noArgument] at read
    cases read
    exact comment

theorem length_filterMap_uncommentedAmong (trees : List Tree) :
    ((trees.filter (·.isNamed)).filterMap ofTree?).length =
      (((Tree.uncommentedAmong true trees).filter (·.isNamed)).filterMap ofTree?).length +
        (trees.filter fun tree => tree.isNamed && tree.isCommentLeaf).length := by
  induction trees with
  | nil => rw [Tree.uncommentedAmong]; rfl
  | cons first rest inductionHypothesis =>
    rw [Tree.uncommentedAmong, Bool.true_and]
    cases named : first.isNamed with
    | false =>
      cases comment : first.isCommentLeaf <;> simp [named, inductionHypothesis]
    | true =>
      cases comment : first.isCommentLeaf with
      | true =>
        have read : ofTree? first = some ⟨none, first⟩ := by
          rw [ofTree?, if_pos]
          rcases Tree.kind_of_isCommentLeaf comment with kind | kind <;> simp [kind]
        simp [named, comment, read, inductionHypothesis, Nat.add_assoc]
      | false =>
        cases read : ofTree? first with
        | none => simp [named, comment, read, ofTree?_uncommented, inductionHypothesis]
        | some argument =>
          simp [named, comment, read, ofTree?_uncommented, inductionHypothesis, Nat.add_right_comm]

/-- Every comment in an argument list is read as one more argument. -/
theorem length_listOfTree_uncommented {list : Tree} (isList : list.kind = "value_arguments") :
    (listOfTree list).length = (listOfTree list.uncommented).length +
      (list.namedChildren.filter (·.isCommentLeaf)).length := by
  cases list with
  | node kind isNamed span field children =>
    obtain rfl : kind = "value_arguments" := isList
    rw [Tree.uncommented, Tree.namedChildren, List.filter_filter]
    simp only [Bool.and_comm (Tree.isCommentLeaf _)]
    exact length_filterMap_uncommentedAmong children

end WrittenArgument

/-! ### The pieces of a call -/

namespace CallPiece

/-- The piece without comments in argument lists inside it. -/
def uncommented : CallPiece → CallPiece
  | .value argument => .value argument.uncommented
  | .lambda literal => .lambda literal.uncommented
  | .typeArguments list => .typeArguments list.uncommented

/-- Whether the piece is a comment that is read as an argument. -/
def IsComment : CallPiece → Prop
  | .value argument => argument.value.isCommentLeaf = true
  | _ => False

/-- Whether pieces lose no more than comments that are read as arguments. -/
def LoseComments (pieces others : List CallPiece) : Prop :=
  Loses IsComment (fun piece other => other = piece.uncommented) pieces others

theorem listOfTree_of_isCommentLeaf {tree : Tree} (comment : tree.isCommentLeaf = true) :
    listOfTree tree = [] := by
  cases tree with
  | node kind isNamed span field children =>
    have kinds : kind = "line_comment" ∨ kind = "block_comment" :=
      Tree.kind_of_isCommentLeaf comment
    rw [listOfTree]
    rcases kinds with rfl | rfl <;> simp

mutual

theorem loseComments_listOfTree : ∀ tree : Tree,
    LoseComments (listOfTree tree) (listOfTree tree.uncommented)
  | .node kind isNamed span field children => by
    have search := Tree.find?_uncommented (show ∀ kind ∈ Tree.commentKinds,
      ["lambda_literal"].contains kind = false by decide) (.node kind isNamed span field children)
    have arguments :=
      WrittenArgument.loseComments_listOfTree (.node kind isNamed span field children)
    rw [Tree.uncommented] at search arguments
    rw [Tree.uncommented, listOfTree, listOfTree]
    split
    · exact arguments.map (fun _ _ same => congrArg value same) fun _ comment => comment
    split
    · rw [search]
      cases Tree.find? ["lambda_literal"] (.node kind isNamed span field children) with
      | none => exact .nil
      | some literal => exact .keep rfl .nil
    split
    · refine .keep ?_ .nil
      rw [uncommented, Tree.uncommented]
    split
    · refine .keep ?_ .nil
      rw [uncommented, Tree.uncommented]
    split
    · exact loseComments_listAmong _ children
    · exact .nil

theorem loseComments_listAmong (inArguments : Bool) : ∀ trees : List Tree,
    LoseComments (listAmong trees) (listAmong (Tree.uncommentedAmong inArguments trees))
  | [] => by
    rw [Tree.uncommentedAmong, listAmong]
    exact .nil
  | first :: rest => by
    have others := loseComments_listAmong inArguments rest
    rw [Tree.uncommentedAmong]
    split
    case isTrue inside =>
      have comment := (Bool.and_eq_true _ _ ▸ inside).2
      rw [listAmong, listOfTree_of_isCommentLeaf comment, ite_self]
      exact others
    case isFalse =>
      rw [listAmong, listAmong, Tree.isNamed_uncommented]
      refine Loses.append ?_ others
      split
      · exact loseComments_listOfTree first
      · exact .nil

end

end CallPiece

/-! ### Whole calls -/

namespace CallParts

/-- Whether a call has lost no more than comments that are read as arguments. -/
structure LosesComments (parts bare : CallParts) : Prop where
  callee : bare.callee = parts.callee.uncommented
  pieces : CallPiece.LoseComments parts.pieces bare.pieces

theorem ofTree?_uncommented_of_none {tree : Tree} (call : tree.kind = "call_expression")
    (read : ofTree? tree = none) : ofTree? tree.uncommented = none := by
  rw [ofTree?] at read
  rw [ofTree?, Tree.namedChildren_uncommented (by simp [call])]
  split at read
  case h_1 same => rw [same, List.map_nil]
  case h_2 => cases read

theorem exists_losesComments {tree : Tree} {parts : CallParts}
    (call : tree.kind = "call_expression") (read : ofTree? tree = some parts) :
    ∃ bare, ofTree? tree.uncommented = some bare ∧ parts.LosesComments bare := by
  rw [ofTree?] at read
  rw [ofTree?, Tree.namedChildren_uncommented (by simp [call])]
  split at read
  case h_1 => cases read
  case h_2 callee rest same =>
    cases read
    rw [same, List.map_cons]
    refine ⟨_, rfl, rfl, (Loses.eq_map_iff.mpr rfl).flatMap (fun node other same => ?_)
      fun _ gone => gone.elim⟩
    rw [same]
    exact CallPiece.loseComments_listOfTree node

namespace LosesComments

variable {parts bare : CallParts}

theorem values (loses : parts.LosesComments bare) :
    WrittenArgument.LoseComments parts.values bare.values := by
  refine Loses.filterMap (fun piece other same => ?_) (fun piece comment argument read => ?_)
    loses.pieces
  · rw [same]
    cases piece <;> rfl
  · cases piece with
    | value =>
      cases read
      exact comment
    | lambda => cases read
    | typeArguments => cases read

theorem lambdas (loses : parts.LosesComments bare) :
    bare.lambdas = parts.lambdas.map Tree.uncommented := by
  refine Loses.eq_map_iff.mp (Loses.filterMap (fun piece other same => ?_)
    (fun piece comment literal read => ?_) loses.pieces)
  · rw [same]
    cases piece <;> rfl
  · cases piece with
    | value => cases read
    | lambda => exact comment
    | typeArguments => cases read

theorem typeArguments? (loses : parts.LosesComments bare) :
    bare.typeArguments? = parts.typeArguments?.map Tree.uncommented := by
  rw [CallParts.typeArguments?, CallParts.typeArguments?, ← List.getLast?_map]
  refine congrArg List.getLast? (Loses.eq_map_iff.mp (Loses.filterMap
    (fun piece other same => ?_) (fun piece comment list read => ?_) loses.pieces))
  · rw [same]
    cases piece <;> rfl
  · cases piece with
    | value => cases read
    | lambda => cases read
    | typeArguments => exact comment

theorem isPath (loses : parts.LosesComments bare) : bare.isPath = parts.isPath := by
  rw [CallParts.isPath, CallParts.isPath, loses.callee, Tree.kind_uncommented]

theorem lastIdentifier?_uncommented {path : Tree} (other : path.kind ≠ "value_arguments") :
    lastIdentifier? path.uncommented = (lastIdentifier? path).map Tree.uncommented := by
  rw [lastIdentifier?, lastIdentifier?, Tree.namedChildren_uncommented other, List.getLast?_map]
  cases path.namedChildren.getLast? with
  | none => rfl
  | some last =>
    rw [Option.map_some, Option.bind_some, Option.bind_some, Tree.isIdentifier_uncommented,
      Tree.kind_uncommented, Tree.find?_isIdentifier_uncommented]
    split
    · rfl
    · split <;> rfl

/-- A call has the same name without the comments among its arguments. -/
theorem name? (loses : parts.LosesComments bare) (content : List Char) :
    bare.name? content = parts.name? content := by
  rw [CallParts.name?, CallParts.name?, loses.isPath, loses.callee, Tree.isIdentifier_uncommented,
    Tree.identifierName_uncommented]
  split
  · rfl
  · split
    case isTrue path =>
      have noList : parts.callee.kind ≠ "value_arguments" := by
        rw [of_decide_eq_true path]
        decide
      rw [lastIdentifier?_uncommented noList, Option.map_map]
      refine congrArg (Option.map · _) (funext fun identifier => ?_)
      exact Tree.identifierName_uncommented content identifier
    case isFalse => rfl

theorem receiver? (loses : parts.LosesComments bare) :
    bare.receiver? = parts.receiver?.map Tree.uncommented := by
  rw [CallParts.receiver?, CallParts.receiver?, loses.isPath, loses.callee,
    Tree.isIdentifier_uncommented]
  split
  · rfl
  · split
    case isTrue path =>
      have noList : parts.callee.kind ≠ "value_arguments" := by
        rw [of_decide_eq_true path]
        decide
      rw [Tree.namedChildren_uncommented noList]
      cases parts.callee.namedChildren with
      | nil => rfl
      | cons first rest => cases rest <;> rfl
    case isFalse => rfl

/-- The only lambda of a call stays the only one. -/
theorem onlyLambda? (loses : parts.LosesComments bare) {literal : Tree}
    (only : parts.onlyLambda? = some literal) : bare.onlyLambda? = some literal.uncommented := by
  have values := loses.values
  rw [CallParts.onlyLambda?] at only
  rw [CallParts.onlyLambda?, loses.lambdas]
  generalize bare.values = others at values
  split at only
  case h_1 noValues oneLambda =>
    cases only
    rw [noValues] at values
    rw [oneLambda]
    cases values
    rfl
  case h_2 value oneValue noLambdas =>
    rw [oneValue] at values
    rw [noLambdas]
    split at only
    case isTrue isLambda =>
      cases only
      cases values with
      | keep held rest =>
        cases rest
        cases held
        show (if literal.uncommented.kind = "lambda_literal" then _ else _) = _
        rw [Tree.kind_uncommented, if_pos isLambda]
      | lose comment =>
        rcases Tree.kind_of_isCommentLeaf comment with kind | kind <;>
          simp [kind] at isLambda
    case isFalse => cases only
  case h_3 => cases only

/-- The arguments stay with their order, but what stands behind a comment moves to an earlier
position. -/
theorem arguments (loses : parts.LosesComments bare) (content : List Char) :
    Loses (·.1.isCommentLeaf = true) (fun argument other => other.1 = argument.1.uncommented)
      (parts.arguments content) (bare.arguments content) := by
  refine Loses.append (Loses.map (fun entry other same => ?_) (fun entry comment => ?_)
    (loses.values.zipIdx 0 0)) ?_
  · exact congrArg WrittenArgument.value same
  · exact comment
  · rw [loses.lambdas]
    exact (Loses.eq_map_iff.mpr rfl).map (fun _ _ same => same) fun _ gone => gone.elim

/-! ### Calls with no comment among their arguments -/

section

variable (noComment : ∀ argument ∈ parts.values, argument.value.isCommentLeaf = false)

include noComment

theorem values_eq (loses : parts.LosesComments bare) :
    bare.values = parts.values.map WrittenArgument.uncommented := by
  refine loses.values.eq_map_of_forall_not_lost fun argument member comment => ?_
  rw [noComment argument member] at comment
  cases comment

theorem argumentCount_eq (loses : parts.LosesComments bare) :
    bare.argumentCount = parts.argumentCount := by
  rw [argumentCount, argumentCount, loses.values_eq noComment, loses.lambdas, List.length_map,
    List.length_map]

theorem arguments_eq (loses : parts.LosesComments bare) (content : List Char) :
    bare.arguments content =
      (parts.arguments content).map fun argument => (argument.1.uncommented, argument.2) := by
  have slot : ∀ index argument,
      slotOf content index argument.uncommented = slotOf content index argument := by
    intro index argument
    rw [slotOf, slotOf, WrittenArgument.uncommented]
    cases argument.name? with
    | none => rfl
    | some name =>
      dsimp only [Option.map_some]
      rw [Tree.trimmedText_uncommented]
  rw [CallParts.arguments, CallParts.arguments, loses.values_eq noComment, loses.lambdas,
    List.zipIdx_map, List.map_append, List.map_map, List.map_map, List.map_map, List.map_map]
  refine congrArg₂ (· ++ ·) (List.map_congr_left fun entry _ => ?_) rfl
  exact congrArg (Prod.mk _) (slot entry.2 entry.1)

theorem onlyLambda?_eq (loses : parts.LosesComments bare) :
    bare.onlyLambda? = parts.onlyLambda?.map Tree.uncommented := by
  rw [CallParts.onlyLambda?, CallParts.onlyLambda?, loses.values_eq noComment, loses.lambdas]
  match parts.values, parts.lambdas with
  | [], [] => rfl
  | [], [_] => rfl
  | [], _ :: _ :: _ => rfl
  | [⟨none, value⟩], [] =>
    show (if value.uncommented.kind = "lambda_literal" then _ else _) =
      Option.map _ (if value.kind = "lambda_literal" then _ else _)
    rw [Tree.kind_uncommented]
    split <;> rfl
  | [⟨some _, _⟩], [] => rfl
  | [⟨name?, _⟩], _ :: _ => cases name? <;> rfl
  | ⟨name?, _⟩ :: _ :: _, lambdas => cases name? <;> cases lambdas <;> rfl

end

end LosesComments

end CallParts

/-! ### Conversions -/

namespace Site

/-- The type and the interface that a call stands for if it has a lambda and nothing else. -/
def constructed? (site : Site) (parts : CallParts) : Option (TypeRef × ClassHeader) :=
  if parts.receiver?.isSome then none
  else (parts.name? site.content).bind (site.construction? · parts.typeArguments?)

theorem converted?_eq_bind (site : Site) (parts : CallParts) :
    site.converted? parts =
      parts.onlyLambda?.bind fun literal => (site.constructed? parts).map (literal, ·) := by
  rw [converted?, constructed?]
  split
  · cases parts.onlyLambda? <;> rfl
  · cases parts.onlyLambda? with
    | none => rfl
    | some literal =>
      show (parts.name? site.content).bind _ = _
      cases parts.name? site.content with
      | none => rfl
      | some name =>
        show (site.construction? name parts.typeArguments?).bind _ = _
        cases found : site.construction? name parts.typeArguments? <;> simp [found]

/-- The interface that a call would construct is the same without the comments. -/
theorem constructed?_of_losesComments (site : Site) {parts bare : CallParts}
    (loses : parts.LosesComments bare) : site.constructed? bare = site.constructed? parts := by
  have target : ∀ name, site.construction? name bare.typeArguments? =
      site.construction? name parts.typeArguments? := fun name => by
    rw [construction?, construction?, loses.typeArguments?]
    cases parts.typeArguments? with
    | none => rfl
    | some list =>
      dsimp only [Option.map_some]
      rw [Tree.text_uncommented]
  rw [constructed?, constructed?, loses.receiver?, loses.name?, Option.isSome_map]
  simp only [target]

/-- A call that stands for a conversion does so without the comments among its arguments too. -/
theorem converted?_of_losesComments {site : Site} {parts bare : CallParts}
    (loses : parts.LosesComments bare) {literal : Tree} {type : TypeRef} {owner : ClassHeader}
    (found : site.converted? parts = some (literal, type, owner)) :
    site.converted? bare = some (literal.uncommented, type, owner) := by
  have only := onlyLambda?_of_converted? found
  rw [converted?_eq_bind, only, Option.bind_some] at found
  rw [converted?_eq_bind, loses.onlyLambda? only, Option.bind_some,
    constructed?_of_losesComments site loses]
  obtain ⟨target, constructed, same⟩ := Option.map_eq_some_iff.mp found
  cases same
  rw [constructed, Option.map_some]

end Site

end SourceCapture
