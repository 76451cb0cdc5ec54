/-
Syntax trees without the comments in argument lists. Every other node stays, with the text that it
covers. What is looked for by its kind below a node is found all the same, since nothing that is
looked for is a comment, and so a file has the same scope.
-/

import SourceCapture.Lowering
import SourceCapture.Proofs.Losses

namespace SourceCapture

namespace Tree

/-- The kinds of comments. -/
def commentKinds : List String := ["line_comment", "block_comment"]

/-- Whether the node is a comment with nothing below it. -/
def isCommentLeaf (tree : Tree) : Bool := commentKinds.contains tree.kind && tree.children.isEmpty

mutual

/-- The tree without the comments in its argument lists. -/
def uncommented : Tree → Tree
  | .node kind isNamed span field children =>
    .node kind isNamed span field (uncommentedAmong (kind == "value_arguments") children)

/-- Some nodes in the same way, without the comments among them if they are in an argument
list. -/
def uncommentedAmong (inArguments : Bool) : List Tree → List Tree
  | [] => []
  | first :: rest =>
    if inArguments && first.isCommentLeaf then uncommentedAmong inArguments rest
    else uncommented first :: uncommentedAmong inArguments rest

end

/-- Whether some nodes lose no more than comments on the way to others, and no more than comments
in argument lists below the nodes that stay. -/
def LosesComments (trees others : List Tree) : Prop :=
  Loses (·.isCommentLeaf = true) (fun tree other => other = tree.uncommented) trees others

/-! ### The node itself -/

@[simp] theorem kind_uncommented (tree : Tree) : tree.uncommented.kind = tree.kind := by
  cases tree with | node => rw [uncommented]; rfl

@[simp] theorem isNamed_uncommented (tree : Tree) : tree.uncommented.isNamed = tree.isNamed := by
  cases tree with | node => rw [uncommented]; rfl

@[simp] theorem span_uncommented (tree : Tree) : tree.uncommented.span = tree.span := by
  cases tree with | node => rw [uncommented]; rfl

@[simp] theorem text_uncommented (content : List Char) (tree : Tree) :
    tree.uncommented.text content = tree.text content := by
  rw [text, text, span_uncommented]

@[simp] theorem trimmedText_uncommented (content : List Char) (tree : Tree) :
    tree.uncommented.trimmedText content = tree.trimmedText content := by
  rw [trimmedText, trimmedText, text_uncommented]

@[simp] theorem identifierName_uncommented (content : List Char) (tree : Tree) :
    tree.uncommented.identifierName content = tree.identifierName content := by
  rw [identifierName, identifierName, text_uncommented]

@[simp] theorem isIdentifier_uncommented (tree : Tree) :
    tree.uncommented.isIdentifier = tree.isIdentifier := by
  rw [isIdentifier, isIdentifier, kind_uncommented]

@[simp] theorem isClassLike_uncommented (tree : Tree) :
    tree.uncommented.isClassLike = tree.isClassLike := by
  rw [isClassLike, isClassLike, kind_uncommented]

@[simp] theorem isDeclaration_uncommented (tree : Tree) :
    tree.uncommented.isDeclaration = tree.isDeclaration := by
  rw [isDeclaration, isDeclaration, isClassLike_uncommented, kind_uncommented]

@[simp] theorem isClassBody_uncommented (tree : Tree) :
    tree.uncommented.isClassBody = tree.isClassBody := by
  rw [isClassBody, isClassBody, kind_uncommented]

theorem children_of_isCommentLeaf {tree : Tree} (comment : tree.isCommentLeaf = true) :
    tree.children = [] := by
  rw [isCommentLeaf, Bool.and_eq_true] at comment
  exact List.isEmpty_iff.mp comment.2

/-- A comment is of no kind that is looked for. -/
theorem kind_of_isCommentLeaf {tree : Tree} (comment : tree.isCommentLeaf = true) :
    tree.kind = "line_comment" ∨ tree.kind = "block_comment" := by
  rw [isCommentLeaf, Bool.and_eq_true] at comment
  simpa [commentKinds] using comment.1

/-! ### Children -/

theorem losesComments_uncommentedAmong (inArguments : Bool) (trees : List Tree) :
    LosesComments trees (uncommentedAmong inArguments trees) := by
  induction trees with
  | nil =>
    rw [uncommentedAmong]
    exact .nil
  | cons first rest inductionHypothesis =>
    rw [uncommentedAmong]
    split
    case isTrue comment =>
      exact .lose ((Bool.and_eq_true _ _ ▸ comment).2) inductionHypothesis
    case isFalse => exact .keep rfl inductionHypothesis

theorem uncommentedAmong_false (trees : List Tree) :
    uncommentedAmong false trees = trees.map uncommented := by
  induction trees with
  | nil => rw [uncommentedAmong, List.map_nil]
  | cons first rest inductionHypothesis =>
    rw [uncommentedAmong, Bool.false_and, if_neg Bool.false_ne_true, inductionHypothesis,
      List.map_cons]

theorem losesComments_children (tree : Tree) :
    LosesComments tree.children tree.uncommented.children := by
  cases tree with
  | node =>
    rw [uncommented]
    exact losesComments_uncommentedAmong ..

theorem LosesComments.filter {test : Tree → Bool}
    (same : ∀ tree : Tree, test tree.uncommented = test tree) {trees others : List Tree}
    (loses : LosesComments trees others) :
    LosesComments (trees.filter test) (others.filter test) := by
  refine Loses.filter (fun tree other uncommented => ?_) loses
  rw [uncommented, same]

theorem losesComments_namedChildren (tree : Tree) :
    LosesComments tree.namedChildren tree.uncommented.namedChildren :=
  (losesComments_children tree).filter isNamed_uncommented

/-- Outside of argument lists no child is lost. -/
theorem children_uncommented {tree : Tree} (other : tree.kind ≠ "value_arguments") :
    tree.uncommented.children = tree.children.map uncommented := by
  cases tree with
  | node kind isNamed span field children =>
    have outside : (kind == "value_arguments") = false := beq_eq_false_iff_ne.mpr other
    rw [uncommented, outside]
    exact uncommentedAmong_false children

theorem namedChildren_uncommented {tree : Tree} (other : tree.kind ≠ "value_arguments") :
    tree.uncommented.namedChildren = tree.namedChildren.map uncommented := by
  rw [namedChildren, children_uncommented other, List.filter_map]
  refine congrArg (List.map _) (List.filter_congr fun child _ => ?_)
  exact isNamed_uncommented child

theorem LosesComments.find? {test : Tree → Bool}
    (same : ∀ tree : Tree, test tree.uncommented = test tree)
    (noComment : ∀ tree : Tree, tree.isCommentLeaf = true → test tree = false)
    {trees others : List Tree} (loses : LosesComments trees others) :
    others.find? test = (trees.find? test).map uncommented := by
  induction loses with
  | nil => rfl
  | @keep tree _ _ _ held _ inductionHypothesis =>
    rw [held, List.find?_cons, List.find?_cons, same tree]
    split
    · rfl
    · exact inductionHypothesis
  | @lose tree _ _ gone _ inductionHypothesis =>
    rw [List.find?_cons, noComment tree gone]
    exact inductionHypothesis

theorem find?_isIdentifier_uncommented (tree : Tree) :
    tree.uncommented.children.find? isIdentifier =
      (tree.children.find? isIdentifier).map uncommented := by
  refine (losesComments_children tree).find? isIdentifier_uncommented fun child comment => ?_
  rcases kind_of_isCommentLeaf comment with kind | kind <;> simp [isIdentifier, kind]

theorem childOfKind?_uncommented {kinds : List String}
    (noComment : ∀ kind ∈ commentKinds, kinds.contains kind = false) (tree : Tree) :
    tree.uncommented.childOfKind? kinds = (tree.childOfKind? kinds).map uncommented := by
  refine (losesComments_children tree).find? (fun child => ?_) fun child comment => ?_
  · rw [kind_uncommented]
  · refine noComment child.kind ?_
    rw [isCommentLeaf, Bool.and_eq_true, List.contains_iff_mem] at comment
    exact comment.1

theorem declarationName?_uncommented (content : List Char) (tree : Tree) :
    tree.uncommented.declarationName? content = tree.declarationName? content := by
  rw [declarationName?, declarationName?, find?_isIdentifier_uncommented, kind_uncommented]
  cases tree.children.find? isIdentifier with
  | none => rfl
  | some identifier => exact congrArg some (identifierName_uncommented content identifier)

theorem propertyName?_uncommented (content : List Char) (tree : Tree) :
    tree.uncommented.propertyName? content = tree.propertyName? content := by
  have declared : ((tree.childOfKind? ["variable_declaration"]).map uncommented).bind
        (fun declaration => declaration.children.find? isIdentifier) =
      ((tree.childOfKind? ["variable_declaration"]).bind
        fun declaration => declaration.children.find? isIdentifier).map uncommented := by
    cases tree.childOfKind? ["variable_declaration"] with
    | none => rfl
    | some declaration => exact find?_isIdentifier_uncommented declaration
  rw [propertyName?, propertyName?, find?_isIdentifier_uncommented,
    childOfKind?_uncommented (by decide), declared, ← Option.map_or, Option.map_map]
  refine congrArg (Option.map · _) (funext fun identifier => ?_)
  exact identifierName_uncommented content identifier

/-! ### Nodes below -/

mutual

theorem contains_kind_of_find? {kinds : List String} : ∀ {tree found : Tree},
    tree.find? kinds = some found → kinds.contains found.kind = true
  | .node kind isNamed span field children, found, search => by
    rw [find?] at search
    split at search
    case isTrue contained =>
      cases search
      exact contained
    case isFalse => exact contains_kind_of_findAmong? search

theorem contains_kind_of_findAmong? {kinds : List String} : ∀ {trees : List Tree} {found : Tree},
    findAmong? kinds trees = some found → kinds.contains found.kind = true
  | [], found, search => by
    rw [findAmong?] at search
    cases search
  | first :: rest, found, search => by
    rw [findAmong?] at search
    split at search
    · split at search
      case h_1 inside =>
        cases search
        exact contains_kind_of_find? inside
      case h_2 => exact contains_kind_of_findAmong? search
    · exact contains_kind_of_findAmong? search

end

theorem find?_of_isCommentLeaf {kinds : List String}
    (noComment : ∀ kind ∈ commentKinds, kinds.contains kind = false) {tree : Tree}
    (comment : tree.isCommentLeaf = true) : tree.find? kinds = none := by
  cases tree with
  | node kind isNamed span field children =>
    have childless : children = [] := children_of_isCommentLeaf comment
    rw [isCommentLeaf, Bool.and_eq_true, List.contains_iff_mem] at comment
    rw [find?, noComment kind comment.1, if_neg Bool.false_ne_true, childless, findAmong?]

mutual

theorem find?_uncommented {kinds : List String}
    (noComment : ∀ kind ∈ commentKinds, kinds.contains kind = false) : ∀ tree : Tree,
    tree.uncommented.find? kinds = (tree.find? kinds).map uncommented
  | .node kind isNamed span field children => by
    rw [uncommented, find?, find?]
    split
    · rw [Option.map_some, uncommented]
    · exact findAmong?_uncommented noComment _ children

theorem findAmong?_uncommented {kinds : List String}
    (noComment : ∀ kind ∈ commentKinds, kinds.contains kind = false) (inArguments : Bool) :
    ∀ trees : List Tree,
      findAmong? kinds (uncommentedAmong inArguments trees) =
        (findAmong? kinds trees).map uncommented
  | [] => by
    rw [uncommentedAmong, findAmong?]
    rfl
  | first :: rest => by
    rw [uncommentedAmong]
    split
    case isTrue comment =>
      have nothing := find?_of_isCommentLeaf noComment (Bool.and_eq_true _ _ ▸ comment).2
      rw [findAmong?_uncommented noComment inArguments rest, findAmong?, nothing]
      split <;> rfl
    case isFalse =>
      rw [findAmong?, findAmong?, isNamed_uncommented, find?_uncommented noComment first,
        findAmong?_uncommented noComment inArguments rest]
      split
      · cases first.find? kinds <;> rfl
      · rfl

end

theorem losesComments_statementTrees (tree : Tree) :
    LosesComments tree.statementTrees tree.uncommented.statementTrees :=
  (losesComments_namedChildren tree).filter fun child => by rw [kind_uncommented]

theorem losesComments_bodyTrees (tree : Tree) :
    LosesComments tree.bodyTrees tree.uncommented.bodyTrees :=
  (losesComments_namedChildren tree).filter fun child => by rw [kind_uncommented]

mutual

theorem losesComments_bodyNodes : ∀ tree : Tree,
    LosesComments tree.bodyNodes tree.uncommented.bodyNodes
  | .node kind isNamed span field children => by
    rw [uncommented, bodyNodes, bodyNodes]
    exact losesComments_bodyNodesAmong _ children

theorem losesComments_bodyNodesAmong (inArguments : Bool) : ∀ trees : List Tree,
    LosesComments (bodyNodesAmong trees) (bodyNodesAmong (uncommentedAmong inArguments trees))
  | [] => by
    rw [uncommentedAmong, bodyNodesAmong]
    exact .nil
  | first :: rest => by
    have others := losesComments_bodyNodesAmong inArguments rest
    rw [uncommentedAmong]
    split
    case isTrue inside =>
      have comment := (Bool.and_eq_true _ _ ▸ inside).2
      have noList : first.kind ≠ "class_member_declarations" := by
        rcases kind_of_isCommentLeaf comment with kind | kind <;> simp [kind]
      rw [bodyNodesAmong, if_neg noList]
      split
      · exact others
      · exact .lose comment others
    case isFalse =>
      rw [bodyNodesAmong, bodyNodesAmong, isNamed_uncommented, kind_uncommented]
      refine Loses.append ?_ others
      split
      · exact .nil
      · split
        · exact losesComments_bodyNodes first
        · exact .keep rfl .nil

end

theorem bodyNodes_of_isCommentLeaf {tree : Tree} (comment : tree.isCommentLeaf = true) :
    tree.bodyNodes = [] := by
  cases tree with
  | node kind isNamed span field children =>
    have childless : children = [] := children_of_isCommentLeaf comment
    rw [bodyNodes, childless, bodyNodesAmong]

theorem losesComments_memberTrees (tree : Tree) :
    LosesComments tree.memberTrees tree.uncommented.memberTrees := by
  have bodies := (losesComments_namedChildren tree).filter isClassBody_uncommented
  refine Loses.flatMap (fun body other same => ?_) (fun body comment => ?_) bodies
  · rw [same]
    exact (losesComments_bodyNodes body).filter isDeclaration_uncommented
  · rw [bodyNodes_of_isCommentLeaf comment, List.filter_nil]

theorem losesComments_initializerTrees (tree : Tree) :
    LosesComments tree.initializerTrees tree.uncommented.initializerTrees := by
  refine Loses.flatMap (fun child other same => ?_) (fun child comment => ?_)
    (losesComments_namedChildren tree)
  · rw [same, isClassBody_uncommented, kind_uncommented]
    split
    · exact (losesComments_bodyNodes child).filter fun node => by rw [isDeclaration_uncommented]
    · split
      · exact .nil
      · exact .keep rfl .nil
  · rw [bodyNodes_of_isCommentLeaf comment]
    rcases kind_of_isCommentLeaf comment with kind | kind <;> simp [isClassBody, kind, headerKinds]

end Tree

/-! ### The scope of a file -/

namespace FileScope

mutual

theorem losesComments_headers : ∀ tree : Tree,
    Tree.LosesComments (headers tree) (headers tree.uncommented)
  | .node kind isNamed span field children => by
    rw [Tree.uncommented, headers, headers]
    exact losesComments_headersAmong _ children

theorem losesComments_headersAmong (inArguments : Bool) : ∀ trees : List Tree,
    Tree.LosesComments (headersAmong trees)
      (headersAmong (Tree.uncommentedAmong inArguments trees))
  | [] => by
    rw [Tree.uncommentedAmong, headersAmong]
    exact .nil
  | first :: rest => by
    have others := losesComments_headersAmong inArguments rest
    rw [Tree.uncommentedAmong]
    split
    case isTrue inside =>
      have comment := (Bool.and_eq_true _ _ ▸ inside).2
      have noList : first.kind ≠ "import_list" := by
        rcases Tree.kind_of_isCommentLeaf comment with kind | kind <;> simp [kind]
      rw [headersAmong, if_neg noList]
      split
      · exact others
      · exact .lose comment others
    case isFalse =>
      rw [headersAmong, headersAmong, Tree.isNamed_uncommented, Tree.kind_uncommented]
      refine Loses.append ?_ others
      split
      · exact .nil
      · split
        · exact losesComments_headers first
        · exact .keep rfl .nil

end

theorem addHeader_uncommented (content : List Char) (scope : FileScope) (header : Tree) :
    addHeader content scope header.uncommented = addHeader content scope header := by
  have package : packageOf? content header.uncommented = packageOf? content header := by
    rw [packageOf?, packageOf?, Tree.childOfKind?_uncommented (by decide), Option.map_map]
    refine congrArg (Option.map · _) (funext fun name => ?_)
    exact congrArg Name.join (Tree.text_uncommented content name)
  rw [addHeader, addHeader, Tree.kind_uncommented, package, Tree.text_uncommented]

theorem addHeader_of_isCommentLeaf (content : List Char) (scope : FileScope) {header : Tree}
    (comment : header.isCommentLeaf = true) : addHeader content scope header = scope := by
  rw [addHeader]
  rcases Tree.kind_of_isCommentLeaf comment with kind | kind <;> simp [kind]

theorem foldl_addHeader_uncommented (content : List Char) {trees others : List Tree}
    (loses : Tree.LosesComments trees others) (scope : FileScope) :
    others.foldl (addHeader content) scope = trees.foldl (addHeader content) scope := by
  induction loses generalizing scope with
  | nil => rfl
  | keep held _ inductionHypothesis =>
    rw [held, List.foldl_cons, List.foldl_cons, addHeader_uncommented, inductionHypothesis]
  | lose gone _ inductionHypothesis =>
    rw [List.foldl_cons, addHeader_of_isCommentLeaf content scope gone, inductionHypothesis]

theorem classesBelow_of_isCommentLeaf (content : List Char) (package outer : Option String)
    {tree : Tree} (comment : tree.isCommentLeaf = true) :
    classesBelow content package outer tree = [] := by
  cases tree with
  | node kind isNamed span field children =>
    have childless : children = [] := Tree.children_of_isCommentLeaf comment
    rw [classesBelow, childless, classesAmong]

mutual

theorem classesBelow_uncommented (content : List Char) (package outer : Option String) :
    ∀ tree : Tree, classesBelow content package outer tree.uncommented =
      classesBelow content package outer tree
  | .node kind isNamed span field children => by
    rw [Tree.uncommented, classesBelow, classesBelow]
    exact classesAmong_uncommented content package outer _ children

theorem classesAmong_uncommented (content : List Char) (package outer : Option String)
    (inArguments : Bool) : ∀ trees : List Tree,
      classesAmong content package outer (Tree.uncommentedAmong inArguments trees) =
        classesAmong content package outer trees
  | [] => by rw [Tree.uncommentedAmong]
  | first :: rest => by
    have others := classesAmong_uncommented content package outer inArguments rest
    rw [Tree.uncommentedAmong]
    split
    case isTrue inside =>
      have comment := (Bool.and_eq_true _ _ ▸ inside).2
      have noClass : first.isClassLike = false := by
        rcases Tree.kind_of_isCommentLeaf comment with kind | kind <;>
          simp [Tree.isClassLike, kind]
      rw [others, classesAmong, classesBelow_of_isCommentLeaf content package outer comment,
        noClass]
      simp
    case isFalse =>
      rw [classesAmong, classesAmong, others]
      simp only [Tree.isNamed_uncommented, Tree.isClassLike_uncommented,
        Tree.isDeclaration_uncommented, Tree.declarationName?_uncommented,
        classesBelow_uncommented content package _ first]

end

/-- Comments in argument lists add nothing to the scope of a file. -/
theorem ofTree_uncommented (content : List Char) (root : Tree) :
    ofTree content root.uncommented = ofTree content root := by
  rw [ofTree, ofTree, foldl_addHeader_uncommented content (losesComments_headers root),
    classesBelow_uncommented]

end FileScope

end SourceCapture
