/-
Comments in argument lists and what a file is lowered to. They are read as arguments, so they
matter where an argument is counted or taken by its position: in what a call means, in what a
declaration is annotated with, and in a list of arguments that holds nothing else. Wherever these
come out the same without the comments, so does everything.
-/

import SourceCapture.Proofs.Lowering.UncommentedNodes
import SourceCapture.Proofs.SampleTrees

namespace SourceCapture

namespace Site

variable {site : Site}

/-! ### One node -/

/-- Whether what is decided at a node comes out the same without the comments in argument lists:
what a call means, how a declaration is headed, and whether a list of arguments is empty. -/
structure DecidesAlike (site : Site) (tree : Tree) : Prop where
  call : tree.kind = "call_expression" →
    (CallParts.ofTree? tree).map site.meaning =
      (CallParts.ofTree? tree.uncommented).map site.meaning
  declaration : tree.isDeclaration = true → site.heading? tree = site.heading? tree.uncommented
  list : tree.kind = "value_arguments" →
    (tree.namedChildren = [] ↔ tree.uncommented.namedChildren = [])

theorem decidesAlike_iff_of_call {tree : Tree} (call : tree.kind = "call_expression") :
    site.DecidesAlike tree ↔ (CallParts.ofTree? tree).map site.meaning =
      (CallParts.ofTree? tree.uncommented).map site.meaning := by
  refine ⟨fun alike => alike.call call, fun same => ⟨fun _ => same, fun declaration => ?_,
    fun list => ?_⟩⟩
  · exact absurd call (Tree.kind_of_isDeclaration declaration).1
  · simp [call] at list

/-- The same is decided at a call if none of its arguments is a comment, whatever comments stand in
the argument lists inside it. -/
theorem decidesAlike_of_no_comment {tree : Tree} {parts : CallParts}
    (call : tree.kind = "call_expression") (read : CallParts.ofTree? tree = some parts)
    (noComment : ∀ argument ∈ parts.values, argument.value.isCommentLeaf = false) :
    site.DecidesAlike tree := by
  obtain ⟨bare, readBare, loses⟩ := CallParts.exists_losesComments call read
  rw [decidesAlike_iff_of_call call, read, readBare]
  exact congrArg some (meaning_eq_of_no_comment loses noComment)

theorem decidesAlike_iff_of_isDeclaration {tree : Tree} (declaration : tree.isDeclaration = true) :
    site.DecidesAlike tree ↔ site.heading? tree = site.heading? tree.uncommented := by
  obtain ⟨noCall, -, -, noList⟩ := Tree.kind_of_isDeclaration declaration
  exact ⟨fun alike => alike.declaration declaration, fun same =>
    ⟨fun call => absurd call noCall, fun _ => same, fun list => absurd list noList⟩⟩

theorem decidesAlike_iff_of_other {tree : Tree} (noCall : tree.kind ≠ "call_expression")
    (noDeclaration : tree.isDeclaration = false) :
    site.DecidesAlike tree ↔
      (tree.namedChildren = [] ↔ tree.uncommented.namedChildren = []) := by
  constructor
  · intro alike
    by_cases list : tree.kind = "value_arguments"
    · exact alike.list list
    · rw [Tree.namedChildren_uncommented list, List.map_eq_nil_iff]
  · intro same
    refine ⟨fun call => absurd call noCall, fun declaration => ?_, fun _ => same⟩
    rw [noDeclaration] at declaration
    cases declaration

/-- Whether every node inside is lowered to the same without the comments in argument lists. -/
def InnerAlike (site : Site) (tree : Tree) : Prop :=
  ∀ child ∈ (site.inner tree).2,
    (site.inner tree).1.expr? child = (site.inner tree).1.expr? child.uncommented

theorem expr?_eq_uncommented_iff_of_call {tree : Tree} (call : tree.kind = "call_expression") :
    site.expr? tree = site.expr? tree.uncommented ↔
      site.DecidesAlike tree ∧ site.InnerAlike tree := by
  have bareCall : tree.uncommented.kind = "call_expression" := by rw [Tree.kind_uncommented, call]
  rw [decidesAlike_iff_of_call call, expr?_eq, expr?_eq, if_pos call, if_pos bareCall,
    Option.some_inj, InnerAlike, inner, if_pos call]
  cases read : CallParts.ofTree? tree with
  | none =>
    have readBare := CallParts.ofTree?_uncommented_of_none call read
    rw [call_eq, call_eq, read, readBare]
    simpa using group_eq_uncommented_iff
  | some parts =>
    obtain ⟨bare, readBare, loses⟩ := CallParts.exists_losesComments call read
    rw [call_eq_uncommented_iff read readBare loses, readBare, Option.map_some, Option.map_some,
      Option.some_inj]

theorem expr?_eq_uncommented_iff_of_isDeclaration {tree : Tree}
    (declaration : tree.isDeclaration = true) :
    site.expr? tree = site.expr? tree.uncommented ↔
      site.DecidesAlike tree ∧ site.InnerAlike tree := by
  have noCall := (Tree.kind_of_isDeclaration declaration).1
  rw [decidesAlike_iff_of_isDeclaration declaration, InnerAlike, inner, if_neg noCall,
    if_pos declaration]
  cases headed : (site.heading? tree).isSome with
  | true =>
    have lowered := site.declaration?_eq_iff_of_isDeclaration declaration
    rw [forall_prop_of_true headed] at lowered
    rw [← lowered, declaration?_eq_uncommented_iff headed]
  | false =>
    have headedBare := isSome_heading?_uncommented site tree
    rw [headed] at headedBare
    rw [Option.isSome_eq_false_iff, Option.isNone_iff_eq_none] at headed headedBare
    have bareDeclaration : tree.uncommented.isDeclaration = true := by
      rw [Tree.isDeclaration_uncommented, declaration]
    rw [expr?_of_heading?_none declaration headed,
      expr?_of_heading?_none bareDeclaration headedBare, Option.some_inj, group_eq_uncommented_iff,
      inDeclaration_of_heading?_none headed, headed, headedBare]
    exact (and_iff_right rfl).symm

theorem expr?_eq_uncommented_iff_of_other {tree : Tree} (noCall : tree.kind ≠ "call_expression")
    (noDeclaration : tree.isDeclaration = false) :
    site.expr? tree = site.expr? tree.uncommented ↔
      site.DecidesAlike tree ∧ site.InnerAlike tree := by
  have uncommented := tree.literal?_uncommented
  rw [decidesAlike_iff_of_other noCall noDeclaration, InnerAlike, inner, if_neg noCall,
    noDeclaration, if_neg Bool.false_ne_true]
  cases found : tree.literal? with
  | some literal =>
    have noList : tree.kind ≠ "value_arguments" := by
      rcases Tree.kind_of_literal? found with kind | kind <;> simp [kind]
    rw [found, Option.map_some] at uncommented
    rw [expr?_of_literal? found, expr?_of_literal? uncommented, Option.some_inj,
      lambda_eq_uncommented_iff, Tree.namedChildren_uncommented noList, List.map_eq_nil_iff]
    exact (and_iff_right Iff.rfl).symm
  | none =>
    rw [found, Option.map_none] at uncommented
    rw [expr?_of_literal?_none found, expr?_of_literal?_none uncommented, Tree.kind_uncommented,
      Tree.isDeclaration_uncommented, if_neg noCall, if_neg noCall, noDeclaration,
      if_neg Bool.false_ne_true, if_neg Bool.false_ne_true]
    by_cases annotated : tree.kind = "annotated_lambda"
    · have noList : tree.kind ≠ "value_arguments" := by simp [annotated]
      have sameEmpty : tree.namedChildren = [] ↔ tree.uncommented.namedChildren = [] := by
        rw [Tree.namedChildren_uncommented noList, List.map_eq_nil_iff]
      rw [and_iff_right sameEmpty, ← group_eq_uncommented_iff]
      simp [annotated]
    · by_cases empty : tree.namedChildren = []
      · have loses := Tree.losesComments_namedChildren tree
        rw [empty] at loses
        simp [annotated, empty, loses.eq_nil]
      · rw [← group_eq_uncommented_iff]
        by_cases emptied : tree.uncommented.namedChildren = [] <;>
          simp [annotated, empty, emptied]

/-- A node is lowered to the same without the comments in argument lists just when the same is
decided at it and every node inside is lowered to the same. -/
theorem expr?_eq_uncommented_iff (site : Site) (tree : Tree) :
    site.expr? tree = site.expr? tree.uncommented ↔
      site.DecidesAlike tree ∧ site.InnerAlike tree := by
  by_cases call : tree.kind = "call_expression"
  · exact expr?_eq_uncommented_iff_of_call call
  · cases declaration : tree.isDeclaration with
    | true => exact expr?_eq_uncommented_iff_of_isDeclaration declaration
    | false => exact expr?_eq_uncommented_iff_of_other call declaration

/-! ### All nodes below -/

/-- A node is lowered to the same without the comments in argument lists just when the same is
decided at every node that its lowering comes to. -/
theorem expr?_eq_uncommented_iff_forall_comesTo (site : Site) (tree : Tree) :
    site.expr? tree = site.expr? tree.uncommented ↔
      ∀ place node, ComesTo site tree place node → place.DecidesAlike node := by
  -- What is lowered with a node need not be a child of it, so the induction is on the size.
  induction size : sizeOf tree using Nat.strongRecOn generalizing site tree with
  | ind bound inductionHypothesis =>
    have children : site.InnerAlike tree ↔ ∀ child ∈ (site.inner tree).2, ∀ place node,
        ComesTo (site.inner tree).1 child place node → place.DecidesAlike node :=
      forall₂_congr fun child member => inductionHypothesis (sizeOf child)
        (size ▸ sizeOf_lt_of_mem_inner member) (site.inner tree).1 child rfl
    rw [expr?_eq_uncommented_iff, children]
    constructor
    · rintro ⟨here, inside⟩ place node comes
      cases comes with
      | here => exact here
      | inside member within => exact inside _ member place node within
    · intro all
      exact ⟨all site tree .here, fun child member place node within =>
        all place node (.inside member within)⟩

end Site

/-! ### Whole files -/

namespace SourceFile

theorem ofTree_eq_uncommented_iff (site : Site) (root : Tree) :
    ofTree site root = ofTree site root.uncommented ↔
      ∀ tree ∈ topTrees site root, site.expr? tree = site.expr? tree.uncommented := by
  have nodes : Tree.LosesComments
      (root.namedChildren.filter fun child => !fileHeaderKinds.contains child.kind)
      (root.uncommented.namedChildren.filter fun child => !fileHeaderKinds.contains child.kind) :=
    (Tree.losesComments_namedChildren root).filter fun child => by rw [Tree.kind_uncommented]
  rw [topTrees, ← Site.headed_eq_iff (nodes.filter Tree.isDeclaration_uncommented)
    (fun tree member => (List.mem_filter.mp member).2)
    (nodes.filter fun tree => by rw [Tree.isDeclaration_uncommented]), ofTree, ofTree,
    SourceFile.mk.injEq]
  exact and_iff_right rfl

end SourceFile

namespace ParsedFile

/-- The file without the comments in its argument lists, and with the same text. -/
def uncommented (file : ParsedFile) : ParsedFile := { file with root := file.root.uncommented }

theorem site_uncommented (file : ParsedFile) (symbols : SymbolTable) (markers : MarkerNames) :
    file.uncommented.site symbols markers = file.site symbols markers := by
  rw [site, site, Site.ofFile, Site.ofFile, uncommented, FileScope.ofTree_uncommented]

/-- A file is lowered to the same without the comments in its argument lists just when at every
node that is come to every call has the same meaning, every declaration the same heading, and
every list of arguments is still empty or still not. -/
theorem lower_uncommented_iff (file : ParsedFile) (symbols : SymbolTable) (markers : MarkerNames) :
    file.lower symbols markers = file.uncommented.lower symbols markers ↔
      ∀ place node, file.ComesTo symbols markers place node → place.DecidesAlike node := by
  rw [lower, lower, site_uncommented, uncommented, SourceFile.ofTree_eq_uncommented_iff]
  constructor
  · rintro alike place node ⟨top, member, comes⟩
    have top := (Site.expr?_eq_uncommented_iff_forall_comesTo _ top).mp (alike top member)
    exact top place node comes
  · intro all top member
    rw [Site.expr?_eq_uncommented_iff_forall_comesTo]
    exact fun place node comes => all place node ⟨top, member, comes⟩

end ParsedFile

/-! ### A block behind a comment -/

/-- The call `N(/* c */ { V })`, for a name and a number of one character each. -/
def Tree.commentedCall (start : Nat) : Tree :=
  branch "call_expression" start (start + 16) [
    leaf "identifier" start (start + 1),
    branch "value_arguments" (start + 1) (start + 16) [
      token "(" (start + 1) (start + 2),
      leaf "block_comment" (start + 2) (start + 9),
      branch "value_argument" (start + 10) (start + 15) [blockLiteral (start + 10)],
      token ")" (start + 15) (start + 16)]]

def commentedContent : List Char :=
  ["import com.github.tarcv.kotbridge.*\n", "fun interface A : Capturable<A>\n",
    "A(/* c */ \x7b 1 \x7d)\n"].flatMap String.toList

def commentedFile : ParsedFile where
  document := .ofFile ⟨"/p/src/A.kts"⟩ commentedContent ⟨"/p"⟩
  root := .branch "source_file" 0 85
    [.wholeLibraryImport 0, .capturableInterface 36 36 [], .commentedCall 68]

def commentedSymbols : SymbolTable := symbolsOf {} [commentedFile]

set_option maxRecDepth 10000 in
/-- The comment makes two arguments of one, and the block is not converted to the interface. -/
theorem commentedFile_lower_ne :
    commentedFile.lower commentedSymbols {} ≠
      commentedFile.uncommented.lower commentedSymbols {} := by
  intro same
  rw [ParsedFile.lower, ParsedFile.lower, ParsedFile.site_uncommented, ParsedFile.uncommented,
    SourceFile.ofTree_eq_uncommented_iff] at same
  have plain : (CallParts.ofTree? (.commentedCall 68)).any fun parts =>
      ((commentedFile.site commentedSymbols {}).converted? parts).isNone := by
    decide +kernel
  have converted : (CallParts.ofTree? (Tree.commentedCall 68).uncommented).any fun parts =>
      ((commentedFile.site commentedSymbols {}).converted? parts).isSome := by
    decide +kernel
  have top : Tree.commentedCall 68 ∈
      SourceFile.topTrees (commentedFile.site commentedSymbols {}) commentedFile.root :=
    List.mem_append_right _ (List.mem_singleton_self _)
  have alike := ((Site.expr?_eq_uncommented_iff _ _).mp (same _ top)).1.call rfl
  obtain ⟨parts, read, none⟩ := Option.any_eq_true _ _ |>.mp plain
  obtain ⟨bare, readBare, some⟩ := Option.any_eq_true _ _ |>.mp converted
  obtain ⟨conversion, found⟩ := Option.isSome_iff_exists.mp some
  rw [read, readBare, Option.map_some, Option.map_some, Option.some_inj, Site.meaning, Site.meaning,
    Option.isNone_iff_eq_none.mp none, found] at alike
  cases alike

end SourceCapture
