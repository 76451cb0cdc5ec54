/-
Syntax trees as listings. A listing holds the nodes of a tree in preorder, each with the
number of its children, and that is enough to find the tree again: read from the end, every
node has its children at the front of what was built so far.
-/

import SourceCapture.Number
import SourceCapture.Tree

namespace SourceCapture

/-- A node of a syntax tree without what is below it. -/
structure ListedNode where
  kind : String
  isNamed : Bool
  span : Span
  field : Option TreeField := none
  childCount : Nat
  deriving Repr, DecidableEq, Inhabited

namespace ListedNode

/-- Puts a node in front of the trees that follow it, the first of which are below it. -/
def graft (node : ListedNode) (following : List Tree) : List Tree :=
  .node node.kind node.isNamed node.span node.field (following.take node.childCount) ::
    following.drop node.childCount

/-- The role of a name. A dash is none. -/
def fieldOfName? : List Char → Option (Option TreeField)
  | ['-'] => some none
  | ['l', 'e', 'f', 't'] => some (some .left)
  | ['r', 'i', 'g', 'h', 't'] => some (some .right)
  | _ => none

/-- Reads a node from a line: the number of its children, both ends of its range, whether it
is named, its role and its kind, with a tab between any two. -/
def ofLine? (line : List Char) : Option ListedNode := do
  let number? := fun (text : List Char) =>
    (Number.readUnsigned 10 Number.unsignedLimit text).toOption
  match line.splitOn '\t' with
  | [childCount, start, stop, named, field, kind] =>
    return {
      kind := String.ofList kind
      isNamed := (← number? named) ≠ 0
      span := ⟨← number? start, ← number? stop⟩
      field := ← fieldOfName? field
      childCount := ← number? childCount }
  | _ => none

end ListedNode

namespace Tree

/-- The trees of a listing, of which the first is the one that was listed. -/
def listOfNodes (nodes : List ListedNode) : List Tree := nodes.foldr ListedNode.graft []

/-- The tree of a file in which nothing was found. -/
def nothing : Tree := .node "source_file" true ⟨0, 0⟩ none []

/-- The tree of a listing. -/
def ofNodes (nodes : List ListedNode) : Tree := (listOfNodes nodes).headD nothing

/-- Reads the tree of a listing with one node on each line. -/
def ofListing? (listing : List Char) : Option Tree :=
  (((listing.splitOn '\n').filter (!·.isEmpty)).mapM ListedNode.ofLine?).map ofNodes

end Tree

end SourceCapture
