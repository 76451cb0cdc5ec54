/-
Syntax trees of Kotlin files. A node has a kind, a range of the file and children; a child
is named when the grammar gives it a kind of its own and unnamed when it is a token that is
only spelled. Anything said about a node beyond that is read off the text it covers.
-/

import SourceCapture.Name
import SourceCapture.Span
import SourceCapture.Text.Blank
import SourceCapture.Text.Bytes

namespace SourceCapture

/-- The role that a child has in its parent. -/
inductive TreeField where
  | left
  | right
  deriving Repr, DecidableEq, Inhabited

/-- A node of a syntax tree with everything below it. -/
inductive Tree where
  | node (kind : String) (isNamed : Bool) (span : Span) (field : Option TreeField)
      (children : List Tree)
  deriving Repr, Inhabited

namespace Tree

/-- The kind of the node, for a token its spelling. -/
def kind : Tree → String
  | .node kind _ _ _ _ => kind

/-- Whether the grammar names the node. -/
def isNamed : Tree → Bool
  | .node _ isNamed _ _ _ => isNamed

/-- The range of the file that the node covers. -/
def span : Tree → Span
  | .node _ _ span _ _ => span

/-- The role of the node in its parent. -/
def field : Tree → Option TreeField
  | .node _ _ _ field _ => field

/-- Every child in order, tokens and comments included. -/
def children : Tree → List Tree
  | .node _ _ _ _ children => children

/-- The named children in order. -/
def namedChildren (tree : Tree) : List Tree := tree.children.filter (·.isNamed)

/-! ### What lies below is smaller -/

theorem sizeOf_lt_of_mem_children {child tree : Tree} (member : child ∈ tree.children) :
    sizeOf child < sizeOf tree := by
  cases tree with
  | node kind isNamed span field children =>
    have smaller := List.sizeOf_lt_of_mem member
    simp only [Tree.children] at smaller
    simp only [node.sizeOf_spec]
    omega

theorem mem_children_of_mem_namedChildren {child tree : Tree}
    (member : child ∈ tree.namedChildren) : child ∈ tree.children :=
  (List.mem_filter.mp member).1

theorem sizeOf_lt_of_mem_namedChildren {child tree : Tree}
    (member : child ∈ tree.namedChildren) : sizeOf child < sizeOf tree :=
  sizeOf_lt_of_mem_children (mem_children_of_mem_namedChildren member)

/-! ### Looking at a node -/

/-- The text that the node covers, empty where its range does not fit the file. -/
def text (content : List Char) (tree : Tree) : List Char :=
  (Text.slice? content tree.span).getD []

/-- The text of the node without white space at its ends. -/
def trimmedText (content : List Char) (tree : Tree) : List Char := Text.trim (tree.text content)

/-- The first child of one of the kinds. -/
def childOfKind? (tree : Tree) (kinds : List String) : Option Tree :=
  tree.children.find? fun child => kinds.contains child.kind

/-- Whether a child is a token of that spelling. -/
def hasToken (tree : Tree) (token : String) : Bool :=
  tree.children.any fun child => child.kind = token

/-- The first child with that role. -/
def childInField? (tree : Tree) (role : TreeField) : Option Tree :=
  tree.children.find? fun child => child.field = some role

/-- Whether the node is a simple name. -/
def isIdentifier (tree : Tree) : Bool :=
  ["identifier", "simple_identifier", "type_identifier"].contains tree.kind

/-- Whether the node declares a class, an object or a companion. -/
def isClassLike (tree : Tree) : Bool :=
  ["class_declaration", "object_declaration", "companion_object"].contains tree.kind

/-- Whether the node is a declaration. -/
def isDeclaration (tree : Tree) : Bool :=
  tree.isClassLike || tree.kind = "function_declaration" || tree.kind = "property_declaration"

/-- The name that an identifier spells. -/
def identifierName (content : List Char) (tree : Tree) : String :=
  Name.unquote (tree.text content)

/-- The simple name of a declaration: its first identifier. A companion may go without. -/
def declarationName? (content : List Char) (tree : Tree) : Option String :=
  match tree.children.find? isIdentifier with
  | some identifier => some (identifier.identifierName content)
  | none => if tree.kind = "companion_object" then some "Companion" else none

/-! ### Searching below a node -/

mutual

/-- The first node of one of the kinds in preorder, the node itself included. The search
goes down to named children only. -/
def find? (kinds : List String) : Tree → Option Tree
  | .node kind isNamed span field children =>
    if kinds.contains kind then some (.node kind isNamed span field children)
    else findAmong? kinds children

/-- The first node of one of the kinds at or below the named ones of some nodes. -/
def findAmong? (kinds : List String) : List Tree → Option Tree
  | [] => none
  | first :: rest =>
    if first.isNamed then
      match find? kinds first with
      | some found => some found
      | none => findAmong? kinds rest
    else findAmong? kinds rest

end

mutual

/-- The node and everything below it in preorder. -/
def nodes : Tree → List Tree
  | .node kind isNamed span field children =>
    .node kind isNamed span field children :: nodesAmong children

/-- The nodes and everything below them in preorder. -/
def nodesAmong : List Tree → List Tree
  | [] => []
  | first :: rest => nodes first ++ nodesAmong rest

end

mutual

theorem sizeOf_find?_le {kinds : List String} : ∀ {tree found : Tree},
    find? kinds tree = some found → sizeOf found ≤ sizeOf tree
  | .node kind isNamed span field children, found, result => by
    unfold find? at result
    split at result
    · cases result
      exact Nat.le_refl _
    · have smaller := sizeOf_findAmong?_lt result
      simp only [node.sizeOf_spec]
      omega

theorem sizeOf_findAmong?_lt {kinds : List String} : ∀ {trees : List Tree} {found : Tree},
    findAmong? kinds trees = some found → sizeOf found < sizeOf trees
  | [], found, result => by simp [findAmong?] at result
  | first :: rest, found, result => by
    unfold findAmong? at result
    simp only [List.cons.sizeOf_spec]
    split at result
    · split at result
      case h_1 inner same =>
        cases result
        have smaller := sizeOf_find?_le same
        omega
      case h_2 =>
        have smaller := sizeOf_findAmong?_lt result
        omega
    · have smaller := sizeOf_findAmong?_lt result
      omega

end

/-- What is found in a node that is itself not searched for lies below it. -/
theorem sizeOf_find?_lt {kinds : List String} {tree found : Tree}
    (other : kinds.contains tree.kind = false) (result : find? kinds tree = some found) :
    sizeOf found < sizeOf tree := by
  cases tree with
  | node kind isNamed span field children =>
    simp only [Tree.kind] at other
    simp only [find?, other, Bool.false_eq_true, if_false] at result
    have smaller := sizeOf_findAmong?_lt result
    simp only [node.sizeOf_spec]
    omega

/-! ### Modifiers -/

/-- The modifiers of a declaration: the plain words and the annotations. -/
structure Modifiers where
  words : List String := []
  annotations : List Tree := []

mutual

/-- What one node below the modifiers of a declaration adds to them. -/
def modifiersAt (content : List Char) : Tree → Modifiers
  | .node kind isNamed span field children =>
    let tree := Tree.node kind isNamed span field children
    if kind = "annotation" then ⟨[], [tree]⟩
    else if tree.namedChildren.isEmpty then
      ⟨[String.ofList (tree.trimmedText content)], []⟩
    else modifiersAmong content children

/-- What nodes below the modifiers of a declaration add to them. -/
def modifiersAmong (content : List Char) : List Tree → Modifiers
  | [] => {}
  | first :: rest =>
    let here := modifiersAt content first
    let others := modifiersAmong content rest
    ⟨here.words ++ others.words, here.annotations ++ others.annotations⟩

end

/-- The modifiers of a declaration. -/
def modifiers (content : List Char) (tree : Tree) : Modifiers :=
  match tree.childOfKind? ["modifiers"] with
  | some found => modifiersAmong content found.children
  | none => {}

end Tree

end SourceCapture
