/-
The full names of the classes of a file, as the passes give them that go down its syntax tree from
child to child: the one that lists the classes for the look-up of names, the one that looks for
constants, and the one that registers declarations. Each of them keeps the name of the class that
it is in, and in all of them that is the package with the names of the classes around, from the
outermost to the innermost.
-/

import SourceCapture.Proofs.Symbols.Declared

namespace SourceCapture

/-! ### Names of class-like nodes -/

namespace Tree

variable {content : List Char} {package : Option String}

theorem isDeclaration_of_isClassLike {tree : Tree} (classLike : tree.isClassLike = true) :
    tree.isDeclaration = true := by
  rw [isDeclaration, classLike, Bool.true_or, Bool.true_or]

theorem kind_of_isClassLike {tree : Tree} (classLike : tree.isClassLike = true) :
    tree.kind ≠ "function_declaration" ∧ tree.kind ≠ "property_declaration" := by
  refine ⟨?_, ?_⟩ <;> intro kind <;> simp [isClassLike, kind] at classLike

/-- The node itself, if it is class-like. -/
def ownClass (tree : Tree) : List Tree := if tree.isClassLike then [tree] else []

/-- The simple name of a node, empty if it has none. -/
def simpleName (content : List Char) (tree : Tree) : String :=
  (tree.declarationName? content).getD ""

theorem simpleName_eq {tree : Tree} {name : String}
    (named : tree.declarationName? content = some name) : tree.simpleName content = name := by
  rw [simpleName, named, Option.getD_some]

/-- The package and the names of class-like nodes, each of them around those before it in the
list, with dots between them. -/
def fullName (content : List Char) (package : Option String) (chain : List Tree) : String :=
  Name.qualify package (".".intercalate (chain.reverse.map (simpleName content)))

/-- The full name of the innermost of some class-like nodes, if there are any. -/
def outerName? (content : List Char) (package : Option String) : List Tree → Option String
  | [] => none
  | innermost :: others => some (fullName content package (innermost :: others))

end Tree

/-- The full name of what is declared in a scope, or else at the top of a package. -/
def Name.within (package outer : Option String) (name : String) : String :=
  match outer with
  | some outer => member outer name
  | none => qualify package name

theorem Site.qualify_eq_within (site : Site) (name : String) :
    site.qualify name = Name.within site.scope.package site.enclosing.head? name := by
  rw [Site.qualify]
  cases site.enclosing <;> rfl

theorem Name.member_qualify (package : Option String) (scope name : String) :
    member (qualify package scope) name = qualify package (member scope name) := by
  cases package with
  | none => rfl
  | some package =>
    simp only [qualify, member]
    split
    · rfl
    · simp only [String.append_assoc]

namespace Tree

variable {content : List Char} {package : Option String}

theorem within_outerName? (node : Tree) (chain : List Tree) :
    Name.within package (outerName? content package chain) (node.simpleName content) =
      fullName content package (node :: chain) := by
  cases chain with
  | nil => rw [outerName?, Name.within, fullName]; rfl
  | cons outer rest =>
    have split : (node :: outer :: rest).reverse.map (simpleName content) =
        (outer :: rest).reverse.map (simpleName content) ++ [node.simpleName content] := by
      rw [List.reverse_cons, List.map_append]
      rfl
    rw [outerName?, Name.within, fullName, Name.member_qualify, fullName, split,
      String.intercalate_append_of_ne_nil (by simp) (List.cons_ne_nil _ _)]
    rfl

/-! ### Longer chains have longer names -/

/-- The characters that the names of a chain take, each with a dot. -/
def nameLength (content : List Char) : List Tree → Nat
  | [] => 0
  | innermost :: others =>
    (innermost.simpleName content).length + 1 + nameLength content others

theorem length_qualify (package : Option String) (name other : String) :
    (Name.qualify package name).length + other.length =
      (Name.qualify package other).length + name.length := by
  cases package with
  | none => exact Nat.add_comm _ _
  | some package =>
    simp only [Name.qualify, Name.member]
    split
    · exact Nat.add_comm _ _
    · simp only [String.length_append]
      omega

theorem length_fullName (node : Tree) (chain : List Tree) :
    (fullName content package (node :: chain)).length =
      (Name.qualify package (node.simpleName content)).length + nameLength content chain := by
  induction chain generalizing node with
  | nil => rfl
  | cons outer rest inductionHypothesis =>
    have dot : ".".length = 1 := rfl
    have other := length_qualify package (node.simpleName content) (outer.simpleName content)
    rw [← within_outerName?, outerName?, Name.within, Name.member, String.length_append,
      String.length_append, inductionHypothesis, nameLength, dot]
    omega

theorem nameLength_sublist (content : List Char) {some all : List Tree}
    (sublist : some.Sublist all) :
    nameLength content some + all.length ≤ nameLength content all + some.length := by
  induction sublist with
  | slnil => exact Nat.le_refl _
  | cons node _ inductionHypothesis =>
    simp only [nameLength, List.length_cons] at *
    omega
  | cons_cons node _ inductionHypothesis =>
    simp only [nameLength, List.length_cons] at *
    omega

/-- Of two chains, one of them a part of the other, only equal ones give a node the same name. -/
theorem eq_of_fullName_eq {node : Tree} {some all : List Tree} (sublist : some.Sublist all)
    (same : fullName content package (node :: some) = fullName content package (node :: all)) :
    some = all := by
  have lengths := congrArg String.length same
  rw [length_fullName, length_fullName] at lengths
  have shorter := nameLength_sublist content sublist
  refine sublist.eq_of_length_le ?_
  omega

end Tree

/-! ### Walks from child to child -/

namespace Tree

section

variable {State : Type} {into? : State → Tree → Option State} {state reached : State}
  {tree node : Tree} {around : List Tree}

/-- The nodes that a walk comes to which goes into a node with `into?`, with what it knows there
and with the class-like nodes on the way, innermost first. -/
inductive Descends (into? : State → Tree → Option State) :
    State → Tree → List Tree → State → Tree → Prop where
  | here {state : State} {tree : Tree} : Descends into? state tree [] state tree
  | inside {state inner reached : State} {tree child node : Tree} {around : List Tree}
      (enters : into? state tree = some inner) (member : child ∈ tree.namedChildren)
      (deeper : Descends into? inner child around reached node) :
      Descends into? state tree (around ++ tree.ownClass) reached node

/-- Whether a walk knows the class that it is in by its full name: it goes into a class-like node
with the name of the node in the class around, and into others with the same class. -/
structure Names (content : List Char) (package : Option String) (Knows : State → Prop)
    (outer? : State → Option String) (into? : State → Tree → Option State) : Prop where
  stays : ∀ {state tree inner}, Knows state → into? state tree = some inner → Knows inner
  outer : ∀ {state tree inner}, Knows state → into? state tree = some inner →
    outer? inner = if tree.isClassLike then
      some (Name.within package (outer? state) (tree.simpleName content)) else outer? state

theorem Names.outer?_eq {content : List Char} {package : Option String} {Knows : State → Prop}
    {outer? : State → Option String} (names : Names content package Knows outer? into?)
    (descends : Descends into? state tree around reached node) (knows : Knows state)
    (chain : List Tree) (start : outer? state = outerName? content package chain) :
    Knows reached ∧ outer? reached = outerName? content package (around ++ chain) := by
  induction descends generalizing chain with
  | here => exact ⟨knows, start⟩
  | @inside state inner _ tree _ _ _ enters _ _ inductionHypothesis =>
    rw [List.append_assoc]
    refine inductionHypothesis (names.stays knows enters) _ ?_
    rw [names.outer knows enters, start, within_outerName?, ownClass]
    split <;> rfl

/-- What a walk comes to is the node itself, or it is in one of the children. -/
theorem exists_descends_iff (Has : State → Tree → Prop) :
    (∃ around reached node, Descends into? state tree around reached node ∧ Has reached node) ↔
      Has state tree ∨ ∃ inner ∈ into? state tree, ∃ child ∈ tree.namedChildren,
        ∃ around reached node, Descends into? inner child around reached node ∧
          Has reached node := by
  constructor
  · rintro ⟨around, reached, node, descends, has⟩
    cases descends with
    | here => exact Or.inl has
    | inside enters member deeper => exact Or.inr ⟨_, enters, _, member, _, _, _, deeper, has⟩
  · rintro (has | ⟨inner, enters, child, member, around, reached, node, deeper, has⟩)
    · exact ⟨[], state, tree, .here, has⟩
    · exact ⟨_, reached, node, .inside enters member deeper, has⟩

/-- If what is found below a node is found at its children and below them, it is found at the nodes
that the walk comes to. -/
theorem below_iff_exists_descends (Below : State → Tree → Prop) {Has : State → Tree → Prop}
    (step : ∀ state tree, Below state tree ↔ ∃ child ∈ tree.namedChildren,
      Has state child ∨ ∃ inner ∈ into? state child, Below inner child)
    (state : State) (tree : Tree) :
    Below state tree ↔ ∃ child ∈ tree.namedChildren, ∃ around reached node,
      Descends into? state child around reached node ∧ Has reached node := by
  induction tree using Tree.induction generalizing state with
  | step tree inductionHypothesis =>
    rw [step]
    refine exists_congr fun child => and_congr_right fun member => ?_
    rw [exists_descends_iff]
    refine or_congr_right (exists_congr fun inner => and_congr_right fun _ => ?_)
    exact inductionHypothesis child (mem_children_of_mem_namedChildren member) inner

end

end Tree

/-! ### The list of the classes of a file -/

namespace FileScope

variable {content : List Char} {package : Option String}

/-- The name that a class-like node is listed under. -/
def listed? (content : List Char) (package outer : Option String) (tree : Tree) : Option String :=
  (tree.declarationName? content).map (Name.within package outer)

/-- The class that the classes below a node are listed in, if anything is looked for there. -/
def within? (content : List Char) (package outer : Option String) (tree : Tree) :
    Option (Option String) :=
  if tree.isClassLike then (listed? content package outer tree).map some
  else if tree.isDeclaration then none
  else some outer

theorem names_within? :
    Tree.Names content package (fun _ => True) id (within? content package) where
  stays _ _ := trivial
  outer {outer tree inner} _ enters := by
    rw [within?] at enters
    split at enters
    case isTrue classLike =>
      obtain ⟨fqn, entered, rfl⟩ := Option.map_eq_some_iff.mp enters
      obtain ⟨name, named, rfl⟩ := Option.map_eq_some_iff.mp entered
      rw [if_pos classLike, Tree.simpleName_eq named]
      rfl
    case isFalse other =>
      rw [if_neg other]
      split at enters
      · cases enters
      · cases enters
        rfl

/-- Whether a node is class-like and listed under that name. -/
def ListedAs (content : List Char) (package : Option String) (fqn : String)
    (outer : Option String) (node : Tree) : Prop :=
  node.isClassLike = true ∧ listed? content package outer node = some fqn

/-- The classes at and below a node. -/
def classesFrom (content : List Char) (package outer : Option String) (tree : Tree) :
    List String :=
  if tree.isClassLike then
    match listed? content package outer tree with
    | some fqn => classesBelow content package (some fqn) tree ++ [fqn]
    | none => []
  else if tree.isDeclaration then []
  else classesBelow content package outer tree

theorem classesAmong_eq_flatMap (outer : Option String) (trees : List Tree) :
    classesAmong content package outer trees =
      (trees.filter (·.isNamed)).flatMap (classesFrom content package outer) := by
  induction trees with
  | nil => rfl
  | cons first rest inductionHypothesis =>
    rw [classesAmong, inductionHypothesis, List.filter_cons]
    cases named : first.isNamed with
    | false =>
      rw [if_neg Bool.false_ne_true]
      rfl
    | true =>
      rw [if_pos rfl, List.flatMap_cons, classesFrom, listed?]
      cases first.declarationName? content <;> rfl

theorem mem_classesFrom_iff (fqn : String) (outer : Option String) (tree : Tree) :
    fqn ∈ classesFrom content package outer tree ↔ ListedAs content package fqn outer tree ∨
      ∃ inner ∈ within? content package outer tree,
        fqn ∈ classesBelow content package inner tree := by
  rw [classesFrom, ListedAs, within?]
  cases tree.isClassLike with
  | true =>
    simp only [if_true, true_and]
    cases listed? content package outer tree with
    | none => exact iff_of_false List.not_mem_nil (by simp)
    | some name =>
      rw [List.mem_append, List.mem_singleton, or_comm, eq_comm]
      simp only [Option.map_some, Option.mem_some_iff, Option.some_inj, exists_eq_left']
  | false =>
    simp only [Bool.false_eq_true, if_false, false_and, false_or]
    split
    · exact iff_of_false List.not_mem_nil (by rintro ⟨_, ⟨⟩, -⟩)
    · simp only [Option.mem_some_iff, exists_eq_left']

/-- The list has the names of the class-like nodes that the look-up for it comes to. -/
theorem mem_classesBelow_iff (fqn : String) (outer : Option String) (tree : Tree) :
    fqn ∈ classesBelow content package outer tree ↔ ∃ child ∈ tree.namedChildren,
      ∃ around reached node,
        Tree.Descends (within? content package) outer child around reached node ∧
          ListedAs content package fqn reached node := by
  refine Tree.below_iff_exists_descends
    (fun outer tree => fqn ∈ classesBelow content package outer tree)
    (fun outer tree => ?_) outer tree
  cases tree with
  | node kind isNamed span field children =>
    rw [classesBelow, classesAmong_eq_flatMap, List.mem_flatMap]
    exact exists_congr fun child => and_congr_right fun _ => mem_classesFrom_iff fqn outer child

end FileScope

/-! ### Constants and declarations -/

/-- Whether a place is in a file with that text and that package. -/
def Site.IsInFile (content : List Char) (package : Option String) (site : Site) : Prop :=
  site.content = content ∧ site.scope.package = package

namespace Site

variable {content : List Char} {package : Option String} {site : Site}

/-- The full name of the innermost class around a place, if there is one. -/
def outer? (site : Site) : Option String := site.enclosing.head?

theorem outer?_inside (isInFile : site.IsInFile content package) {tree : Tree} {name : String}
    (named : tree.declarationName? site.content = some name) :
    (site.inside (site.qualify name)).outer? =
      some (Name.within package site.outer? (tree.simpleName content)) := by
  rw [← isInFile.1, ← isInFile.2, Tree.simpleName_eq named, outer?, inside, qualify_eq_within]
  rfl

theorem declarationName?_of_classHeader {tree : Tree} {header : ClassHeader}
    (read : ClassHeader.ofTree? site tree = some header) :
    ∃ name, tree.declarationName? site.content = some name ∧ header.fqn = site.qualify name := by
  obtain ⟨name, named, rfl⟩ := Option.map_eq_some_iff.mp read
  exact ⟨name, named, rfl⟩

end Site

namespace ConstDefinition

variable {content : List Char} {package : Option String}

/-- The place at which the constants below a node are looked for, if any are. -/
def within? (site : Site) (tree : Tree) : Option Site :=
  if tree.isClassLike then
    (tree.declarationName? site.content).map fun name => site.inside (site.qualify name)
  else if tree.kind = "property_declaration" ∨ tree.kind = "function_declaration" then none
  else some site

theorem names_within? :
    Tree.Names content package (Site.IsInFile content package) Site.outer? within? where
  stays {site tree inner} isInFile enters := by
    rw [within?] at enters
    split at enters
    · obtain ⟨name, -, rfl⟩ := Option.map_eq_some_iff.mp enters
      exact isInFile
    · split at enters
      · cases enters
      · cases enters
        exact isInFile
  outer {site tree inner} isInFile enters := by
    rw [within?] at enters
    split at enters
    case isTrue classLike =>
      obtain ⟨name, named, rfl⟩ := Option.map_eq_some_iff.mp enters
      rw [if_pos classLike, Site.outer?_inside isInFile named]
    case isFalse other =>
      rw [if_neg other]
      split at enters
      · cases enters
      · cases enters
        rfl

/-- Whether a property is that definition of a constant. -/
def DefinedBy (definition : ConstDefinition) (site : Site) (property : Tree) : Prop :=
  property.kind = "property_declaration" ∧ ofProperty? site property = some definition

/-- The definitions at and below a node. -/
def listFrom (site : Site) (tree : Tree) : List ConstDefinition :=
  if tree.isClassLike then
    match tree.declarationName? site.content with
    | some name => listBelow (site.inside (site.qualify name)) tree
    | none => []
  else if tree.kind = "property_declaration" then (ofProperty? site tree).toList
  else if tree.kind = "function_declaration" then []
  else listBelow site tree

theorem listAmong_eq_flatMap (site : Site) (trees : List Tree) :
    listAmong site trees = (trees.filter (·.isNamed)).flatMap (listFrom site) := by
  induction trees with
  | nil => rfl
  | cons first rest inductionHypothesis =>
    rw [listAmong, inductionHypothesis, List.filter_cons]
    cases named : first.isNamed with
    | false =>
      rw [if_neg Bool.false_ne_true]
      rfl
    | true =>
      rw [if_pos rfl]
      rfl

theorem mem_listFrom_iff (definition : ConstDefinition) (site : Site) (tree : Tree) :
    definition ∈ listFrom site tree ↔ definition.DefinedBy site tree ∨
      ∃ inner ∈ within? site tree, definition ∈ listBelow inner tree := by
  rw [listFrom, DefinedBy, within?]
  cases classLike : tree.isClassLike with
  | true =>
    have noProperty := (Tree.kind_of_isClassLike classLike).2
    rw [or_iff_right fun both => noProperty both.1]
    simp only [if_true]
    cases tree.declarationName? site.content with
    | none => exact iff_of_false List.not_mem_nil (by rintro ⟨_, ⟨⟩, -⟩)
    | some name => simp only [Option.map_some, Option.mem_some_iff, exists_eq_left']
  | false =>
    simp only [Bool.false_eq_true, if_false]
    by_cases property : tree.kind = "property_declaration"
    · rw [if_pos property, if_pos (Or.inl property), Option.mem_toList, and_iff_right property]
      exact (or_iff_left (by rintro ⟨_, ⟨⟩, -⟩)).symm
    · rw [if_neg property, or_iff_right fun both => property both.1]
      by_cases function : tree.kind = "function_declaration"
      · rw [if_pos function, if_pos (Or.inr function)]
        exact iff_of_false List.not_mem_nil (by rintro ⟨_, ⟨⟩, -⟩)
      · rw [if_neg function, if_neg (not_or_intro property function)]
        simp only [Option.mem_some_iff, exists_eq_left']

/-- The definitions are those of the properties that the look-up for them comes to. -/
theorem mem_listBelow_iff (definition : ConstDefinition) (site : Site) (tree : Tree) :
    definition ∈ listBelow site tree ↔ ∃ child ∈ tree.namedChildren, ∃ around place node,
      Tree.Descends within? site child around place node ∧ definition.DefinedBy place node := by
  refine Tree.below_iff_exists_descends (fun site tree => definition ∈ listBelow site tree)
    (fun site tree => ?_) site tree
  cases tree with
  | node kind isNamed span field children =>
    rw [listBelow, listAmong_eq_flatMap, List.mem_flatMap]
    exact exists_congr fun child => and_congr_right fun _ => mem_listFrom_iff definition site child

end ConstDefinition

namespace FileSymbols

variable {content : List Char} {package : Option String}

theorem names_within? :
    Tree.Names content package (Site.IsInFile content package) Site.outer? within? where
  stays {site tree inner} isInFile enters := by
    rw [within?] at enters
    split at enters
    · obtain ⟨header, -, rfl⟩ := Option.map_eq_some_iff.mp enters
      exact isInFile
    split at enters
    · obtain ⟨header, -, rfl⟩ := Option.map_eq_some_iff.mp enters
      exact isInFile
    · cases enters
      exact isInFile
  outer {site tree inner} isInFile enters := by
    rw [within?] at enters
    split at enters
    case isTrue classLike =>
      obtain ⟨header, read, rfl⟩ := Option.map_eq_some_iff.mp enters
      obtain ⟨name, named, fqn⟩ := Site.declarationName?_of_classHeader read
      rw [if_pos classLike, ← Site.outer?_inside isInFile named, fqn]
      rfl
    case isFalse other =>
    rw [if_neg other]
    split at enters
    · obtain ⟨header, -, rfl⟩ := Option.map_eq_some_iff.mp enters
      rfl
    · cases enters
      rfl

/-- Registering goes down from child to child. -/
theorem comesTo_iff_exists_descends {site place : Site} {tree node : Tree} :
    ComesTo site tree place node ↔ ∃ around, Tree.Descends within? site tree around place node := by
  constructor
  · intro comes
    induction comes with
    | here => exact ⟨[], .here⟩
    | inside enters member _ inductionHypothesis =>
      obtain ⟨around, descends⟩ := inductionHypothesis
      exact ⟨_, .inside enters member descends⟩
  · rintro ⟨around, descends⟩
    induction descends with
    | here => exact .here
    | inside enters member _ inductionHypothesis => exact .inside enters member inductionHypothesis

/-- The classes that a file declares are those of the class-like nodes that registering comes
to. -/
theorem mem_classes_below_iff (site : Site) (tree : Tree) (header : ClassHeader) :
    header ∈ (below site tree).classes ↔ ∃ child ∈ tree.namedChildren, ∃ around place node,
      Tree.Descends within? site child around place node ∧ node.isClassLike = true ∧
        ClassHeader.ofTree? place node = some header := by
  have own (place : Site) (node : Tree) : header ∈ (own place node).classes ↔
      node.isClassLike = true ∧ ClassHeader.ofTree? place node = some header := by
    rw [FileSymbols.own]
    split
    case isTrue classLike => rw [Option.mem_toList, and_iff_right classLike]
    case isFalse other =>
      refine iff_of_false (fun member => ?_) fun both => other both.1
      split at member
      · cases member
      · cases member
  rw [has_below_iff (holdsByParts_classes header), Reaches]
  refine exists_congr fun child => and_congr_right fun _ => ?_
  simp only [comesTo_iff_exists_descends, own]
  constructor
  · rintro ⟨place, node, ⟨around, descends⟩, registered⟩
    exact ⟨around, place, node, descends, registered⟩
  · rintro ⟨around, place, node, descends, registered⟩
    exact ⟨place, node, ⟨around, descends⟩, registered⟩

end FileSymbols

end SourceCapture
