/-
What the lowering of a node decides, and where it goes from there. At a call it is decided what the
call means, at a declaration how it is headed; everything else that a node is lowered to comes from
the nodes inside, each lowered at the place where it stands.
-/

import SourceCapture.Analysis
import SourceCapture.Proofs.Lowering.Equations

namespace SourceCapture

/-! ### Lambdas -/

/-- The lambda that a node stands for, if it stands for one. -/
def Tree.literal? (tree : Tree) : Option Tree :=
  if tree.kind = "lambda_literal" then some tree
  else if tree.kind = "annotated_lambda" then tree.find? ["lambda_literal"]
  else none

namespace Tree

theorem sizeOf_literal?_le {tree literal : Tree} (found : tree.literal? = some literal) :
    sizeOf literal ≤ sizeOf tree := by
  rw [literal?] at found
  split at found
  · cases found
    exact Nat.le_refl _
  · split at found
    · exact sizeOf_find?_le found
    · cases found

theorem kind_of_literal? {tree literal : Tree} (found : tree.literal? = some literal) :
    tree.kind = "lambda_literal" ∨ tree.kind = "annotated_lambda" := by
  rw [literal?] at found
  split at found
  case isTrue kind => exact .inl kind
  case isFalse =>
    split at found
    case isTrue kind => exact .inr kind
    case isFalse => cases found

/-- A declaration is neither a call nor a lambda nor a list of arguments. -/
theorem kind_of_isDeclaration {tree : Tree} (declaration : tree.isDeclaration = true) :
    tree.kind ≠ "call_expression" ∧ tree.kind ≠ "lambda_literal" ∧
      tree.kind ≠ "annotated_lambda" ∧ tree.kind ≠ "value_arguments" := by
  refine ⟨?_, ?_, ?_, ?_⟩ <;> intro kind <;> simp [isDeclaration, isClassLike, kind] at declaration

theorem isDeclaration_of_mem_memberTrees {tree member : Tree} (inside : member ∈ tree.memberTrees) :
    member.isDeclaration = true := by
  obtain ⟨body, -, found⟩ := List.mem_flatMap.mp inside
  exact (List.mem_filter.mp found).2

end Tree

/-! ### Calls -/

/-- What a call means: the conversion of a lambda to an interface, or the call of a function that
takes some of the lambdas as interfaces. -/
inductive CallMeaning where
  | conversion (type : TypeRef) (owner : ClassHeader)
  | call (callee : Option Callee) (targets : List (Option (TypeRef × ClassHeader)))

namespace Site

/-- The type and the interface that a function takes a lambda as at its place. -/
def target? (site : Site) (function? : Option FunctionSymbol) (slot : ArgumentSlot) :
    Option (TypeRef × ClassHeader) := do
  let function ← function?
  let parameter ← parameterAt? function slot
  let owner ← site.functionalInterface? parameter.fqn
  return (parameter.erase function.typeParameters, owner)

theorem passed_lambda (site : Site) (function? : Option FunctionSymbol) (slot : ArgumentSlot)
    (span : Option Span) (body : List Expr) :
    site.passed function? slot (.lambda span body) =
      match site.target? function? slot with
      | some (type, owner) => .conversion span type owner (.lambda span body)
      | none => .lambda span body := rfl

/-- What the function of a call takes the lambdas among the arguments as, in their order. -/
def targets (site : Site) (parts : CallParts) : List (Option (TypeRef × ClassHeader)) :=
  (parts.arguments site.content).filterMap fun argument =>
    argument.1.literal?.map fun _ => site.target? (site.called? parts) argument.2

/-- The function that a call is seen to call. -/
def calleeOf (site : Site) (parts : CallParts) : Option Callee :=
  site.callee? (parts.name? site.content) (site.called? parts) parts.receiver?.isSome

/-- The meaning of a call. -/
def meaning (site : Site) (parts : CallParts) : CallMeaning :=
  match site.converted? parts with
  | some (_, type, owner) => .conversion type owner
  | none => .call (site.calleeOf parts) (site.targets parts)

/-- The nodes inside a call that are lowered with it. -/
def inCall (site : Site) (parts : CallParts) : List Tree :=
  match site.converted? parts with
  | some (literal, _) => literal.statementTrees
  | none => parts.receiver?.toList ++ (parts.arguments site.content).map (·.1)

end Site

/-! ### Declarations -/

/-- How a declaration is headed, as far as it is not only a matter of names and signatures. -/
inductive Heading where
  | classLike (header : ClassHeader)
  | annotated (annotations : List Annotation)

namespace Site

/-- The heading of a declaration. One without the parts that its header needs has none. -/
def heading? (site : Site) (tree : Tree) : Option Heading :=
  if tree.kind = "function_declaration" then
    (FunctionHeader.ofTree? site tree).map fun header => .annotated header.annotations
  else if tree.kind = "property_declaration" then
    (tree.propertyName? site.content).map fun _ =>
      .annotated <| Annotation.listOfTree site tree
  else (ClassHeader.ofTree? site tree).map fun written => .classLike (site.knownHeader written)

/-- Declarations that have a heading, and other nodes. -/
def headed (site : Site) (declarations others : List Tree) : List Tree :=
  declarations.filter (fun tree => (site.heading? tree).isSome) ++ others

/-- The place inside a class. -/
def insideClass (site : Site) (header : ClassHeader) : Site :=
  (site.inside header.fqn).withTypeParameters header.typeParameters

/-- The nodes inside a declaration that are lowered with it, and the place where they stand. -/
def inDeclaration (site : Site) (tree : Tree) : Site × List Tree :=
  if tree.kind = "function_declaration" then
    match FunctionHeader.ofTree? site tree with
    | some header => (site.withTypeParameters header.typeParameters, tree.bodyTrees)
    | none => (site, tree.namedChildren)
  else if tree.kind = "property_declaration" then
    match tree.propertyName? site.content with
    | some _ => (site, tree.bodyTrees)
    | none => (site, tree.namedChildren)
  else
    match ClassHeader.ofTree? site tree with
    | some written =>
      let within := site.insideClass (site.knownHeader written)
      (within, within.headed tree.memberTrees tree.initializerTrees)
    | none => (site, tree.namedChildren)

/-! ### Nodes inside -/

/-- The nodes that are lowered with a node, and the place where they stand. -/
def inner (site : Site) (tree : Tree) : Site × List Tree :=
  if tree.kind = "call_expression" then
    match CallParts.ofTree? tree with
    | some parts => (site, site.inCall parts)
    | none => (site, tree.namedChildren)
  else if tree.isDeclaration then site.inDeclaration tree
  else
    match tree.literal? with
    | some literal => (site, literal.statementTrees)
    | none => (site, tree.namedChildren)

/-- What a node that is lowered with another one can be in it. -/
inductive IsInner (content : List Char) (tree : Tree) : Tree → Prop where
  | child {child : Tree} (member : child ∈ tree.namedChildren) : IsInner content tree child
  | ofClass {child : Tree} (member : child ∈ tree.memberTrees) : IsInner content tree child
  | initializer {child : Tree} (member : child ∈ tree.initializerTrees) : IsInner content tree child
  | literal {literal child : Tree} (found : tree.literal? = some literal)
      (member : child ∈ literal.namedChildren) : IsInner content tree child
  | onlyLambda {parts : CallParts} {literal child : Tree}
      (read : CallParts.ofTree? tree = some parts) (only : parts.onlyLambda? = some literal)
      (member : child ∈ literal.namedChildren) : IsInner content tree child
  | receiver {parts : CallParts} {child : Tree} (read : CallParts.ofTree? tree = some parts)
      (found : parts.receiver? = some child) : IsInner content tree child
  | argument {parts : CallParts} {argument : Tree × ArgumentSlot}
      (read : CallParts.ofTree? tree = some parts) (member : argument ∈ parts.arguments content) :
      IsInner content tree argument.1

theorem IsInner.sizeOf_lt {content : List Char} {tree child : Tree}
    (inner : IsInner content tree child) : sizeOf child < sizeOf tree := by
  cases inner with
  | child member => exact Tree.sizeOf_lt_of_mem_namedChildren member
  | ofClass member => exact Tree.sizeOf_lt_of_mem_memberTrees member
  | initializer member => exact Tree.sizeOf_lt_of_mem_initializerTrees member
  | literal found member =>
    exact Nat.lt_of_lt_of_le (Tree.sizeOf_lt_of_mem_namedChildren member)
      (Tree.sizeOf_literal?_le found)
  | onlyLambda read only member =>
    exact Nat.lt_trans (Tree.sizeOf_lt_of_mem_namedChildren member)
      (CallParts.sizeOf_lt_of_onlyLambda? read only)
  | receiver read found => exact CallParts.sizeOf_lt_of_receiver? read found
  | argument read member => exact CallParts.sizeOf_lt_of_mem_arguments read member

theorem isInner_of_mem_inCall {site : Site} {tree child : Tree} {parts : CallParts}
    (read : CallParts.ofTree? tree = some parts) (member : child ∈ site.inCall parts) :
    IsInner site.content tree child := by
  rw [inCall] at member
  split at member
  case h_1 literal type owner found =>
    exact .onlyLambda read (onlyLambda?_of_converted? found) (List.mem_filter.mp member).1
  case h_2 =>
    rcases List.mem_append.mp member with receiver | argument
    · exact .receiver read (Option.mem_toList.mp receiver)
    · obtain ⟨pair, pairMember, rfl⟩ := List.mem_map.mp argument
      exact .argument read pairMember

theorem isInner_of_mem_inDeclaration {site : Site} {tree child : Tree}
    (member : child ∈ (site.inDeclaration tree).2) : IsInner site.content tree child := by
  rw [inDeclaration] at member
  split at member
  · split at member
    · exact .child (List.mem_filter.mp member).1
    · exact .child member
  split at member
  · split at member
    · exact .child (List.mem_filter.mp member).1
    · exact .child member
  split at member
  · rcases List.mem_append.mp member with inner | inner
    · exact .ofClass (List.mem_filter.mp inner).1
    · exact .initializer inner
  · exact .child member

theorem isInner_of_mem_inner {site : Site} {tree child : Tree}
    (member : child ∈ (site.inner tree).2) : IsInner site.content tree child := by
  rw [inner] at member
  split at member
  · split at member
    case h_1 read => exact isInner_of_mem_inCall read member
    case h_2 => exact .child member
  split at member
  · exact isInner_of_mem_inDeclaration member
  split at member
  case h_1 literal found => exact .literal found (List.mem_filter.mp member).1
  case h_2 => exact .child member

theorem sizeOf_lt_of_mem_inner {site : Site} {tree child : Tree}
    (member : child ∈ (site.inner tree).2) : sizeOf child < sizeOf tree :=
  (isInner_of_mem_inner member).sizeOf_lt

/-- The places and nodes that the lowering of a node at a place comes to. -/
inductive ComesTo : Site → Tree → Site → Tree → Prop where
  | here {site : Site} {tree : Tree} : ComesTo site tree site tree
  | inside {site place : Site} {tree child node : Tree} (member : child ∈ (site.inner tree).2)
      (within : ComesTo (site.inner tree).1 child place node) : ComesTo site tree place node

end Site

/-- The nodes at the top of a file that are lowered. -/
def SourceFile.topTrees (site : Site) (root : Tree) : List Tree :=
  let nodes := root.namedChildren.filter fun child => !fileHeaderKinds.contains child.kind
  site.headed (nodes.filter (·.isDeclaration)) (nodes.filter (!·.isDeclaration))

/-- The places and nodes that the lowering of a file comes to. -/
def ParsedFile.ComesTo (file : ParsedFile) (symbols : SymbolTable) (markers : MarkerNames)
    (place : Site) (node : Tree) : Prop :=
  ∃ top ∈ SourceFile.topTrees (file.site symbols markers) file.root,
    Site.ComesTo (file.site symbols markers) top place node

namespace Site

/-! ### Lowering by these parts -/

theorem expr?_of_literal? {site : Site} {tree literal : Tree}
    (found : tree.literal? = some literal) : site.expr? tree = some (site.lambda literal) := by
  rw [Tree.literal?] at found
  rw [expr?_eq]
  split at found
  case isTrue kind =>
    cases found
    rw [if_neg (by simp [kind]), if_pos kind]
  case isFalse noLambda =>
    split at found
    case isTrue kind =>
      rw [if_neg (by simp [kind]), if_neg noLambda, if_pos kind, found]
    case isFalse => cases found

theorem expr?_of_literal?_none {site : Site} {tree : Tree} (noLiteral : tree.literal? = none) :
    site.expr? tree =
      if tree.kind = "call_expression" then some (site.call tree)
      else if tree.isDeclaration then
        match site.declaration? tree with
        | some declaration => some (.declaration declaration)
        | none => some (site.group tree)
      else if tree.kind ≠ "annotated_lambda" ∧ tree.namedChildren = [] then none
      else some (site.group tree) := by
  rw [Tree.literal?] at noLiteral
  rw [expr?_eq]
  split at noLiteral
  · cases noLiteral
  case isFalse noLambda =>
    rw [if_neg noLambda]
    refine ite_congr rfl (fun _ => rfl) fun _ => ?_
    split at noLiteral
    case isTrue kind =>
      have noDeclaration : tree.isDeclaration = false := by
        rw [← Bool.not_eq_true]
        exact fun declaration => (Tree.kind_of_isDeclaration declaration).2.2.1 kind
      rw [if_pos kind, noLiteral, noDeclaration, if_neg Bool.false_ne_true]
      simp [kind]
    case isFalse other =>
      rw [if_neg other]
      refine ite_congr rfl (fun _ => rfl) fun _ =>
        ite_congr (propext ?_) (fun _ => rfl) fun _ => rfl
      rw [List.isEmpty_iff]
      exact (and_iff_right other).symm

/-- The kinds of expressions that are never left out. -/
def expressionKinds : List String := ["call_expression", "lambda_literal", "annotated_lambda"]

/-- Only nodes with nothing inside are left out. -/
theorem expr?_eq_none_iff {site : Site} {tree : Tree} :
    site.expr? tree = none ↔
      tree.kind ∉ expressionKinds ∧ tree.isDeclaration = false ∧ tree.namedChildren = [] := by
  rw [expr?_eq]
  split
  case isTrue kind => simp [kind, expressionKinds]
  case isFalse noCall =>
    split
    case isTrue kind => simp [kind, expressionKinds]
    case isFalse noLambda =>
      split
      case isTrue kind =>
        split <;> simp [kind, expressionKinds]
      case isFalse noAnnotated =>
        have leaf : tree.kind ∉ expressionKinds := by
          simp [expressionKinds, noCall, noLambda, noAnnotated]
        split
        case isTrue declaration =>
          split <;> simp [declaration]
        case isFalse noDeclaration =>
          rw [Bool.not_eq_true] at noDeclaration
          split
          case isTrue empty => simp [leaf, noDeclaration, List.isEmpty_iff.mp empty]
          case isFalse full =>
            rw [List.isEmpty_iff] at full
            simp [full]

theorem isSome_declaration? (site : Site) (tree : Tree) :
    (site.declaration? tree).isSome = (site.heading? tree).isSome := by
  rw [declaration?_eq, heading?]
  split
  · rw [Option.isSome_map, Option.isSome_map]
  · split
    · rw [Option.isSome_map, Option.isSome_map]
    · rw [Option.isSome_map, Option.isSome_map]

theorem expr?_of_isDeclaration {site : Site} {tree : Tree}
    (declaration : tree.isDeclaration = true) :
    site.expr? tree = match site.declaration? tree with
      | some lowered => some (.declaration lowered)
      | none => some (site.group tree) := by
  obtain ⟨noCall, noLambda, noAnnotated, -⟩ := Tree.kind_of_isDeclaration declaration
  have lowered := expr?_eq site tree
  rw [if_neg noCall, if_neg noLambda, if_neg noAnnotated, if_pos declaration] at lowered
  exact lowered

/-- A declaration without a heading is only kept for what is inside. -/
theorem expr?_of_heading?_none {site : Site} {tree : Tree} (declaration : tree.isDeclaration = true)
    (headless : site.heading? tree = none) : site.expr? tree = some (site.group tree) := by
  have nothing := isSome_declaration? site tree
  rw [headless, Option.isSome_none, Option.isSome_eq_false_iff, Option.isNone_iff_eq_none]
    at nothing
  rw [expr?_of_isDeclaration declaration, nothing]

theorem inDeclaration_of_heading?_none {site : Site} {tree : Tree}
    (headless : site.heading? tree = none) :
    site.inDeclaration tree = (site, tree.namedChildren) := by
  rw [heading?] at headless
  rw [inDeclaration]
  split at headless
  case isTrue function =>
    rw [if_pos function, Option.map_eq_none_iff.mp headless]
  case isFalse noFunction =>
    rw [if_neg noFunction]
    split at headless
    case isTrue property =>
      rw [if_pos property, Option.map_eq_none_iff.mp headless]
    case isFalse noProperty =>
      rw [if_neg noProperty, Option.map_eq_none_iff.mp headless]

theorem inner_of_property {site : Site} {tree : Tree}
    (property : tree.kind = "property_declaration")
    (named : (tree.propertyName? site.content).isSome = true) :
    site.inner tree = (site, tree.bodyTrees) := by
  obtain ⟨name, named⟩ := Option.isSome_iff_exists.mp named
  have declared : tree.isDeclaration = true := by
    simp [Tree.isDeclaration, property]
  rw [inner, if_neg (by simp [property]), if_pos declared, inDeclaration,
    if_neg (by simp [property]), if_pos property, named]

/-- A function takes what is no lambda as it is. -/
theorem map_passed_of_literal?_none {site : Site} {tree : Tree} (noLiteral : tree.literal? = none)
    (function? : Option FunctionSymbol) (slot : ArgumentSlot) :
    (site.expr? tree).map (site.passed function? slot) = site.expr? tree := by
  rw [expr?_of_literal?_none noLiteral]
  split
  · rw [call_eq]
    split
    · rw [group_eq]
      rfl
    · split <;> rfl
  split
  · split
    · rfl
    · rw [group_eq]
      rfl
  split
  · rfl
  · rw [group_eq]
    rfl

end Site

end SourceCapture
