/-
Which declarations and which conversions a file is lowered to. A call either stands for a
conversion of its only lambda itself, or its function takes some of the lambdas among the arguments
as interfaces, and nothing else makes a conversion. So the conversions of a file are those of the
calls that its lowering comes to, and its declarations are those of the nodes that declare one.
-/

import SourceCapture.Proofs.Lowering.Reached
import SourceCapture.Proofs.Traversal

namespace SourceCapture

/-- Whether an expression is a conversion. -/
def Expr.isConversion : Expr → Bool
  | .conversion _ _ _ _ => true
  | _ => false

/-- Whether an item may be captured: it is a declaration or a conversion. -/
def Item.isCandidate : Item → Bool
  | .declaration _ => true
  | .expression expr => expr.isConversion

namespace Site

/-- Whether a call makes an expression: as the conversion that it stands for, or as an argument
that its function takes as an interface. -/
inductive Converts (place : Site) (parts : CallParts) : Expr → Prop where
  | constructed {literal : Tree} {type : TypeRef} {owner : ClassHeader}
      (found : place.converted? parts = some (literal, type, owner)) :
      Converts place parts (.conversion (some literal.span) type owner (place.lambda literal))
  | passed {argument : Tree × ArgumentSlot} {literal : Tree} {type : TypeRef}
      {owner : ClassHeader} (plain : place.converted? parts = none)
      (member : argument ∈ parts.arguments place.content)
      (isLambda : argument.1.literal? = some literal)
      (target : place.target? (place.called? parts) argument.2 = some (type, owner)) :
      Converts place parts (.conversion (some literal.span) type owner (place.lambda literal))

/-- Whether a node is a call that makes an expression. -/
def Makes (place : Site) (node : Tree) (expr : Expr) : Prop :=
  node.kind = "call_expression" ∧
    ∃ parts, CallParts.ofTree? node = some parts ∧ place.Converts parts expr

/-- Whether a node is the declaration that an item is, or the call that makes it. -/
def TurnsInto (place : Site) (node : Tree) : Item → Prop
  | .declaration lowered => node.isDeclaration = true ∧ place.declaration? node = some lowered
  | .expression expr => place.Makes node expr

/-- Whether an item is part of what a node is lowered to. -/
def Yields (place : Site) (node : Tree) (item : Item) : Prop :=
  ∃ lowered, place.expr? node = some lowered ∧ item ∈ lowered.items

theorem target?_eq_some_iff {place : Site} {function? : Option FunctionSymbol}
    {slot : ArgumentSlot} {type : TypeRef} {owner : ClassHeader} :
    place.target? function? slot = some (type, owner) ↔
      ∃ function ∈ function?, ∃ parameter, parameterAt? function slot = some parameter ∧
        place.functionalInterface? parameter.fqn = some owner ∧
          parameter.erase function.typeParameters = type := by
  rw [target?]
  constructor
  · intro target
    obtain ⟨function, called, target⟩ := Option.bind_eq_some_iff.mp target
    obtain ⟨parameter, atSlot, target⟩ := Option.bind_eq_some_iff.mp target
    obtain ⟨found, known, target⟩ := Option.bind_eq_some_iff.mp target
    cases target
    exact ⟨function, called, parameter, atSlot, known, rfl⟩
  · rintro ⟨function, called, parameter, atSlot, known, rfl⟩
    exact Option.bind_eq_some_iff.mpr ⟨function, called,
      Option.bind_eq_some_iff.mpr ⟨parameter, atSlot,
        Option.bind_eq_some_iff.mpr ⟨owner, known, rfl⟩⟩⟩

/-! ### Items of lists -/

section

variable {place : Site} {item : Item} {trees : List Tree} {tree : Tree}

theorem mem_itemsOfExprs_iff : item ∈ itemsOfExprs (trees.filterMap place.expr?) ↔
    ∃ child ∈ trees, place.Yields child item := by
  rw [itemsOfExprs_eq_flatMap, List.mem_flatMap]
  constructor
  · rintro ⟨lowered, member, inside⟩
    obtain ⟨child, childMember, found⟩ := List.mem_filterMap.mp member
    exact ⟨child, childMember, lowered, found, inside⟩
  · rintro ⟨child, childMember, lowered, found, inside⟩
    exact ⟨lowered, List.mem_filterMap.mpr ⟨child, childMember, found⟩, inside⟩

theorem mem_receiver_iff (receiver? : Option Tree) :
    item ∈ itemsOfReceiver (receiver?.bind place.expr?) ↔
      ∃ child ∈ receiver?.toList, place.Yields child item := by
  cases receiver? with
  | none => exact iff_of_false List.not_mem_nil (by rintro ⟨child, ⟨⟩, -⟩)
  | some child =>
    rw [Option.bind_some, Option.toList_some]
    simp only [List.mem_singleton, exists_eq_left]
    rw [Yields]
    cases place.expr? child with
    | none => exact iff_of_false List.not_mem_nil (by rintro ⟨lowered, ⟨⟩, -⟩)
    | some lowered =>
      simp only [Option.some_inj, exists_eq_left']
      rfl

theorem turnsInto_iff_of_call (call : tree.kind = "call_expression") :
    place.TurnsInto tree item ↔ ∃ parts, CallParts.ofTree? tree = some parts ∧
      ∃ conversion, item = .expression conversion ∧ place.Converts parts conversion := by
  cases item with
  | declaration lowered =>
    refine iff_of_false (fun turns => ?_) (by rintro ⟨parts, -, conversion, ⟨⟩, -⟩)
    exact (Tree.kind_of_isDeclaration turns.1).1 call
  | expression expr =>
    rw [TurnsInto, Makes, and_iff_right call]
    simp only [Item.expression.injEq, exists_eq_left']

theorem turnsInto_iff_of_isDeclaration (declared : tree.isDeclaration = true) :
    place.TurnsInto tree item ↔
      ∃ lowered, place.declaration? tree = some lowered ∧ item = .declaration lowered := by
  cases item with
  | declaration lowered =>
    rw [TurnsInto, and_iff_right declared]
    simp only [Item.declaration.injEq, exists_eq_right']
  | expression expr =>
    refine iff_of_false (fun turns => ?_) (by rintro ⟨lowered, -, ⟨⟩⟩)
    exact (Tree.kind_of_isDeclaration declared).1 turns.1

variable (isCandidate : item.isCandidate = true)

include isCandidate

/-- Behind an expression that is no conversion, what may be captured is among the others. -/
theorem mem_cons_iff (other : Expr) (noConversion : other.isConversion = false)
    (items : List Item) : item ∈ Item.expression other :: items ↔ item ∈ items := by
  rw [List.mem_cons]
  refine or_iff_right ?_
  rintro rfl
  rw [Item.isCandidate, noConversion] at isCandidate
  cases isCandidate

/-- What is in a declaration is in what its node is lowered to as an expression. -/
theorem yields_iff_of_declaration {lowered : Declaration} (declared : tree.isDeclaration = true)
    (found : place.declaration? tree = some lowered) :
    place.Yields tree item ↔ item ∈ lowered.items := by
  have expr : place.expr? tree = some (.declaration lowered) := by
    rw [expr?_of_isDeclaration declared, found]
  have inner := mem_cons_iff isCandidate (.declaration lowered) rfl lowered.items
  constructor
  · rintro ⟨other, same, inside⟩
    rw [expr, Option.some_inj] at same
    subst same
    rw [Expr.items] at inside
    exact inner.mp inside
  · intro inside
    refine ⟨_, expr, ?_⟩
    rw [Expr.items]
    exact inner.mpr inside

theorem mem_itemsOfDeclarations_iff (declared : ∀ child ∈ trees, child.isDeclaration = true) :
    item ∈ itemsOfDeclarations (trees.filterMap place.declaration?) ↔
      ∃ child ∈ trees.filter (fun tree => (place.heading? tree).isSome),
        place.Yields child item := by
  rw [itemsOfDeclarations_eq_flatMap, List.mem_flatMap]
  constructor
  · rintro ⟨lowered, member, inside⟩
    obtain ⟨child, childMember, found⟩ := List.mem_filterMap.mp member
    have headed : (place.heading? child).isSome = true := by
      rw [← isSome_declaration?, found, Option.isSome_some]
    refine ⟨child, List.mem_filter.mpr ⟨childMember, headed⟩, ?_⟩
    exact (yields_iff_of_declaration isCandidate (declared child childMember) found).mpr inside
  · rintro ⟨child, headedMember, yields⟩
    obtain ⟨childMember, headed⟩ := List.mem_filter.mp headedMember
    rw [← isSome_declaration?] at headed
    obtain ⟨lowered, found⟩ := Option.isSome_iff_exists.mp headed
    refine ⟨lowered, List.mem_filterMap.mpr ⟨child, childMember, found⟩, ?_⟩
    exact (yields_iff_of_declaration isCandidate (declared child childMember) found).mp yields

/-- What is in the headed declarations and in the other nodes of a class or a file. -/
theorem mem_headed_iff (declared : ∀ child ∈ trees, child.isDeclaration = true)
    (others : List Tree) :
    item ∈ itemsOfDeclarations (trees.filterMap place.declaration?) ++
        itemsOfExprs (others.filterMap place.expr?) ↔
      ∃ child ∈ place.headed trees others, place.Yields child item := by
  rw [List.mem_append, mem_itemsOfDeclarations_iff isCandidate declared, mem_itemsOfExprs_iff,
    headed, ← exists_or]
  refine exists_congr fun child => ?_
  rw [List.mem_append, or_and_right]

/-! ### One node -/

theorem mem_group_iff : item ∈ (place.group tree).items ↔
    ∃ child ∈ tree.namedChildren, place.Yields child item := by
  rw [group_eq, Expr.items, mem_cons_iff isCandidate _ rfl, mem_itemsOfExprs_iff]

theorem mem_lambda_iff : item ∈ (place.lambda tree).items ↔
    ∃ child ∈ tree.statementTrees, place.Yields child item := by
  rw [lambda_eq, Expr.items, mem_cons_iff isCandidate _ rfl, mem_itemsOfExprs_iff]

/-- An argument adds a conversion of itself where its function takes it as an interface. -/
theorem mem_argument_iff {function? : Option FunctionSymbol} {slot : ArgumentSlot} :
    (∃ lowered, (place.expr? tree).map (place.passed function? slot) = some lowered ∧
        item ∈ lowered.items) ↔
      (∃ literal type owner, tree.literal? = some literal ∧
        place.target? function? slot = some (type, owner) ∧
          item = .expression
            (.conversion (some literal.span) type owner (place.lambda literal))) ∨
      place.Yields tree item := by
  cases found : tree.literal? with
  | none =>
    rw [map_passed_of_literal?_none found]
    refine (or_iff_right ?_).symm
    rintro ⟨literal, type, owner, same, -⟩
    cases same
  | some literal =>
    have yields : place.Yields tree item ↔ item ∈ (place.lambda literal).items := by
      rw [Yields, expr?_of_literal? found]
      simp only [Option.some_inj, exists_eq_left']
    rw [yields, expr?_of_literal? found, Option.map_some]
    simp only [Option.some_inj, exists_eq_left']
    cases target : place.target? function? slot with
    | none =>
      have taken : place.passed function? slot (place.lambda literal) = place.lambda literal := by
        rw [lambda_eq, passed_lambda, target]
      rw [taken]
      refine (or_iff_right ?_).symm
      rintro ⟨_, _, _, -, same, -⟩
      cases same
    | some pair =>
      obtain ⟨type, owner⟩ := pair
      have taken : place.passed function? slot (place.lambda literal) =
          .conversion (some literal.span) type owner (place.lambda literal) := by
        rw [lambda_eq, passed_lambda, target]
      rw [taken, Expr.items, List.mem_cons]
      refine or_congr_left ⟨?_, ?_⟩
      · rintro rfl
        exact ⟨literal, type, owner, rfl, rfl, rfl⟩
      · rintro ⟨_, _, _, sameLiteral, sameTarget, rfl⟩
        cases sameLiteral
        cases sameTarget
        rfl

theorem mem_arguments_iff {parts : CallParts} (plain : place.converted? parts = none) :
    item ∈ itemsOfExprs ((parts.arguments place.content).filterMap
        fun argument =>
          (place.expr? argument.1).map (place.passed (place.called? parts) argument.2)) ↔
      (∃ conversion, item = .expression conversion ∧ place.Converts parts conversion) ∨
        ∃ child ∈ (parts.arguments place.content).map (·.1), place.Yields child item := by
  rw [itemsOfExprs_eq_flatMap, List.mem_flatMap]
  constructor
  · rintro ⟨lowered, member, inside⟩
    obtain ⟨argument, argumentMember, taken⟩ := List.mem_filterMap.mp member
    rcases (mem_argument_iff isCandidate).mp ⟨lowered, taken, inside⟩ with made | yields
    · obtain ⟨literal, type, owner, isLambda, target, rfl⟩ := made
      exact Or.inl ⟨_, rfl, .passed plain argumentMember isLambda target⟩
    · exact Or.inr ⟨argument.1, List.mem_map_of_mem argumentMember, yields⟩
  · intro sources
    have given : ∃ argument ∈ parts.arguments place.content, ∃ lowered,
        (place.expr? argument.1).map (place.passed (place.called? parts) argument.2) =
          some lowered ∧ item ∈ lowered.items := by
      rcases sources with ⟨conversion, rfl, made⟩ | ⟨child, childMember, yields⟩
      · cases made with
        | constructed found =>
          rw [plain] at found
          cases found
        | passed _ argumentMember isLambda target =>
          exact ⟨_, argumentMember, (mem_argument_iff isCandidate).mpr
            (Or.inl ⟨_, _, _, isLambda, target, rfl⟩)⟩
      · obtain ⟨argument, argumentMember, rfl⟩ := List.mem_map.mp childMember
        exact ⟨argument, argumentMember, (mem_argument_iff isCandidate).mpr (Or.inr yields)⟩
    obtain ⟨argument, argumentMember, lowered, taken, inside⟩ := given
    exact ⟨lowered, List.mem_filterMap.mpr ⟨argument, argumentMember, taken⟩, inside⟩

/-- What a call yields is what it makes itself and what the nodes inside yield. -/
theorem yields_iff_of_call (call : tree.kind = "call_expression") :
    place.Yields tree item ↔ place.TurnsInto tree item ∨
      ∃ child ∈ (place.inner tree).2, (place.inner tree).1.Yields child item := by
  have yields : place.Yields tree item ↔ item ∈ (place.call tree).items := by
    rw [Yields, expr?_eq, if_pos call]
    simp only [Option.some_inj, exists_eq_left']
  rw [yields, call_eq, inner, if_pos call, turnsInto_iff_of_call call]
  cases read : CallParts.ofTree? tree with
  | none =>
    rw [mem_group_iff isCandidate]
    exact (or_iff_right (by rintro ⟨parts, ⟨⟩, -⟩)).symm
  | some parts =>
    simp only [Option.some_inj, exists_eq_left']
    rw [inCall]
    cases found : place.converted? parts with
    | some target =>
      obtain ⟨literal, type, owner⟩ := target
      dsimp only
      rw [Expr.items, List.mem_cons, mem_lambda_iff isCandidate]
      refine or_congr_left ⟨?_, ?_⟩
      · rintro rfl
        exact ⟨_, rfl, .constructed found⟩
      · rintro ⟨conversion, rfl, converts⟩
        cases converts with
        | constructed same =>
          rw [found] at same
          cases same
          rfl
        | passed plain =>
          rw [found] at plain
          cases plain
    | none =>
      dsimp only
      rw [Expr.items, mem_cons_iff isCandidate _ rfl, List.mem_append, mem_receiver_iff,
        mem_arguments_iff isCandidate found, or_left_comm, ← exists_or]
      refine or_congr_right (exists_congr fun child => ?_)
      rw [List.mem_append, or_and_right]

/-- What a declaration yields is itself, and what its members, its body or its initializers
yield. -/
theorem yields_iff_of_isDeclaration (declared : tree.isDeclaration = true) :
    place.Yields tree item ↔ place.TurnsInto tree item ∨
      ∃ child ∈ (place.inner tree).2, (place.inner tree).1.Yields child item := by
  have noCall := (Tree.kind_of_isDeclaration declared).1
  rw [inner, if_neg noCall, if_pos declared, turnsInto_iff_of_isDeclaration declared]
  cases headed : place.heading? tree with
  | none =>
    have nothing : place.declaration? tree = none := by
      rw [← Option.isNone_iff_eq_none, ← Option.not_isSome, isSome_declaration?, headed]
      rfl
    rw [inDeclaration_of_heading?_none headed, Yields, expr?_of_heading?_none declared headed,
      nothing]
    simp only [Option.some_inj, exists_eq_left']
    rw [or_iff_right (by rintro ⟨lowered, ⟨⟩, -⟩)]
    exact mem_group_iff isCandidate
  | some heading =>
    have lowers : (place.declaration? tree).isSome = true := by
      rw [isSome_declaration?, headed, Option.isSome_some]
    obtain ⟨lowered, found⟩ := Option.isSome_iff_exists.mp lowers
    rw [yields_iff_of_declaration isCandidate declared found, inDeclaration, found]
    simp only [Option.some_inj, exists_eq_left']
    cases declares_of_declaration? found with
    | function kind read =>
      rw [if_pos kind, read, Declaration.items, List.mem_cons, mem_itemsOfExprs_iff]
    | property kind named _ =>
      rw [if_neg (by simp [kind]), if_pos kind, named, Declaration.items, List.mem_cons,
        mem_itemsOfExprs_iff]
    | classLike noFunction noProperty read known inside =>
      subst known inside
      rw [if_neg noFunction, if_neg noProperty, read, Declaration.items, List.mem_cons]
      refine or_congr_right ?_
      exact mem_headed_iff isCandidate
        (fun child member => Tree.isDeclaration_of_mem_memberTrees member) _

/-- What a node yields is the declaration or the conversions that it makes itself and what the
nodes inside yield. -/
theorem yields_iff : place.Yields tree item ↔ place.TurnsInto tree item ∨
    ∃ child ∈ (place.inner tree).2, (place.inner tree).1.Yields child item := by
  by_cases call : tree.kind = "call_expression"
  · exact yields_iff_of_call isCandidate call
  · cases declared : tree.isDeclaration with
    | true => exact yields_iff_of_isDeclaration isCandidate declared
    | false =>
      have turnsIntoNothing : ¬place.TurnsInto tree item := by
        cases item with
        | declaration lowered => exact fun turns => Bool.false_ne_true (declared ▸ turns.1)
        | expression expr => exact fun turns => call turns.1
      rw [or_iff_right turnsIntoNothing, inner, if_neg call, declared, if_neg Bool.false_ne_true]
      cases found : tree.literal? with
      | some literal =>
        rw [Yields, expr?_of_literal? found]
        simp only [Option.some_inj, exists_eq_left']
        exact mem_lambda_iff isCandidate
      | none =>
        rw [Yields, expr?_of_literal?_none found, if_neg call, declared,
          if_neg Bool.false_ne_true]
        split
        case isTrue empty =>
          rw [empty.2]
          exact iff_of_false (by rintro ⟨lowered, ⟨⟩, -⟩) (by rintro ⟨child, ⟨⟩, -⟩)
        case isFalse =>
          simp only [Option.some_inj, exists_eq_left']
          exact mem_group_iff isCandidate

/-- A node yields the declarations and the conversions of the nodes that its lowering comes to. -/
theorem yields_iff_exists_comesTo (site : Site) (tree : Tree) :
    site.Yields tree item ↔
      ∃ place node, ComesTo site tree place node ∧ place.TurnsInto node item := by
  -- What is lowered with a node need not be a child of it, so the induction is on the size.
  induction size : sizeOf tree using Nat.strongRecOn generalizing site tree with
  | ind bound inductionHypothesis =>
    have inside : ∀ child ∈ (site.inner tree).2,
        ((site.inner tree).1.Yields child item ↔ ∃ place node,
          ComesTo (site.inner tree).1 child place node ∧ place.TurnsInto node item) :=
      fun child member => inductionHypothesis (sizeOf child)
        (size ▸ sizeOf_lt_of_mem_inner member) (site.inner tree).1 child rfl
    rw [yields_iff isCandidate]
    constructor
    · rintro (made | ⟨child, member, yields⟩)
      · exact ⟨site, tree, .here, made⟩
      · obtain ⟨place, node, comes, made⟩ := (inside child member).mp yields
        exact ⟨place, node, .inside member comes, made⟩
    · rintro ⟨place, node, comes, made⟩
      cases comes with
      | here => exact Or.inl made
      | inside member within =>
        exact Or.inr ⟨_, member, (inside _ member).mpr ⟨place, node, within, made⟩⟩

end

end Site

/-! ### Whole files -/

theorem Site.Converts.isConversion {place : Site} {parts : CallParts} {expr : Expr}
    (converts : place.Converts parts expr) : expr.isConversion = true := by
  cases converts with
  | constructed => rfl
  | passed => rfl

/-- The declarations and the conversions of a file are those of the nodes that its lowering comes
to. -/
theorem ParsedFile.mem_items_iff (file : ParsedFile) (symbols : SymbolTable)
    (markers : MarkerNames) {item : Item} (isCandidate : item.isCandidate = true) :
    item ∈ (file.lower symbols markers).items ↔
      ∃ place node, file.ComesTo symbols markers place node ∧ place.TurnsInto node item := by
  rw [lower, SourceFile.items, SourceFile.ofTree]
  dsimp only
  rw [Site.mem_headed_iff isCandidate fun child member => (List.mem_filter.mp member).2]
  simp only [Site.yields_iff_exists_comesTo isCandidate]
  constructor
  · rintro ⟨top, member, place, node, comes, made⟩
    exact ⟨place, node, ⟨top, member, comes⟩, made⟩
  · rintro ⟨place, node, ⟨top, member, comes⟩, made⟩
    exact ⟨top, member, place, node, comes, made⟩

/-- The conversions of a file are those that the calls make to which its lowering comes. -/
theorem ParsedFile.conversion_mem_items_iff (file : ParsedFile) (symbols : SymbolTable)
    (markers : MarkerNames) {conversion : Expr} (isConversion : conversion.isConversion = true) :
    Item.expression conversion ∈ (file.lower symbols markers).items ↔
      ∃ place node, file.ComesTo symbols markers place node ∧ place.Makes node conversion :=
  file.mem_items_iff symbols markers isConversion

end SourceCapture
