/-
What lowering makes of a node, without the bookkeeping by which its recursion is seen to end.
Each kind of node is lowered by one equation over the nodes inside, and proofs about the
lowering of all trees only use these.
-/

import SourceCapture.Lowering

namespace SourceCapture

/-! ### Reading items that are known to be members -/

theorem filterMap_attach {Item Result : Type} (items : List Item) (read : Item → Option Result) :
    (items.attach.filterMap fun item => read item.1) = items.filterMap read := by
  rw [List.filterMap_subtype (g := read) (fun _ _ => rfl), List.unattach_attach]

theorem bind_attach {Item Result : Type} (item? : Option Item) (read : Item → Option Result) :
    (item?.attach.bind fun item => read item.1) = item?.bind read := by
  cases item? <;> rfl

namespace Site

/-! ### Groups and lambdas -/

theorem group_eq (site : Site) (tree : Tree) :
    site.group tree = .group (some tree.span) (tree.namedChildren.filterMap site.expr?) := by
  rw [group, filterMap_attach]

theorem lambda_eq (site : Site) (tree : Tree) :
    site.lambda tree = .lambda (some tree.span) (tree.statementTrees.filterMap site.expr?) := by
  rw [lambda, filterMap_attach]

/-! ### Calls -/

/-- The lambda, the type and the interface of a call that stands for a conversion. -/
def converted? (site : Site) (parts : CallParts) : Option (Tree × TypeRef × ClassHeader) := do
  if parts.receiver?.isSome then none
  let literal ← parts.onlyLambda?
  let target ← site.construction? (← parts.name? site.content) parts.typeArguments?
  return (literal, target)

theorem converted?_eq_map_attach (site : Site) (parts : CallParts) :
    site.converted? parts = Option.map (fun found => (found.1.1, found.2))
      (do
        if parts.receiver?.isSome then none
        let literal ← parts.onlyLambda?.attach
        let target ← site.construction? (← parts.name? site.content) parts.typeArguments?
        return (literal, target)) := by
  rw [converted?]
  split
  · rfl
  · show (parts.onlyLambda?.bind fun literal => _) =
      Option.map _ (parts.onlyLambda?.attach.bind fun literal => _)
    generalize parts.onlyLambda? = only?
    cases only? with
    | none => rfl
    | some literal =>
      show ((parts.name? site.content).bind fun name => _) =
        Option.map _ ((parts.name? site.content).bind fun name => _)
      cases parts.name? site.content with
      | none => rfl
      | some name =>
        show ((site.construction? name parts.typeArguments?).bind fun target => _) =
          Option.map _ ((site.construction? name parts.typeArguments?).bind fun target => _)
        cases site.construction? name parts.typeArguments? <;> rfl

theorem onlyLambda?_of_converted? {site : Site} {parts : CallParts} {literal : Tree}
    {type : TypeRef} {owner : ClassHeader}
    (found : site.converted? parts = some (literal, type, owner)) :
    parts.onlyLambda? = some literal := by
  rw [converted?_eq_map_attach] at found
  obtain ⟨⟨only, target⟩, -, same⟩ := Option.map_eq_some_iff.mp found
  cases same
  exact only.2

theorem receiver?_of_converted? {site : Site} {parts : CallParts} {literal : Tree}
    {type : TypeRef} {owner : ClassHeader}
    (found : site.converted? parts = some (literal, type, owner)) : parts.receiver? = none := by
  rw [converted?] at found
  split at found
  case isTrue => cases found
  case isFalse noReceiver => exact Option.not_isSome_iff_eq_none.mp noReceiver

theorem construction?_of_converted? {site : Site} {parts : CallParts} {literal : Tree}
    {type : TypeRef} {owner : ClassHeader}
    (found : site.converted? parts = some (literal, type, owner)) :
    ∃ name, parts.name? site.content = some name ∧
      site.construction? name parts.typeArguments? = some (type, owner) := by
  rw [converted?] at found
  split at found
  · cases found
  · obtain ⟨only, -, found⟩ := Option.bind_eq_some_iff.mp found
    obtain ⟨name, named, found⟩ := Option.bind_eq_some_iff.mp found
    obtain ⟨target, constructed, found⟩ := Option.bind_eq_some_iff.mp found
    cases found
    exact ⟨name, named, constructed⟩

theorem functionalInterface?_of_converted? {site : Site} {parts : CallParts} {literal : Tree}
    {type : TypeRef} {owner : ClassHeader}
    (found : site.converted? parts = some (literal, type, owner)) :
    site.functionalInterface? type.fqn = some owner := by
  obtain ⟨name, -, constructed⟩ := construction?_of_converted? found
  rw [construction?] at constructed
  split at constructed
  · obtain ⟨interface, known, same⟩ := Option.map_eq_some_iff.mp constructed
    cases same
    exact known
  · cases constructed

/-- The function that a call means. -/
def called? (site : Site) (parts : CallParts) : Option FunctionSymbol :=
  (parts.name? site.content).bind (site.function? · parts.argumentCount)

theorem call_eq (site : Site) (tree : Tree) :
    site.call tree =
      match CallParts.ofTree? tree with
      | none => site.group tree
      | some parts =>
        match site.converted? parts with
        | some (literal, type, owner) =>
          .conversion (some literal.span) type owner (site.lambda literal)
        | none =>
          .call (some tree.span)
            (site.callee? (parts.name? site.content) (site.called? parts) parts.receiver?.isSome)
            (parts.receiver?.bind site.expr?)
            ((parts.arguments site.content).filterMap fun argument =>
              (site.expr? argument.1).map (site.passed (site.called? parts) argument.2)) := by
  rw [call]
  split
  case h_1 read => simp only [read]
  case h_2 parts read =>
    simp only [read]
    rw [converted?_eq_map_attach]
    split
    case h_1 literal only type owner found =>
      rw [found]
      rfl
    case h_2 found =>
      rw [found]
      dsimp only [Option.map_none]
      rw [bind_attach]
      exact congrArg (Expr.call _ _ _) (filterMap_attach (parts.arguments site.content)
        fun argument => (site.expr? argument.1).map (site.passed (site.called? parts) argument.2))

/-! ### Declarations and expressions -/

/-- A class is seen as the known class of its name if that is of the same kind, and else as it
is written. -/
theorem knownHeader_cases (site : Site) (written : ClassHeader) :
    (∃ known, site.symbols.class? written.fqn = some known ∧ known.kind = written.kind ∧
        site.knownHeader written =
          { known with supertypes := known.supertypes.map site.symbols.annotateSupertype }) ∨
      (∀ known, site.symbols.class? written.fqn = some known → known.kind ≠ written.kind) ∧
        site.knownHeader written = written := by
  rw [knownHeader, SymbolTable.resolvedClass?]
  cases site.symbols.class? written.fqn with
  | none =>
    refine Or.inr ⟨fun known found => ?_, rfl⟩
    cases found
  | some known =>
    rw [Option.map_some]
    by_cases same : known.kind = written.kind
    · rw [Option.filter_some_pos (by simpa using same), Option.getD_some]
      exact Or.inl ⟨known, rfl, same, rfl⟩
    · rw [Option.filter_some_neg (by simpa using same), Option.getD_none]
      refine Or.inr ⟨fun other found => ?_, rfl⟩
      cases found
      exact same

theorem declaration?_eq (site : Site) (tree : Tree) :
    site.declaration? tree =
      if tree.kind = "function_declaration" then
        (FunctionHeader.ofTree? site tree).map fun header =>
          .function header.name header.fqn header.annotations header.receiver header.parameters
            (some tree.span)
            (tree.bodyTrees.filterMap (site.withTypeParameters header.typeParameters).expr?)
      else if tree.kind = "property_declaration" then
        (tree.propertyName? site.content).map fun name =>
          let annotations := Annotation.listOfTree site tree
          .property name (site.qualify name) annotations (some tree.span)
            (tree.bodyTrees.filterMap site.expr?)
      else
        (ClassHeader.ofTree? site tree).map fun written =>
          let header := site.knownHeader written
          let within := (site.inside header.fqn).withTypeParameters header.typeParameters
          .classLike header (some tree.span) (tree.memberTrees.filterMap within.declaration?)
            (tree.initializerTrees.filterMap within.expr?) := by
  rw [declaration?]
  simp only [filterMap_attach]

/-- The declarations that a node can be lowered to. -/
inductive Declares (site : Site) (tree : Tree) : Declaration → Prop where
  | function {header : FunctionHeader} (kind : tree.kind = "function_declaration")
      (read : FunctionHeader.ofTree? site tree = some header) :
      Declares site tree (.function header.name header.fqn header.annotations header.receiver
        header.parameters (some tree.span)
        (tree.bodyTrees.filterMap (site.withTypeParameters header.typeParameters).expr?))
  | property {name : String} {annotations : List Annotation}
      (kind : tree.kind = "property_declaration")
      (named : tree.propertyName? site.content = some name)
      (written : annotations = Annotation.listOfTree site tree) :
      Declares site tree (.property name (site.qualify name) annotations (some tree.span)
        (tree.bodyTrees.filterMap site.expr?))
  | classLike {written header : ClassHeader} {within : Site}
      (noFunction : tree.kind ≠ "function_declaration")
      (noProperty : tree.kind ≠ "property_declaration")
      (read : ClassHeader.ofTree? site tree = some written)
      (known : header = site.knownHeader written)
      (inside : within = (site.inside header.fqn).withTypeParameters header.typeParameters) :
      Declares site tree (.classLike header (some tree.span)
        (tree.memberTrees.filterMap within.declaration?)
        (tree.initializerTrees.filterMap within.expr?))

theorem declares_of_declaration? {site : Site} {tree : Tree} {lowered : Declaration}
    (found : site.declaration? tree = some lowered) : site.Declares tree lowered := by
  rw [declaration?_eq] at found
  split at found
  case isTrue kind =>
    obtain ⟨header, read, rfl⟩ := Option.map_eq_some_iff.mp found
    exact .function kind read
  case isFalse noFunction =>
    split at found
    case isTrue kind =>
      obtain ⟨name, named, rfl⟩ := Option.map_eq_some_iff.mp found
      exact .property kind named rfl
    case isFalse noProperty =>
      obtain ⟨written, read, rfl⟩ := Option.map_eq_some_iff.mp found
      exact .classLike noFunction noProperty read rfl rfl

/-- A declaration has the range of its node. -/
theorem span_of_declaration? {site : Site} {tree : Tree} {lowered : Declaration}
    (found : site.declaration? tree = some lowered) : lowered.span = some tree.span := by
  cases declares_of_declaration? found with
  | function | property | classLike => rfl

theorem expr?_eq (site : Site) (tree : Tree) :
    site.expr? tree =
      if tree.kind = "call_expression" then some (site.call tree)
      else if tree.kind = "lambda_literal" then some (site.lambda tree)
      else if tree.kind = "annotated_lambda" then
        match tree.find? ["lambda_literal"] with
        | some literal => some (site.lambda literal)
        | none => some (site.group tree)
      else if tree.isDeclaration then
        match site.declaration? tree with
        | some declaration => some (.declaration declaration)
        | none => some (site.group tree)
      else if tree.namedChildren.isEmpty then none
      else some (site.group tree) := by
  rw [expr?]
  split
  · rfl
  · split
    · rfl
    · split
      · split <;> rename_i found <;> simp only [found]
      · rfl

/-- The expressions that a node can be lowered to. -/
inductive Expresses (site : Site) (tree : Tree) : Expr → Prop where
  | call (kind : tree.kind = "call_expression") : Expresses site tree (site.call tree)
  | lambda (kind : tree.kind = "lambda_literal") : Expresses site tree (site.lambda tree)
  | annotated {literal : Tree} (kind : tree.kind = "annotated_lambda")
      (found : tree.find? ["lambda_literal"] = some literal) :
      Expresses site tree (site.lambda literal)
  | declaration {lowered : Declaration} (declared : tree.isDeclaration = true)
      (found : site.declaration? tree = some lowered) :
      Expresses site tree (.declaration lowered)
  | group : Expresses site tree (site.group tree)

theorem expresses_of_expr? {site : Site} {tree : Tree} {expr : Expr}
    (found : site.expr? tree = some expr) : site.Expresses tree expr := by
  rw [expr?_eq] at found
  split at found
  case isTrue kind =>
    cases found
    exact .call kind
  case isFalse =>
  split at found
  case isTrue kind =>
    cases found
    exact .lambda kind
  case isFalse =>
  split at found
  case isTrue kind =>
    split at found
    case h_1 literal sought =>
      cases found
      exact .annotated kind sought
    case h_2 =>
      cases found
      exact .group
  case isFalse =>
  split at found
  case isTrue declared =>
    split at found
    case h_1 lowered sought =>
      cases found
      exact .declaration declared sought
    case h_2 =>
      cases found
      exact .group
  case isFalse =>
  split at found
  · cases found
  · cases found
    exact .group

/-- A call that stands for a conversion is lowered to it. -/
theorem expr?_of_converted? {site : Site} {tree literal : Tree} {parts : CallParts}
    {type : TypeRef} {owner : ClassHeader} (call : tree.kind = "call_expression")
    (read : CallParts.ofTree? tree = some parts)
    (found : site.converted? parts = some (literal, type, owner)) :
    site.expr? tree = some (.conversion (some literal.span) type owner (site.lambda literal)) := by
  rw [expr?_eq, if_pos call, call_eq, read]
  dsimp only
  rw [found]

end Site

end SourceCapture
