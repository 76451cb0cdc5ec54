/-
The items of a source file. The walk through a file performs its action at the items of the
flat list, one after the other.
-/

import SourceCapture.Traversal

namespace SourceCapture

/-! ### The flat list -/

theorem itemsOfExprs_eq_flatMap (exprs : List Expr) :
    itemsOfExprs exprs = exprs.flatMap Expr.items := by
  induction exprs with
  | nil => rfl
  | cons first rest inductionHypothesis =>
    rw [itemsOfExprs, inductionHypothesis, List.flatMap_cons]

theorem itemsOfDeclarations_eq_flatMap (declarations : List Declaration) :
    itemsOfDeclarations declarations = declarations.flatMap Declaration.items := by
  induction declarations with
  | nil => rfl
  | cons first rest inductionHypothesis =>
    rw [itemsOfDeclarations, inductionHypothesis, List.flatMap_cons]

theorem SourceFile.mem_items_of_mem_declarations {file : SourceFile} {declaration : Declaration}
    (member : declaration ∈ file.declarations) : Item.declaration declaration ∈ file.items := by
  rw [SourceFile.items, itemsOfDeclarations_eq_flatMap, List.mem_append, List.mem_flatMap]
  refine Or.inl ⟨declaration, member, ?_⟩
  cases declaration <;> exact List.mem_cons_self

/-! ### The walk -/

variable {m : Type → Type} [Monad m] [LawfulMonad m] (visit : Item → m Unit)

mutual

theorem walkDeclaration_eq_forM : ∀ declaration : Declaration,
    walkDeclaration visit declaration = forM declaration.items visit
  | .classLike header span members initializers => by
    rw [walkDeclaration, Declaration.items, List.forM_cons, List.forM_append,
      walkDeclarations_eq_forM members, walkExprs_eq_forM initializers]
  | .function name fqn annotations receiver parameters span body => by
    rw [walkDeclaration, Declaration.items, List.forM_cons, walkExprs_eq_forM body]
  | .property name fqn annotations span body => by
    rw [walkDeclaration, Declaration.items, List.forM_cons, walkExprs_eq_forM body]

theorem walkDeclarations_eq_forM : ∀ declarations : List Declaration,
    walkDeclarations visit declarations = forM (itemsOfDeclarations declarations) visit
  | [] => by rw [walkDeclarations, itemsOfDeclarations, List.forM_nil]
  | first :: rest => by
    rw [walkDeclarations, itemsOfDeclarations, List.forM_append, walkDeclaration_eq_forM first,
      walkDeclarations_eq_forM rest]

theorem walkExpr_eq_forM : ∀ expr : Expr, walkExpr visit expr = forM expr.items visit
  | .call span callee none arguments => by
    rw [walkExpr, Expr.items, List.forM_cons, List.forM_append, walkExprs_eq_forM arguments,
      walkReceiver, itemsOfReceiver, List.forM_nil]
  | .call span callee (some receiver) arguments => by
    rw [walkExpr, Expr.items, List.forM_cons, List.forM_append, walkExprs_eq_forM arguments,
      walkReceiver, itemsOfReceiver, walkExpr_eq_forM receiver]
  | .conversion span type owner operand => by
    rw [walkExpr, Expr.items, List.forM_cons, walkExpr_eq_forM operand]
  | .lambda span body => by
    rw [walkExpr, Expr.items, List.forM_cons, walkExprs_eq_forM body]
  | .declaration declaration => by
    rw [walkExpr, Expr.items, List.forM_cons, walkDeclaration_eq_forM declaration]
  | .group span children => by
    rw [walkExpr, Expr.items, List.forM_cons, walkExprs_eq_forM children]

theorem walkExprs_eq_forM : ∀ exprs : List Expr,
    walkExprs visit exprs = forM (itemsOfExprs exprs) visit
  | [] => by rw [walkExprs, itemsOfExprs, List.forM_nil]
  | first :: rest => by
    rw [walkExprs, itemsOfExprs, List.forM_append, walkExpr_eq_forM first, walkExprs_eq_forM rest]

end

/-- The walk through a file is its action along the list of the items. -/
theorem SourceFile.walk_eq_forM (file : SourceFile) : file.walk visit = forM file.items visit := by
  rw [SourceFile.walk, SourceFile.items, List.forM_append, walkDeclarations_eq_forM,
    walkExprs_eq_forM]

end SourceCapture
