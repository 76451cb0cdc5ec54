/-
What the sample trees of calls and interfaces are lowered to, wherever they stand.
-/

import SourceCapture.Proofs.Lowering.Equations
import SourceCapture.Proofs.SampleTrees

namespace SourceCapture

/-- The conversion of a block that starts at an offset to an interface. -/
def Expr.blockConversion (name : String) (owner : ClassHeader) (start : Nat) : Expr :=
  .conversion (some ⟨start, start + 5⟩)
    (.of name (owner.typeParameters.map fun _ => TypeRef.unknown) false) owner
    (.lambda (some ⟨start, start + 5⟩) [])

namespace Site

variable {site : Site} {start : Nat}

theorem lambda_blockLiteral (site : Site) (start : Nat) :
    site.lambda (.blockLiteral start) = .lambda (some ⟨start, start + 5⟩) [] := by
  have statement : site.expr? (.leaf "number_literal" (start + 2) (start + 3)) = none := by
    rw [expr?_eq]
    rfl
  rw [lambda_eq]
  show Expr.lambda _ (List.filterMap _ [Tree.leaf "number_literal" (start + 2) (start + 3)]) = _
  rw [List.filterMap_cons_none statement]
  rfl

/-- A call with a block converts the block to the interface of its name. -/
theorem expr?_blockCall {name : String} {owner : ClassHeader}
    (named : Tree.identifierName site.content (.leaf "identifier" start (start + 1)) = name)
    (isClass : FileScope.looksLikeClass name = true) (resolved : site.resolveClass name = name)
    (known : site.functionalInterface? name = some owner) :
    site.expr? (.blockCall start) = some (.blockConversion name owner (start + 2)) := by
  have target : site.construction? name none =
      some (.of name (owner.typeParameters.map fun _ => TypeRef.unknown) false, owner) := by
    rw [construction?, if_pos isClass, resolved]
    dsimp only
    rw [known]
    rfl
  have parts : CallParts.ofTree? (.blockCall start) =
      some ⟨.leaf "identifier" start (start + 1), [.lambda (.blockLiteral (start + 2))]⟩ := rfl
  have callee : CallParts.name? site.content
      ⟨.leaf "identifier" start (start + 1), [.lambda (.blockLiteral (start + 2))]⟩ = some name := by
    rw [← named]
    rfl
  have converted : site.converted?
      ⟨.leaf "identifier" start (start + 1), [.lambda (.blockLiteral (start + 2))]⟩ =
        some (.blockLiteral (start + 2),
          .of name (owner.typeParameters.map fun _ => TypeRef.unknown) false, owner) := by
    rw [converted?, callee]
    show (site.construction? name none).bind _ = _
    rw [target]
    rfl
  rw [expr?_of_converted? rfl parts converted, lambda_blockLiteral]
  rfl

/-- An interface is a declaration with the marks that are written at it. -/
theorem declaration?_capturableInterface {declared : Nat} {modifiers : List Tree}
    {marks : List Annotation}
    (marked : (ClassHeader.ofTree? site (.capturableInterface start declared modifiers)).map
      (fun written => (site.knownHeader written).annotations.filter (·.marks .captureSource)) =
        some marks)
    (plain : (Tree.capturableInterface start declared modifiers).initializerTrees = [])
    (memberless : (Tree.capturableInterface start declared modifiers).memberTrees = []) :
    ∃ header, header.annotations.filter (·.marks .captureSource) = marks ∧
      site.declaration? (.capturableInterface start declared modifiers) =
        some (.classLike header (some ⟨start, declared + 31⟩) [] []) := by
  obtain ⟨written, read, same⟩ := Option.map_eq_some_iff.mp marked
  refine ⟨site.knownHeader written, same, ?_⟩
  rw [declaration?_eq, read, plain, memberless]
  rfl

end Site

end SourceCapture
