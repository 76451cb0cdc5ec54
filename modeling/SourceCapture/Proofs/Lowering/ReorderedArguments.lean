/-
Calls with their arguments in another order. Where an argument is written with a name, its place
in the call does not matter for the parameter at which it lands, and which function is called only
hangs on how many arguments there are. So a call whose arguments are named is lowered to the same
call with the arguments in the other order, and every lambda among them is converted as before.
-/

import Mathlib.Data.List.Perm.Basic
import SourceCapture.Proofs.Lowering.SampleCalls

namespace SourceCapture

/-! ### The same call in another order -/

/-- Whether a part of a call behind its callee is the other one with the arguments between the
parentheses in another order, commas and comments included. -/
inductive Tree.ReordersPart : Tree → Tree → Prop
  | list {isNamed : Bool} {span : Span} {field : Option TreeField} {children others : List Tree}
      (reordered : others.Perm children) :
      ReordersPart (.node "value_arguments" isNamed span field children)
        (.node "value_arguments" isNamed span field others)
  | suffix {isNamed : Bool} {span : Span} {field : Option TreeField} {before after : List Tree}
      {part other : Tree} (inside : ReordersPart part other) :
      ReordersPart (.node "call_suffix" isNamed span field (before ++ part :: after))
        (.node "call_suffix" isNamed span field (before ++ other :: after))

/-- Whether a call is the other one with the arguments between the parentheses in another order. -/
inductive Tree.ReordersCall : Tree → Tree → Prop
  | call {span : Span} {field : Option TreeField} {isNamed : Bool} {callee part other : Tree}
      {before after : List Tree} (isCallee : callee ∈ before) (named : callee.isNamed = true)
      (behind : part.ReordersPart other) :
      ReordersCall (.node "call_expression" isNamed span field (before ++ part :: after))
        (.node "call_expression" isNamed span field (before ++ other :: after))

theorem Tree.ReordersPart.isNamed_eq {part other : Tree} (reorders : part.ReordersPart other) :
    other.isNamed = part.isNamed := by
  cases reorders <;> rfl

/-! ### The pieces of a call -/

theorem WrittenArgument.listOfTree_perm (list other : Tree)
    (reordered : other.children.Perm list.children) :
    (listOfTree other).Perm (listOfTree list) :=
  (reordered.filter _).filterMap _

namespace CallPiece

/-- Whether pieces are the others with some values among them, one behind the other, in another
order. -/
def ReorderValues (pieces others : List CallPiece) : Prop :=
  ∃ (front back : List CallPiece) (values reordered : List WrittenArgument),
    reordered.Perm values ∧
    pieces = front ++ values.map CallPiece.value ++ back ∧
    others = front ++ reordered.map CallPiece.value ++ back

theorem ReorderValues.refl (pieces : List CallPiece) : ReorderValues pieces pieces :=
  ⟨pieces, [], [], [], .refl _, by simp, by simp⟩

theorem ReorderValues.within {pieces others : List CallPiece} (reorder : ReorderValues pieces others)
    (before after : List CallPiece) :
    ReorderValues (before ++ pieces ++ after) (before ++ others ++ after) := by
  obtain ⟨front, back, values, reordered, perm, rfl, rfl⟩ := reorder
  exact ⟨before ++ front, back ++ after, values, reordered, perm, by simp, by simp⟩

theorem listAmong_eq_flatMap (trees : List Tree) :
    listAmong trees = (trees.filter (·.isNamed)).flatMap listOfTree := by
  induction trees with
  | nil => rfl
  | cons first rest inductionHypothesis =>
    rw [listAmong, inductionHypothesis]
    cases named : first.isNamed <;> simp [named]

/-- The named ones of some nodes, among which one is reordered. -/
theorem reorderValues_flatMap (before after : List Tree) {part other : Tree}
    (isNamed : other.isNamed = part.isNamed)
    (inside : ReorderValues (listOfTree part) (listOfTree other)) :
    ReorderValues (((before ++ part :: after).filter (·.isNamed)).flatMap listOfTree)
      (((before ++ other :: after).filter (·.isNamed)).flatMap listOfTree) := by
  rw [List.filter_append, List.filter_append, List.filter_cons, List.filter_cons, isNamed]
  split
  · simpa using inside.within ((before.filter (·.isNamed)).flatMap listOfTree)
      ((after.filter (·.isNamed)).flatMap listOfTree)
  · exact .refl _

theorem reorderValues_listOfTree {part other : Tree} (reorders : part.ReordersPart other) :
    ReorderValues (listOfTree part) (listOfTree other) := by
  induction reorders with
  | @list isNamed span field children others reordered =>
    have perm := WrittenArgument.listOfTree_perm
      (.node "value_arguments" isNamed span field children)
      (.node "value_arguments" isNamed span field others) reordered
    exact ⟨[], [], _, _, perm, by simp [listOfTree], by simp [listOfTree]⟩
  | @suffix isNamed span field before after part other inside inductionHypothesis =>
    have pieces := reorderValues_flatMap before after inside.isNamed_eq inductionHypothesis
    rw [← listAmong_eq_flatMap, ← listAmong_eq_flatMap] at pieces
    simpa [listOfTree] using pieces

end CallPiece

/-! ### The parts of a call -/

namespace CallParts

/-- Whether the parts of a call are the others with values in another order. -/
structure Reorders (parts others : CallParts) : Prop where
  callee : others.callee = parts.callee
  pieces : CallPiece.ReorderValues parts.pieces others.pieces

theorem exists_reorders {tree other : Tree} {parts : CallParts} (read : ofTree? tree = some parts)
    (reorders : tree.ReordersCall other) :
    ∃ others, ofTree? other = some others ∧ parts.Reorders others := by
  cases reorders with
  | @call span field isNamed callee part other before after isCallee named behind =>
    obtain ⟨first, rest, calleeFirst⟩ :=
      List.exists_cons_of_ne_nil (List.ne_nil_of_mem (List.mem_filter.mpr ⟨isCallee, named⟩))
    have children : ∀ part : Tree, (before ++ part :: after).filter (·.isNamed) =
        first :: (rest ++ (part :: after).filter (·.isNamed)) := fun part => by
      rw [List.filter_append, calleeFirst, List.cons_append]
    rw [ofTree?, Tree.namedChildren, Tree.children, children] at read
    cases read
    rw [ofTree?, Tree.namedChildren, Tree.children, children]
    refine ⟨_, rfl, rfl, ?_⟩
    have pieces := CallPiece.reorderValues_flatMap rest after behind.isNamed_eq
      (CallPiece.reorderValues_listOfTree behind)
    have allNamed : rest.filter (·.isNamed) = rest := by
      refine List.filter_eq_self.mpr fun tree member => ?_
      have inside : tree ∈ before.filter (·.isNamed) := calleeFirst ▸ List.mem_cons_of_mem _ member
      exact (List.mem_filter.mp inside).2
    rwa [List.filter_append, List.filter_append, allNamed] at pieces

namespace Reorders

variable {parts others : CallParts}

theorem values_perm (reorders : parts.Reorders others) : others.values.Perm parts.values := by
  obtain ⟨front, back, values, reordered, perm, pieces, same⟩ := reorders.pieces
  rw [CallParts.values, CallParts.values, pieces, same]
  simp only [List.filterMap_append, List.filterMap_map]
  exact ((perm.filterMap _).append_left _).append_right _

theorem lambdas_eq (reorders : parts.Reorders others) : others.lambdas = parts.lambdas := by
  obtain ⟨front, back, values, reordered, perm, pieces, same⟩ := reorders.pieces
  rw [CallParts.lambdas, CallParts.lambdas, pieces, same]
  simp [List.filterMap_map]

theorem typeArguments?_eq (reorders : parts.Reorders others) :
    others.typeArguments? = parts.typeArguments? := by
  obtain ⟨front, back, values, reordered, perm, pieces, same⟩ := reorders.pieces
  rw [CallParts.typeArguments?, CallParts.typeArguments?, pieces, same]
  simp [List.filterMap_map]

theorem argumentCount_eq (reorders : parts.Reorders others) :
    others.argumentCount = parts.argumentCount := by
  rw [argumentCount, argumentCount, reorders.lambdas_eq, reorders.values_perm.length_eq]

theorem name?_eq (reorders : parts.Reorders others) (content : List Char) :
    others.name? content = parts.name? content := by
  rw [name?, name?, isPath, isPath, reorders.callee]

theorem receiver?_eq (reorders : parts.Reorders others) : others.receiver? = parts.receiver? := by
  rw [receiver?, receiver?, isPath, isPath, reorders.callee]

/-- A call with one argument has no other order. -/
theorem onlyLambda?_eq (reorders : parts.Reorders others) :
    others.onlyLambda? = parts.onlyLambda? := by
  have perm := reorders.values_perm
  rw [onlyLambda?, onlyLambda?, reorders.lambdas_eq]
  match values : parts.values, otherValues : others.values with
  | [], found =>
    rw [values, otherValues] at perm
    rw [perm.eq_nil]
  | [only], found =>
    rw [values, otherValues] at perm
    rw [perm.eq_singleton]
  | first :: second :: rest, [] | first :: second :: rest, [only] =>
    rw [values, otherValues] at perm
    cases perm.length_eq
  | ⟨name?, value⟩ :: second :: rest, ⟨otherName?, otherValue⟩ :: otherSecond :: otherRest =>
    cases name? <;> cases otherName? <;> cases parts.lambdas <;> rfl

end Reorders

end CallParts

/-! ### What the call is lowered to -/

namespace Site

variable {site : Site} {tree other : Tree} {parts others : CallParts} {function : FunctionSymbol}

/-- Whether a node is a call of a function that is known. -/
structure Resolves (site : Site) (tree : Tree) (parts : CallParts) (function : FunctionSymbol) :
    Prop where
  kind : tree.kind = "call_expression"
  read : CallParts.ofTree? tree = some parts
  plain : site.converted? parts = none
  called : site.called? parts = some function

/-- What an argument with a name is passed as, if it is not left out. -/
def namedArgument? (site : Site) (function : FunctionSymbol) (argument : WrittenArgument) :
    Option Expr :=
  argument.name?.bind fun name => (site.expr? argument.value).map
    (site.passed (some function) (.named (Name.unquote (name.trimmedText site.content))))

/-- What a lambda behind the parentheses is passed as. -/
def trailingLambda? (site : Site) (function : FunctionSymbol) (literal : Tree) : Option Expr :=
  (site.expr? literal).map (site.passed (some function) .last)

theorem resolves_of_reorders (resolves : site.Resolves tree parts function)
    (reorders : tree.ReordersCall other) :
    ∃ others, site.Resolves other others function ∧ parts.Reorders others := by
  obtain ⟨others, read, same⟩ := CallParts.exists_reorders resolves.read reorders
  refine ⟨others, ⟨?_, read, ?_, ?_⟩, same⟩
  · cases reorders
    rfl
  · rw [converted?, same.receiver?_eq, same.onlyLambda?_eq, same.name?_eq, same.typeArguments?_eq]
    exact resolves.plain
  · rw [called?, same.name?_eq, same.argumentCount_eq]
    exact resolves.called

/-- The arguments of a call all of whose values are named or left out do not depend on their
positions. -/
theorem filterMap_arguments (site : Site) (function : FunctionSymbol)
    (named : ∀ argument ∈ parts.values,
      argument.name?.isSome = true ∨ site.expr? argument.value = none) :
    ((parts.arguments site.content).filterMap fun argument =>
        (site.expr? argument.1).map (site.passed (some function) argument.2)) =
      parts.values.filterMap (site.namedArgument? function) ++
        parts.lambdas.filterMap (site.trailingLambda? function) := by
  have value : ∀ entry ∈ parts.values.zipIdx,
      (site.expr? entry.1.value).map (site.passed (some function)
        (CallParts.slotOf site.content entry.2 entry.1)) =
        site.namedArgument? function entry.1 := by
    rintro ⟨⟨name?, value⟩, index⟩ member
    rw [namedArgument?, CallParts.slotOf]
    cases name? with
    | some name => rfl
    | none =>
      have nothing : site.expr? value = none :=
        (named _ (List.fst_mem_of_mem_zipIdx member)).resolve_left (by simp)
      rw [nothing]
      rfl
  have values : (parts.values.zipIdx.filterMap fun entry => site.namedArgument? function entry.1) =
      parts.values.filterMap (site.namedArgument? function) := by
    rw [← List.zipIdx_map_fst 0 parts.values, List.filterMap_map, List.zipIdx_map_fst]
    rfl
  rw [CallParts.arguments, List.filterMap_append, List.filterMap_map, List.filterMap_map, ← values]
  exact congrArg₂ (· ++ ·) (List.filterMap_congr value) rfl

theorem Resolves.expr?_eq (resolves : site.Resolves tree parts function)
    (named : ∀ argument ∈ parts.values,
      argument.name?.isSome = true ∨ site.expr? argument.value = none) :
    site.expr? tree = some (.call (some tree.span) (some function.callee)
      (parts.receiver?.bind site.expr?)
      (parts.values.filterMap (site.namedArgument? function) ++
        parts.lambdas.filterMap (site.trailingLambda? function))) := by
  rw [Site.expr?_eq, if_pos resolves.kind, call_eq, resolves.read]
  dsimp only
  rw [resolves.plain]
  dsimp only
  rw [resolves.called, filterMap_arguments site function named]
  rfl

end Site

/-! ### A call of two lambdas -/

/-- The interface `I`. -/
def ClassHeader.sampleInterface : ClassHeader := ⟨"I", "I", .functionalInterface, [], [], []⟩

/-- The function `f` with a parameter `a` of the interface `I` and a parameter `b`. -/
def FunctionSymbol.takingInterface : FunctionSymbol where
  callee := ⟨"f", false, []⟩
  parameters := [.of "I" [] false, .unknown]
  parameterNames := ["a", "b"]
  typeParameters := []

/-- The argument `n={ V }`, for a name and a number of one character each. -/
def Tree.namedBlock (start : Nat) : Tree :=
  branch "value_argument" start (start + 7)
    [leaf "identifier" start (start + 1), token "=" (start + 1) (start + 2), blockLiteral (start + 2)]

/-- The name and the value of the argument. -/
def WrittenArgument.namedBlock (start : Nat) : WrittenArgument :=
  ⟨some (.leaf "identifier" start (start + 1)), .blockLiteral (start + 2)⟩

/-- The call `f(a={ 1 }, b={ 2 })` with the arguments that start at these offsets. -/
def Tree.blocksCall (first second : Nat) : Tree :=
  branch "call_expression" 0 19 ([leaf "identifier" 0 1] ++
    branch "value_arguments" 1 19
      [token "(" 1 2, namedBlock first, token "," 9 10, namedBlock second, token ")" 18 19] :: [])

/-- The parts of the call. -/
def CallParts.blocksCall (first second : Nat) : CallParts :=
  ⟨.leaf "identifier" 0 1, [.value (.namedBlock first), .value (.namedBlock second)]⟩

theorem CallParts.ofTree?_blocksCall (first second : Nat) :
    ofTree? (.blocksCall first second) = some (blocksCall first second) := rfl

theorem Tree.reordersCall_blocksCall (first second : Nat) :
    (blocksCall first second).ReordersCall (blocksCall second first) := by
  have traded : [namedBlock second, token "," 9 10, namedBlock first, token ")" 18 19].Perm
      [namedBlock first, token "," 9 10, namedBlock second, token ")" 18 19] :=
    ((List.Perm.swap _ _ _).trans ((List.Perm.swap _ _ _).cons _)).trans (List.Perm.swap _ _ _)
  exact .call (List.mem_singleton_self _) rfl (.list (traded.cons _))

namespace Site

/-- The outermost place of the file with the call. -/
def ofBlocksCall : Site where
  content := "f(a=\x7b 1 \x7d, b=\x7b 2 \x7d)".toList
  scope := {}
  symbols := SymbolTable.insertClass { functions := [.takingInterface] } .sampleInterface
  markers := {}

theorem resolves_blocksCall :
    ofBlocksCall.Resolves (.blocksCall 2 11) (.blocksCall 2 11) .takingInterface :=
  ⟨rfl, rfl, rfl, rfl⟩

theorem namedArgument?_namedBlock (start : Nat) :
    ofBlocksCall.namedArgument? .takingInterface (.namedBlock start) =
      some (ofBlocksCall.passed (some .takingInterface)
        (.named (Name.unquote
          ((Tree.leaf "identifier" start (start + 1)).trimmedText ofBlocksCall.content)))
        (.lambda (some ⟨start + 2, start + 7⟩) [])) := by
  have lambda : ofBlocksCall.expr? (.blockLiteral (start + 2)) =
      some (.lambda (some ⟨start + 2, start + 7⟩) []) := by
    have kind : (Tree.blockLiteral (start + 2)).kind = "lambda_literal" := rfl
    rw [Site.expr?_eq, kind, if_neg (by decide), if_pos rfl, lambda_blockLiteral]
  rw [namedArgument?, WrittenArgument.namedBlock, Option.bind_some, lambda]
  rfl

end Site

end SourceCapture
