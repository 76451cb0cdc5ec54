/-
Which overload a call with a receiver means. The overloads of a name stand in the order in which
the files of a run were read, and the first of them with as many parameters as the call has
arguments is taken, whether it has a receiver or not. So a call comes to an extension function in
every order just when no overload with that many parameters is an ordinary function.
-/

import Mathlib.Data.List.Perm.Basic
import SourceCapture.Proofs.Imports
import SourceCapture.Proofs.Lowering.Equations
import SourceCapture.Proofs.SampleTrees

namespace SourceCapture

/-- Whether an overload is an extension function that takes that many arguments. -/
def FunctionSymbol.Extends (count : Nat) (function : FunctionSymbol) : Prop :=
  function.callee.isExtension = true ∧ function.parameters.length = count

/-! ### Orders of registration -/

namespace SymbolTable

/-- The symbols with these functions, registered in this order. -/
def registering (symbols : SymbolTable) (functions : List FunctionSymbol) : SymbolTable :=
  { symbols with functions }

variable {symbols : SymbolTable} {functions : List FunctionSymbol}

theorem firstOverloads_cons (symbols : SymbolTable) (fqn : String) (names : List String) :
    Site.firstOverloads symbols (fqn :: names) =
      if symbols.overloads fqn = [] then Site.firstOverloads symbols names
      else symbols.overloads fqn := by
  rw [Site.firstOverloads]
  split
  case h_1 none => rw [if_pos none]
  case h_2 some => rw [if_neg some]

theorem overloads_perm (reordered : functions.Perm symbols.functions) (fqn : String) :
    ((symbols.registering functions).overloads fqn).Perm (symbols.overloads fqn) :=
  reordered.filter _

theorem overloads_eq_nil_iff (reordered : functions.Perm symbols.functions) (fqn : String) :
    (symbols.registering functions).overloads fqn = [] ↔ symbols.overloads fqn = [] := by
  rw [← List.length_eq_zero_iff, ← List.length_eq_zero_iff, (overloads_perm reordered fqn).length_eq]

theorem firstOverloads_perm (reordered : functions.Perm symbols.functions) (names : List String) :
    (Site.firstOverloads (symbols.registering functions) names).Perm
      (Site.firstOverloads symbols names) := by
  induction names with
  | nil => exact .refl _
  | cons fqn names inductionHypothesis =>
    have empty := overloads_eq_nil_iff reordered fqn
    rw [firstOverloads_cons, firstOverloads_cons]
    split
    case isTrue none =>
      rw [if_pos (empty.mp none)]
      exact inductionHypothesis
    case isFalse some =>
      rw [if_neg (mt empty.mpr some)]
      exact overloads_perm reordered fqn

/-- An overload that is found is found first if it was registered first. -/
theorem head?_firstOverloads {function : FunctionSymbol} {others : List FunctionSymbol}
    (reordered : (function :: others).Perm symbols.functions) {names : List String}
    (found : function ∈ Site.firstOverloads symbols names) :
    (Site.firstOverloads (symbols.registering (function :: others)) names).head? =
      some function := by
  induction names with
  | nil => cases found
  | cons fqn names inductionHypothesis =>
    have empty := overloads_eq_nil_iff reordered fqn
    rw [firstOverloads_cons] at found ⊢
    split at found
    case isTrue none =>
      rw [if_pos (empty.mpr none)]
      exact inductionHypothesis found
    case isFalse some =>
      have named : decide (function.callee.fqn = fqn) = true := (List.mem_filter.mp found).2
      have first : (symbols.registering (function :: others)).overloads fqn =
          function :: others.filter (·.callee.fqn = fqn) :=
        List.filter_cons_of_pos named
      rw [if_neg (mt empty.mp some), first]
      rfl

end SymbolTable

/-! ### The overload that is taken -/

namespace Site

/-- The site with the functions of the run registered in another order. -/
def registering (site : Site) (functions : List FunctionSymbol) : Site :=
  { site with symbols := site.symbols.registering functions }

/-- The overloads under the first of the full names of a function that has any. -/
def overloads (site : Site) (name : String) : List FunctionSymbol :=
  firstOverloads site.symbols (site.scope.candidates site.enclosing name)

/-- Whether a node is lowered to a call of an extension function among the overloads of a name, one
that takes that many arguments. -/
def CallsExtension (site : Site) (name : String) (count : Nat) (tree : Tree) : Prop :=
  ∃ function ∈ site.overloads name, function.Extends count ∧ ∃ span receiver arguments,
    site.expr? tree = some (.call span (some function.callee) receiver arguments)

variable {site : Site} {name : String} {count : Nat} {tree : Tree} {parts : CallParts}
  {function : FunctionSymbol}

theorem mem_functions_of_mem_overloads (member : function ∈ site.overloads name) :
    function ∈ site.symbols.functions := by
  rw [overloads] at member
  generalize site.scope.candidates site.enclosing name = names at member
  induction names with
  | nil => cases member
  | cons fqn names inductionHypothesis =>
    rw [SymbolTable.firstOverloads_cons] at member
    split at member
    · exact inductionHypothesis member
    · exact List.mem_of_mem_filter member

/-- An overload with as many parameters as there are arguments is preferred to all others. -/
theorem function?_eq_find? (offered : ∃ function ∈ site.overloads name,
      function.parameters.length = count) :
    site.function? name count =
      (site.overloads name).find? fun function => function.parameters.length = count := by
  have some : ((site.overloads name).find? fun function =>
      function.parameters.length = count).isSome = true := by
    simpa [List.find?_isSome] using offered
  exact Option.or_of_isSome some

/-- A call with a receiver is lowered to a call of the function that it means. -/
theorem expr?_of_function? (kind : tree.kind = "call_expression")
    (read : CallParts.ofTree? tree = some parts) (named : parts.name? site.content = some name)
    (received : parts.receiver?.isSome = true)
    (means : site.function? name parts.argumentCount = some function) :
    ∃ span receiver arguments,
      site.expr? tree = some (.call span (some function.callee) receiver arguments) := by
  have plain : site.converted? parts = none := by
    rw [converted?, if_pos received]
    rfl
  have called : site.called? parts = some function := by
    rw [called?, named]
    exact means
  have callee : site.callee? (parts.name? site.content) (site.called? parts)
      parts.receiver?.isSome = some function.callee := by
    rw [called]
    rfl
  rw [expr?_eq, if_pos kind, call_eq, read]
  dsimp only
  rw [plain]
  dsimp only
  rw [callee]
  exact ⟨_, _, _, rfl⟩

/-- The import of an extension function that is called is among those that the call needs, unless
an annotation says otherwise. -/
theorem CallsExtension.mem_importsOf (calls : site.CallsExtension name count tree)
    (wanted : ∀ function ∈ site.overloads name, function.Extends count →
      ∀ note ∈ function.callee.annotations, note.marker ≠ some .noImport) :
    ∃ function ∈ site.overloads name, function.Extends count ∧ ∃ expr,
      site.expr? tree = some expr ∧ function.callee.fqn ∈ importsOf expr := by
  obtain ⟨function, member, extension, span, receiver, arguments, lowered⟩ := calls
  refine ⟨function, member, extension, _, lowered, ?_⟩
  rw [importsOf_eq, List.mem_eraseDups, List.mem_filterMap]
  refine ⟨.expression (.call span (some function.callee) receiver arguments), ?_, ?_⟩
  · rw [Expr.items]
    exact List.mem_cons_self
  · exact if_pos ⟨extension.1, wanted function member extension⟩

/-- If no overload that fits is an ordinary function, the call comes to an extension function. -/
theorem callsExtension_of_all (kind : tree.kind = "call_expression")
    (read : CallParts.ofTree? tree = some parts) (named : parts.name? site.content = some name)
    (received : parts.receiver?.isSome = true)
    (offered : ∃ function ∈ site.overloads name, function.parameters.length = parts.argumentCount)
    (all : ∀ function ∈ site.overloads name, function.parameters.length = parts.argumentCount →
      function.callee.isExtension = true) :
    site.CallsExtension name parts.argumentCount tree := by
  have preferred := function?_eq_find? offered
  obtain ⟨function, found⟩ : ∃ function, site.function? name parts.argumentCount = some function := by
    rw [preferred, ← Option.isSome_iff_exists, List.find?_isSome]
    simpa using offered
  have lowered := expr?_of_function? kind read named received found
  rw [preferred] at found
  have member := List.mem_of_find?_eq_some found
  have fits : function.parameters.length = parts.argumentCount := by
    simpa using List.find?_some found
  exact ⟨function, member, ⟨all function member fits, fits⟩, lowered⟩

/-- An ordinary function that fits hides every extension function behind it. -/
theorem not_callsExtension_of_head? (kind : tree.kind = "call_expression")
    (read : CallParts.ofTree? tree = some parts) (named : parts.name? site.content = some name)
    (received : parts.receiver?.isSome = true)
    (first : (site.overloads name).head? = some function)
    (fits : function.parameters.length = parts.argumentCount)
    (ordinary : function.callee.isExtension = false) :
    ¬site.CallsExtension name parts.argumentCount tree := by
  obtain ⟨others, same⟩ := List.head?_eq_some_iff.mp first
  have means : site.function? name parts.argumentCount = some function := by
    rw [function?_eq_find? ⟨function, List.mem_of_head? first, fits⟩, same,
      List.find?_cons_of_pos (by simpa using fits)]
  rintro ⟨other, -, ⟨extension, -⟩, span, receiver, arguments, lowered⟩
  obtain ⟨ownSpan, ownReceiver, ownArguments, own⟩ :=
    expr?_of_function? kind read named received means
  rw [own] at lowered
  injection lowered with lowered
  injection lowered with _ callee
  injection callee with callee
  rw [← callee, ordinary] at extension
  cases extension

/-- A call with a receiver comes to an extension function with as many parameters as it has
arguments, in whichever order the functions were registered, just when all overloads with that
many parameters are extension functions. -/
theorem callsExtension_in_every_order_iff (kind : tree.kind = "call_expression")
    (read : CallParts.ofTree? tree = some parts) (named : parts.name? site.content = some name)
    (received : parts.receiver?.isSome = true)
    (offered : ∃ function ∈ site.overloads name, function.Extends parts.argumentCount) :
    (∀ functions : List FunctionSymbol, functions.Perm site.symbols.functions →
        (site.registering functions).CallsExtension name parts.argumentCount tree) ↔
      ∀ function ∈ site.overloads name, function.parameters.length = parts.argumentCount →
        function.callee.isExtension = true := by
  constructor
  · intro always function member fits
    by_contra ordinary
    obtain ⟨front, back, split⟩ := List.append_of_mem (mem_functions_of_mem_overloads member)
    have reordered : (function :: (front ++ back)).Perm site.symbols.functions := by
      rw [split]
      exact List.perm_middle.symm
    have first : ((site.registering (function :: (front ++ back))).overloads name).head? =
        some function :=
      SymbolTable.head?_firstOverloads reordered member
    have hidden : ¬(site.registering (function :: (front ++ back))).CallsExtension name
        parts.argumentCount tree :=
      not_callsExtension_of_head? kind read named received first fits (Bool.eq_false_iff.mpr ordinary)
    exact hidden (always _ reordered)
  · intro all functions reordered
    have same : ((site.registering functions).overloads name).Perm (site.overloads name) :=
      SymbolTable.firstOverloads_perm reordered _
    obtain ⟨function, member, -, fits⟩ := offered
    refine callsExtension_of_all kind read named received ⟨function, same.mem_iff.mpr member, fits⟩ ?_
    exact fun other otherMember => all other (same.mem_iff.mp otherMember)

end Site

/-! ### A function behind another one -/

/-- A function named `f` without annotations and with parameters of these names. -/
def FunctionSymbol.sample (isExtension : Bool) (parameterNames : List String) : FunctionSymbol where
  callee := ⟨"f", isExtension, []⟩
  parameters := parameterNames.map fun _ => TypeRef.unknown
  parameterNames := parameterNames
  typeParameters := []

/-- The outermost place of a file with the call `a.f(1)`, where these functions are known. -/
def Site.ofFunctions (functions : List FunctionSymbol) : Site where
  content := "a.f(1)".toList
  scope := {}
  symbols := { functions }
  markers := {}

/-- The call `a.f(1)`. -/
def Tree.receiverCall : Tree :=
  branch "call_expression" 0 6 [
    branch "navigation_expression" 0 3
      [leaf "identifier" 0 1, token "." 1 2, leaf "identifier" 2 3],
    branch "value_arguments" 3 6 [
      token "(" 3 4,
      branch "value_argument" 4 5 [leaf "number_literal" 4 5],
      token ")" 5 6]]

/-- The callee and the argument of the call. -/
def CallParts.receiverCall : CallParts where
  callee := .branch "navigation_expression" 0 3
    [.leaf "identifier" 0 1, .token "." 1 2, .leaf "identifier" 2 3]
  pieces := [.value ⟨none, .leaf "number_literal" 4 5⟩]

theorem CallParts.ofTree?_receiverCall : ofTree? .receiverCall = some receiverCall := rfl

namespace Site

theorem name?_receiverCall (functions : List FunctionSymbol) :
    CallParts.receiverCall.name? (ofFunctions functions).content = some "f" := rfl

/-- Beside an ordinary function without parameters, the extension function is called, also if it is
registered first. -/
theorem callsExtension_receiverCall :
    ((ofFunctions [.sample false [], .sample true ["x"]]).registering
      [.sample true ["x"], .sample false []]).CallsExtension "f" 1 .receiverCall := by
  have read := CallParts.ofTree?_receiverCall
  have known : (ofFunctions [.sample false [], .sample true ["x"]]).overloads "f" =
      [.sample false [], .sample true ["x"]] := rfl
  refine (callsExtension_in_every_order_iff rfl read (name?_receiverCall _) rfl ?_).mpr ?_ _
    (List.Perm.swap _ _ _)
  · rw [known]
    exact ⟨.sample true ["x"], List.mem_cons_of_mem _ (List.mem_singleton_self _), rfl, rfl⟩
  · rw [known]
    intro function member fits
    rcases List.mem_pair.mp member with rfl | rfl
    · cases fits
    · rfl

/-- An ordinary function with one parameter is called in place of the extension function, if it was
registered before it. -/
theorem not_callsExtension_receiverCall :
    CallParts.receiverCall.receiver?.isSome = true ∧ CallParts.receiverCall.argumentCount = 1 ∧
      (∃ function ∈ (ofFunctions [.sample false ["x"], .sample true ["x"]]).overloads "f",
        function.Extends 1) ∧
      ¬(ofFunctions [.sample false ["x"], .sample true ["x"]]).CallsExtension "f" 1
        .receiverCall := by
  have known : (ofFunctions [.sample false ["x"], .sample true ["x"]]).overloads "f" =
      [.sample false ["x"], .sample true ["x"]] := rfl
  refine ⟨rfl, rfl, ?_, ?_⟩
  · rw [known]
    exact ⟨.sample true ["x"], List.mem_cons_of_mem _ (List.mem_singleton_self _), rfl, rfl⟩
  · exact not_callsExtension_of_head? rfl CallParts.ofTree?_receiverCall (name?_receiverCall _) rfl
      (congrArg List.head? known) rfl rfl

end Site

end SourceCapture
