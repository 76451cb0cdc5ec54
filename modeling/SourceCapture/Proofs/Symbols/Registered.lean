/-
What a table knows after the symbols of a file were registered. Of the classes of one name the
last one of the file counts, before any that was known; the overloads of the file follow on
those that were known. The names that a file declares can be told from the file alone.
-/

import SourceCapture.Analysis
import SourceCapture.Proofs.Lowering.Views
import SourceCapture.Proofs.Tables

namespace SourceCapture

namespace FileSymbols

/-- The last class of a name. -/
def class? (found : FileSymbols) (fqn : String) : Option ClassHeader :=
  found.classes.reverse.find? fun header => header.fqn = fqn

/-- The functions of a name in order. -/
def overloads (found : FileSymbols) (fqn : String) : List FunctionSymbol :=
  found.functions.filter fun function => function.callee.fqn = fqn

/-- The names of the classes. -/
def classNames (found : FileSymbols) : List String := found.classes.map (·.fqn)

/-- The names of the functions. -/
def functionNames (found : FileSymbols) : List String := found.functions.map (·.callee.fqn)

/-! ### Registering -/

theorem get?_foldl_insertClass (classes : List ClassHeader) (symbols : SymbolTable)
    (fqn : String) : (classes.foldl SymbolTable.insertClass symbols).class? fqn =
      (classes.reverse.find? fun header => header.fqn = fqn).or (symbols.class? fqn) := by
  induction classes generalizing symbols with
  | nil => rfl
  | cons header rest inductionHypothesis =>
    rw [List.foldl_cons, inductionHypothesis, List.reverse_cons, List.find?_append, Option.or_assoc]
    refine congrArg (Option.or _) ?_
    rw [SymbolTable.class?, SymbolTable.insertClass, Table.get?_insert, List.find?_singleton]
    by_cases same : header.fqn = fqn
    · simp [same]
    · simp [same, Ne.symm same, SymbolTable.class?]

theorem functions_foldl_insertClass (classes : List ClassHeader) (symbols : SymbolTable) :
    (classes.foldl SymbolTable.insertClass symbols).functions = symbols.functions ∧
      (classes.foldl SymbolTable.insertClass symbols).constants = symbols.constants := by
  induction classes generalizing symbols with
  | nil => exact ⟨rfl, rfl⟩
  | cons header rest inductionHypothesis => exact inductionHypothesis _

theorem foldl_insertFunction (functions : List FunctionSymbol) (symbols : SymbolTable) :
    functions.foldl SymbolTable.insertFunction symbols =
      { symbols with functions := symbols.functions ++ functions } := by
  induction functions generalizing symbols with
  | nil => rw [List.foldl_nil, List.append_nil]
  | cons function rest inductionHypothesis =>
    rw [List.foldl_cons, inductionHypothesis, SymbolTable.insertFunction]
    simp

theorem class?_register (symbols : SymbolTable) (found : FileSymbols) (fqn : String) :
    (register symbols found).class? fqn = (found.class? fqn).or (symbols.class? fqn) := by
  rw [register, foldl_insertFunction]
  exact get?_foldl_insertClass found.classes symbols fqn

theorem overloads_register (symbols : SymbolTable) (found : FileSymbols) (fqn : String) :
    (register symbols found).overloads fqn = symbols.overloads fqn ++ found.overloads fqn := by
  rw [register, foldl_insertFunction, SymbolTable.overloads, List.filter_append,
    (functions_foldl_insertClass found.classes symbols).1]
  rfl

theorem constants_register (symbols : SymbolTable) (found : FileSymbols) :
    (register symbols found).constants = symbols.constants := by
  rw [register, foldl_insertFunction]
  exact (functions_foldl_insertClass found.classes symbols).2

theorem class?_eq_none_iff (found : FileSymbols) (fqn : String) :
    found.class? fqn = none ↔ fqn ∉ found.classNames := by
  rw [class?, List.find?_eq_none, classNames]
  simp

theorem overloads_eq_nil_iff (found : FileSymbols) (fqn : String) :
    found.overloads fqn = [] ↔ fqn ∉ found.functionNames := by
  rw [overloads, List.filter_eq_nil_iff, functionNames]
  simp

theorem hasClass_register (symbols : SymbolTable) (found : FileSymbols) (fqn : String) :
    (register symbols found).hasClass fqn = true ↔
      fqn ∈ found.classNames ∨ symbols.hasClass fqn = true := by
  have known : ∀ table : SymbolTable, table.hasClass fqn = (table.class? fqn).isSome :=
    fun table => rfl
  rw [known, known, class?_register, Option.isSome_or, Bool.or_eq_true, ← Option.ne_none_iff_isSome,
    Ne, class?_eq_none_iff, not_not]

end FileSymbols

namespace Site.SamePlace

variable {site other : Site}

/-! ### The names that a file declares -/

theorem withTypeParameters (same : site.SamePlace other) (names otherNames : List String) :
    (site.withTypeParameters names).SamePlace (other.withTypeParameters otherNames) :=
  ⟨same.content, same.scope, same.enclosing⟩

/-- A node has a class header or has none whatever is known of other files, and the header has
the same name. -/
theorem classHeader (same : site.SamePlace other) (tree : Tree) :
    (ClassHeader.ofTree? site tree).map (·.fqn) = (ClassHeader.ofTree? other tree).map (·.fqn) := by
  rw [ClassHeader.ofTree?, ClassHeader.ofTree?, Option.map_map, Option.map_map, same.content]
  refine congrArg (Option.map · _) (funext same.qualify)

theorem functionHeader (same : site.SamePlace other) (tree : Tree) :
    (FunctionHeader.ofTree? site tree).map (·.fqn) =
      (FunctionHeader.ofTree? other tree).map (·.fqn) := by
  simp only [FunctionHeader.ofTree?, same.content, same.qualify, Option.bind_eq_bind,
    Option.map_bind, Function.comp_def, apply_ite, Option.map_none, Option.pure_def,
    Option.map_some]

end Site.SamePlace

namespace FileSymbols

/-- Whether two files declare classes and functions of the same names in the same order. -/
structure SameNames (left right : FileSymbols) : Prop where
  classes : left.classNames = right.classNames
  functions : left.functionNames = right.functionNames

theorem SameNames.append {left right leftRest rightRest : FileSymbols}
    (first : left.SameNames right) (rest : leftRest.SameNames rightRest) :
    (left ++ leftRest).SameNames (right ++ rightRest) where
  classes := by
    show (left.classes ++ leftRest.classes).map _ = (right.classes ++ rightRest.classes).map _
    rw [List.map_append, List.map_append]
    exact congrArg₂ (· ++ ·) first.classes rest.classes
  functions := by
    show (left.functions ++ leftRest.functions).map _ =
      (right.functions ++ rightRest.functions).map _
    rw [List.map_append, List.map_append]
    exact congrArg₂ (· ++ ·) first.functions rest.functions

mutual

theorem sameNames_below {site other : Site} (same : site.SamePlace other) : ∀ tree : Tree,
    (below site tree).SameNames (below other tree)
  | .node _ _ _ _ children => by
    rw [below, below]
    exact sameNames_among same children

theorem sameNames_among {site other : Site} (same : site.SamePlace other) : ∀ trees : List Tree,
    (among site trees).SameNames (among other trees)
  | [] => ⟨rfl, rfl⟩
  | first :: rest => by
    rw [among, among]
    refine SameNames.append ?_ (sameNames_among same rest)
    split
    · exact ⟨rfl, rfl⟩
    · split
      · have header := same.classHeader first
        cases left : ClassHeader.ofTree? site first with
        | none =>
          rw [left, Option.map_none, eq_comm, Option.map_eq_none_iff] at header
          rw [header]
          exact ⟨rfl, rfl⟩
        | some leftHeader =>
          rw [left, Option.map_some, eq_comm, Option.map_eq_some_iff] at header
          obtain ⟨rightHeader, right, named⟩ := header
          rw [right]
          refine SameNames.append ⟨congrArg (fun fqn => [fqn]) named.symm, rfl⟩ ?_
          rw [named]
          exact sameNames_below ((same.inside _).withTypeParameters _ _) first
      · split
        · have header := same.functionHeader first
          cases left : FunctionHeader.ofTree? site first with
          | none =>
            rw [left, Option.map_none, eq_comm, Option.map_eq_none_iff] at header
            rw [header]
            exact ⟨rfl, rfl⟩
          | some leftHeader =>
            rw [left, Option.map_some, eq_comm, Option.map_eq_some_iff] at header
            obtain ⟨rightHeader, right, named⟩ := header
            rw [right]
            refine SameNames.append ⟨rfl, congrArg (fun fqn => [fqn]) named.symm⟩ ?_
            exact sameNames_below (same.withTypeParameters _ _) first
        · exact sameNames_below same first

end

end FileSymbols

end SourceCapture
