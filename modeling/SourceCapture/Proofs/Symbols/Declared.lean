/-
Where the functions and the classes of a run are declared. Registering the declarations of a file
goes down its syntax tree, and carries along which classes are around and which type parameters
they and the functions around have. Whatever is known in the end was read off a declaration at
the place where registering came to it.
-/

import Mathlib.Data.List.Induction
import SourceCapture.Proofs.Constants.AcrossFiles
import SourceCapture.Proofs.Symbols.AcrossFiles
import SourceCapture.Proofs.Trees

namespace SourceCapture

/-! ### The declarations of one file -/

namespace FileSymbols

/-- The place at which the declarations inside a node are registered. In a class or a function
without a header there are none. -/
def within? (site : Site) (tree : Tree) : Option Site :=
  if tree.isClassLike then
    (ClassHeader.ofTree? site tree).map fun header =>
      (site.inside header.fqn).withTypeParameters header.typeParameters
  else if tree.kind = "function_declaration" then
    (FunctionHeader.ofTree? site tree).map fun header =>
      site.withTypeParameters header.typeParameters
  else some site

/-- What is registered for a node itself. -/
def own (site : Site) (tree : Tree) : FileSymbols :=
  if tree.isClassLike then ⟨(ClassHeader.ofTree? site tree).toList, []⟩
  else if tree.kind = "function_declaration" then
    ⟨[], ((FunctionHeader.ofTree? site tree).map FunctionHeader.toSymbol).toList⟩
  else {}

/-- The places and nodes that registering a node comes to. -/
inductive ComesTo : Site → Tree → Site → Tree → Prop where
  | here {site : Site} {tree : Tree} : ComesTo site tree site tree
  | inside {site inner place : Site} {tree child node : Tree}
      (around : within? site tree = some inner) (member : child ∈ tree.namedChildren)
      (deeper : ComesTo inner child place node) : ComesTo site tree place node

/-- Whether something holds of what is registered for several parts just when it holds of one. -/
structure HoldsByParts (Has : FileSymbols → Prop) : Prop where
  empty : ¬Has {}
  append : ∀ left right, Has (left ++ right) ↔ Has left ∨ Has right

theorem holdsByParts_classes (header : ClassHeader) :
    HoldsByParts fun found => header ∈ found.classes :=
  ⟨List.not_mem_nil, fun _ _ => List.mem_append⟩

theorem HoldsByParts.and {Has : FileSymbols → Prop} (byParts : HoldsByParts Has) (other : Prop) :
    HoldsByParts fun found => Has found ∧ other :=
  ⟨fun holds => byParts.empty holds.1, fun left right => by rw [byParts.append, or_and_right]⟩

theorem holdsByParts_functions (function : FunctionSymbol) :
    HoldsByParts fun found => function ∈ found.functions :=
  ⟨List.not_mem_nil, fun _ _ => List.mem_append⟩

/-- Whether registering one of some nodes comes to a node for which something holds of what is
registered. -/
def Reaches (Has : FileSymbols → Prop) (site : Site) (trees : List Tree) : Prop :=
  ∃ tree ∈ trees, ∃ place node, ComesTo site tree place node ∧ Has (own place node)

section

variable {Has : FileSymbols → Prop} {site : Site}

theorem reaches_cons_iff (first : Tree) (rest : List Tree) :
    Reaches Has site (first :: rest) ↔
      (∃ place node, ComesTo site first place node ∧ Has (own place node)) ∨
        Reaches Has site rest := by
  rw [Reaches, List.exists_mem_cons_iff]
  rfl

theorem exists_comesTo_iff (tree : Tree) :
    (∃ place node, ComesTo site tree place node ∧ Has (own place node)) ↔
      Has (own site tree) ∨ ∃ inner ∈ within? site tree, Reaches Has inner tree.namedChildren := by
  constructor
  · rintro ⟨place, node, comes, holds⟩
    cases comes with
    | here => exact Or.inl holds
    | inside around member deeper =>
      exact Or.inr ⟨_, around, _, member, place, node, deeper, holds⟩
  · rintro (holds | ⟨inner, around, child, member, place, node, deeper, holds⟩)
    · exact ⟨site, tree, .here, holds⟩
    · exact ⟨place, node, .inside around member deeper, holds⟩

/-- What is registered for a class is its header and what is inside, and likewise for a function;
any other node only adds what is inside. -/
theorem has_entry_iff (byParts : HoldsByParts Has) (tree : Tree) :
    Has (if tree.isClassLike then
        match ClassHeader.ofTree? site tree with
        | some header => ⟨[header], []⟩ ++
            below ((site.inside header.fqn).withTypeParameters header.typeParameters) tree
        | none => {}
      else if tree.kind = "function_declaration" then
        match FunctionHeader.ofTree? site tree with
        | some header =>
          ⟨[], [header.toSymbol]⟩ ++ below (site.withTypeParameters header.typeParameters) tree
        | none => {}
      else below site tree) ↔
      Has (own site tree) ∨ ∃ inner ∈ within? site tree, Has (below inner tree) := by
  have headless : Has {} ↔ Has {} ∨ ∃ inner ∈ (none : Option Site), Has (below inner tree) :=
    (or_iff_left (by rintro ⟨inner, ⟨⟩, -⟩)).symm
  rw [own, within?]
  split
  · cases ClassHeader.ofTree? site tree with
    | none => exact headless
    | some header =>
      rw [byParts.append]
      exact or_congr_right (by simp only [Option.map_some, Option.mem_some_iff, exists_eq_left'])
  · split
    · cases FunctionHeader.ofTree? site tree with
      | none => exact headless
      | some header =>
        rw [byParts.append]
        exact or_congr_right (by simp only [Option.map_some, Option.mem_some_iff, exists_eq_left'])
    · refine (or_iff_right byParts.empty).symm.trans (or_congr_right ?_)
      simp only [Option.mem_some_iff, exists_eq_left']

mutual

theorem has_below_iff (byParts : HoldsByParts Has) : ∀ (site : Site) (tree : Tree),
    Has (below site tree) ↔ Reaches Has site tree.namedChildren
  | site, .node _ _ _ _ children => by
    rw [below]
    exact has_among_iff byParts site children

theorem has_among_iff (byParts : HoldsByParts Has) : ∀ (site : Site) (trees : List Tree),
    Has (among site trees) ↔ Reaches Has site (trees.filter (·.isNamed))
  | site, [] => iff_of_false byParts.empty (by rintro ⟨child, ⟨⟩, -⟩)
  | site, first :: rest => by
    have entry : (∃ inner ∈ within? site first, Has (below inner first)) ↔
        ∃ inner ∈ within? site first, Reaches Has inner first.namedChildren :=
      exists_congr fun inner => and_congr_right fun _ => has_below_iff byParts inner first
    rw [among, byParts.append, has_among_iff byParts site rest, List.filter_cons]
    cases named : first.isNamed with
    | false =>
      rw [Bool.not_false, if_pos rfl, if_neg Bool.false_ne_true]
      exact or_iff_right byParts.empty
    | true =>
      rw [Bool.not_true, if_neg Bool.false_ne_true, if_pos rfl, reaches_cons_iff,
        exists_comesTo_iff, ← entry]
      exact or_congr_left (has_entry_iff byParts first)

end

end

end FileSymbols

/-! ### The declarations of all files -/

variable {markers : MarkerNames} {files : List ParsedFile}

/-- The places and nodes that registering the declarations of a run comes to. Each file is
registered with the constants of all files and the declarations of those before it. -/
def DeclaredIn (markers : MarkerNames) (files : List ParsedFile) (place : Site) (node : Tree) :
    Prop :=
  ∃ before file after, files = before ++ file :: after ∧
    ∃ top ∈ file.root.namedChildren, FileSymbols.ComesTo
      (file.site (before.foldl (ParsedFile.addDeclarations markers) (constantsAfter markers files))
        markers) top place node

/-- What holds of the declarations of the files holds of what a run knows, if it holds of what is
known of the constants alone. -/
theorem exists_declaredIn_of_known (Knows : SymbolTable → Prop) {Has : FileSymbols → Prop}
    (nothing : ¬Knows (constantsAfter markers files)) (byParts : FileSymbols.HoldsByParts Has)
    (registers : ∀ symbols found, Knows (FileSymbols.register symbols found) →
      Has found ∨ Knows symbols) (known : Knows (symbolsOf markers files)) :
    ∃ place node, DeclaredIn markers files place node ∧ Has (FileSymbols.own place node) := by
  have upTo : ∀ before after, files = before ++ after →
      Knows (before.foldl (ParsedFile.addDeclarations markers) (constantsAfter markers files)) →
      ∃ place node, DeclaredIn markers files place node ∧ Has (FileSymbols.own place node) := by
    intro before
    induction before using List.reverseRecOn with
    | nil => exact fun after _ knows => absurd knows nothing
    | append_singleton before file inductionHypothesis =>
      intro after split knows
      rw [List.append_assoc, List.singleton_append] at split
      rw [List.foldl_append, List.foldl_cons, List.foldl_nil] at knows
      rcases registers _ _ knows with here | earlier
      · obtain ⟨top, member, place, node, comes, holds⟩ :=
          (FileSymbols.has_below_iff byParts _ _).mp here
        exact ⟨place, node, ⟨before, file, after, split, top, member, comes⟩, holds⟩
      · exact inductionHypothesis _ split earlier
  exact upTo files [] (List.append_nil files).symm known

/-- Every function that a run knows is declared in one of its files. -/
theorem exists_declaredIn_of_mem_functions {function : FunctionSymbol}
    (known : function ∈ (symbolsOf markers files).functions) :
    ∃ place node, DeclaredIn markers files place node ∧
      function ∈ (FileSymbols.own place node).functions := by
  refine exists_declaredIn_of_known (fun symbols => function ∈ symbols.functions) ?_
    (FileSymbols.holdsByParts_functions function) (fun symbols found member => ?_) known
  · rw [functions_constantsAfter]
    exact List.not_mem_nil
  · rw [FileSymbols.register, FileSymbols.foldl_insertFunction, List.mem_append,
      (FileSymbols.functions_foldl_insertClass found.classes symbols).1] at member
    exact member.symm

/-- Every class that a run knows is declared in one of its files, and known under its name. -/
theorem exists_declaredIn_of_class? {fqn : String} {known : ClassHeader}
    (found : (symbolsOf markers files).class? fqn = some known) :
    ∃ place node, DeclaredIn markers files place node ∧
      known ∈ (FileSymbols.own place node).classes ∧ known.fqn = fqn := by
  refine exists_declaredIn_of_known (fun symbols => symbols.class? fqn = some known) ?_
    ((FileSymbols.holdsByParts_classes known).and (known.fqn = fqn))
    (fun symbols found read => ?_) found
  · rw [SymbolTable.class?, classes_constantsAfter]
    intro found
    cases found
  · rw [FileSymbols.class?_register, Option.or_eq_some_iff] at read
    rcases read with own | ⟨-, before⟩
    · have member := List.mem_reverse.mp (List.mem_of_find?_eq_some own)
      exact Or.inl ⟨member, by simpa using List.find?_some own⟩
    · exact Or.inr before

/-- The symbols of a run know every class under its own name. -/
theorem fqn_of_class?_symbolsOf (markers : MarkerNames) (files : List ParsedFile) {fqn : String}
    {known : ClassHeader} (found : (symbolsOf markers files).class? fqn = some known) :
    known.fqn = fqn := by
  obtain ⟨place, node, -, -, named⟩ := exists_declaredIn_of_class? found
  exact named

end SourceCapture
