/-
When the order of the files does not matter for their declarations. The signatures and the
supertypes of a file are resolved when the file is registered, with the classes of the files
before it, and are not resolved again. So a class that a file sees through its package or a
star import is only found if its own file comes first. For files without common names, the
order does not matter just when no class name of other files changes what a file declares.
-/

import SourceCapture.Proofs.SampleTrees
import SourceCapture.Proofs.Symbols.Registered
import SourceCapture.Proofs.VisitOrder

namespace SourceCapture

namespace ParsedFile

/-! ### The declarations of a file -/

/-- What a file declares where the symbols are known of other files. -/
def declared (file : ParsedFile) (markers : MarkerNames) (symbols : SymbolTable) : FileSymbols :=
  FileSymbols.below (file.site symbols markers) file.root

/-- The names of the classes that a file declares. -/
def classNames (file : ParsedFile) : List String := (file.declared {} {}).classNames

/-- The names of the functions that a file declares. -/
def functionNames (file : ParsedFile) : List String := (file.declared {} {}).functionNames

theorem sameNames_declared (file : ParsedFile) (markers : MarkerNames) (symbols : SymbolTable) :
    (file.declared markers symbols).SameNames (file.declared {} {}) := by
  have place : (file.site symbols markers).SamePlace (file.site {} {}) := ⟨rfl, rfl, rfl⟩
  exact FileSymbols.sameNames_below place file.root

variable {markers : MarkerNames}

theorem class?_addDeclarations (file : ParsedFile) (symbols : SymbolTable) (fqn : String) :
    (file.addDeclarations markers symbols).class? fqn =
      ((file.declared markers symbols).class? fqn).or (symbols.class? fqn) :=
  FileSymbols.class?_register ..

theorem overloads_addDeclarations (file : ParsedFile) (symbols : SymbolTable) (fqn : String) :
    (file.addDeclarations markers symbols).overloads fqn =
      symbols.overloads fqn ++ (file.declared markers symbols).overloads fqn :=
  FileSymbols.overloads_register ..

theorem declared_class?_eq_none {file : ParsedFile} {fqn : String}
    (foreign : fqn ∉ file.classNames) (symbols : SymbolTable) :
    (file.declared markers symbols).class? fqn = none := by
  rw [FileSymbols.class?_eq_none_iff, (file.sameNames_declared markers symbols).classes]
  exact foreign

theorem declared_overloads_eq_nil {file : ParsedFile} {fqn : String}
    (foreign : fqn ∉ file.functionNames) (symbols : SymbolTable) :
    (file.declared markers symbols).overloads fqn = [] := by
  rw [FileSymbols.overloads_eq_nil_iff, (file.sameNames_declared markers symbols).functions]
  exact foreign

/-- A class of a file replaces one of its name that was known. -/
theorem class?_addDeclarations_of_mem {file : ParsedFile} {fqn : String}
    (owned : fqn ∈ file.classNames) (symbols : SymbolTable) :
    (file.addDeclarations markers symbols).class? fqn =
      (file.declared markers symbols).class? fqn := by
  have present : (file.declared markers symbols).class? fqn ≠ none := by
    rw [Ne, FileSymbols.class?_eq_none_iff, (file.sameNames_declared markers symbols).classes,
      not_not]
    exact owned
  obtain ⟨header, found⟩ := Option.ne_none_iff_exists'.mp present
  rw [class?_addDeclarations, found, Option.some_or]

theorem overloads_addDeclarations_of_fresh {file : ParsedFile} (symbols : SymbolTable)
    {fqn : String} (fresh : symbols.overloads fqn = []) :
    (file.addDeclarations markers symbols).overloads fqn =
      (file.declared markers symbols).overloads fqn := by
  rw [overloads_addDeclarations, fresh, List.nil_append]

/-- A file only registers classes of names that it declares. -/
theorem visitsOwn_classes (markers : MarkerNames) :
    VisitsOwn (fun symbols file => addDeclarations markers symbols file) SymbolTable.class?
      fun file fqn => fqn ∈ file.classNames where
  frame symbols file fqn foreign := by
    rw [class?_addDeclarations, declared_class?_eq_none foreign, Option.none_or]

theorem visitsOwn_functions (markers : MarkerNames) :
    VisitsOwn (fun symbols file => addDeclarations markers symbols file) SymbolTable.overloads
      fun file fqn => fqn ∈ file.functionNames where
  frame symbols file fqn foreign := by
    rw [overloads_addDeclarations, declared_overloads_eq_nil foreign, List.append_nil]

end ParsedFile

/-! ### The order of the files -/

/-- The symbols with the declarations of the files, taken in order, and with the constants of
all files. -/
def declaredAfter (markers : MarkerNames) (constants : Table String Const)
    (files : List ParsedFile) : SymbolTable :=
  files.foldl (ParsedFile.addDeclarations markers) { constants := constants }

/-- The classes and the functions of the files are the same in whatever order the files are
taken, and so is what the files are lowered to. -/
structure DeclarationsInAnyOrder (markers : MarkerNames) (constants : Table String Const)
    (files : List ParsedFile) : Prop where
  classes : ∀ order : List ParsedFile, order.Perm files → ∀ fqn,
    (declaredAfter markers constants order).class? fqn =
      (declaredAfter markers constants files).class? fqn
  functions : ∀ order : List ParsedFile, order.Perm files → ∀ fqn,
    (declaredAfter markers constants order).overloads fqn =
      (declaredAfter markers constants files).overloads fqn
  lowering : ∀ order : List ParsedFile, order.Perm files → ∀ file ∈ files,
    file.lower (declaredAfter markers constants order) markers =
      file.lower (declaredAfter markers constants files) markers

/-- No two of the files declare a class or a function of one name. -/
def DeclareApart (files : List ParsedFile) : Prop :=
  files.Pairwise fun first second =>
    (∀ fqn, fqn ∈ first.classNames → fqn ∉ second.classNames) ∧
      ∀ fqn, fqn ∈ first.functionNames → fqn ∉ second.functionNames

/-- Symbols that know classes of just these names, whatever they know of them. -/
structure KnowsJust (symbols : SymbolTable) (constants : Table String Const)
    (names : List String) : Prop where
  constants : symbols.constants = constants
  classes : ∀ fqn, symbols.hasClass fqn = true ↔ fqn ∈ names

/-- Every file declares the same where the class names of some of the others are known as
where no others are. -/
def EachReadsAlone (markers : MarkerNames) (constants : Table String Const)
    (files : List ParsedFile) : Prop :=
  ∀ before file after, (before ++ file :: after).Perm files → ∀ symbols,
    KnowsJust symbols constants (before.flatMap ParsedFile.classNames) → ∀ fqn,
      (file.declared markers symbols).class? fqn =
          (file.declared markers { constants := constants }).class? fqn ∧
        (file.declared markers symbols).overloads fqn =
          (file.declared markers { constants := constants }).overloads fqn

section

variable {markers : MarkerNames} {constants : Table String Const} {files : List ParsedFile}

theorem knowsJust_declaredAfter (order : List ParsedFile) :
    KnowsJust (declaredAfter markers constants order) constants
      (order.flatMap ParsedFile.classNames) := by
  have kept : ∀ (symbols : SymbolTable) (names : List String), KnowsJust symbols constants names →
      KnowsJust (order.foldl (ParsedFile.addDeclarations markers) symbols) constants
        (names ++ order.flatMap ParsedFile.classNames) := by
    induction order with
    | nil =>
      intro symbols names known
      rw [List.flatMap_nil, List.append_nil]
      exact known
    | cons file rest inductionHypothesis =>
      intro symbols names known
      rw [List.foldl_cons, List.flatMap_cons, ← List.append_assoc]
      refine inductionHypothesis _ _ ⟨?_, fun fqn => ?_⟩
      · exact (FileSymbols.constants_register ..).trans known.constants
      · have names : (FileSymbols.below (file.site symbols markers) file.root).classNames =
            file.classNames := (file.sameNames_declared markers symbols).classes
        rw [ParsedFile.addDeclarations, FileSymbols.hasClass_register, known.classes, names,
          List.mem_append, or_comm]
  refine kept { constants := constants } [] ⟨rfl, fun fqn => ?_⟩
  simp [SymbolTable.hasClass, Table.contains]

/-- What a file declares only hangs on the constants and on the names of known classes. -/
theorem ParsedFile.declared_congr (file : ParsedFile) {first second : SymbolTable}
    {names : List String} (left : KnowsJust first constants names)
    (right : KnowsJust second constants names) :
    file.declared markers first = file.declared markers second := by
  have alike : (file.site first markers).ReadsAlike (file.site second markers) := by
    refine ⟨⟨rfl, rfl, rfl⟩, rfl, rfl, funext fun fqn => ?_, funext fun fqn => ?_⟩
    · exact Bool.eq_iff_iff.mpr ((left.classes fqn).trans (right.classes fqn).symm)
    · show Option.or none (first.constants.get? fqn) = Option.or none (second.constants.get? fqn)
      rw [left.constants, right.constants]
  exact alike.below file.root

/-- Files that were taken before do not declare the functions of this one. -/
theorem overloads_declaredAfter_of_foreign {before : List ParsedFile} {fqn : String}
    (foreign : ∀ file ∈ before, fqn ∉ file.functionNames) :
    (declaredAfter markers constants before).overloads fqn = [] :=
  (ParsedFile.visitsOwn_functions markers).read_foldl_of_not_owns foreign _

theorem not_mem_functionNames_before (apart : DeclareApart files) {before after : List ParsedFile}
    {file : ParsedFile} (perm : (before ++ file :: after).Perm files) {fqn : String}
    (owned : fqn ∈ file.functionNames) : ∀ other ∈ before, fqn ∉ other.functionNames := by
  intro other member foreign
  have separate := (perm.pairwise_iff fun {first second} related =>
    ⟨fun fqn right left => related.1 fqn left right,
      fun fqn right left => related.2 fqn left right⟩).mpr apart
  rw [List.pairwise_append] at separate
  exact (separate.2.2 other member file List.mem_cons_self).2 fqn foreign owned

/-- Each file declares the same by itself just when it makes the same of its own classes and
functions after any of the others as when it is the first one. -/
theorem eachReadsAlone_iff (apart : DeclareApart files) :
    ((∀ before file after, (before ++ file :: after).Perm files → ∀ fqn,
        fqn ∈ file.classNames →
          (file.addDeclarations markers (declaredAfter markers constants before)).class? fqn =
            (file.addDeclarations markers { constants := constants }).class? fqn) ∧
      ∀ before file after, (before ++ file :: after).Perm files → ∀ fqn,
        fqn ∈ file.functionNames →
          (file.addDeclarations markers (declaredAfter markers constants before)).overloads fqn =
            (file.addDeclarations markers { constants := constants }).overloads fqn) ↔
      EachReadsAlone markers constants files := by
  have fresh : ∀ {before file after}, (before ++ file :: after).Perm files → ∀ {fqn},
      fqn ∈ file.functionNames → (declaredAfter markers constants before).overloads fqn = [] :=
    fun perm _ owned => overloads_declaredAfter_of_foreign
      (not_mem_functionNames_before apart perm owned)
  refine ⟨fun ⟨classes, functions⟩ => ?_, fun alone => ⟨?_, ?_⟩⟩
  · intro before file after perm symbols known fqn
    rw [file.declared_congr known (knowsJust_declaredAfter before)]
    constructor
    · by_cases owned : fqn ∈ file.classNames
      · rw [← ParsedFile.class?_addDeclarations_of_mem owned,
          ← ParsedFile.class?_addDeclarations_of_mem owned]
        exact classes before file after perm fqn owned
      · rw [ParsedFile.declared_class?_eq_none owned, ParsedFile.declared_class?_eq_none owned]
    · by_cases owned : fqn ∈ file.functionNames
      · rw [← ParsedFile.overloads_addDeclarations_of_fresh _ (fresh perm owned),
          ← ParsedFile.overloads_addDeclarations_of_fresh { constants := constants } rfl]
        exact functions before file after perm fqn owned
      · rw [ParsedFile.declared_overloads_eq_nil owned,
          ParsedFile.declared_overloads_eq_nil owned]
  · intro before file after perm fqn owned
    rw [ParsedFile.class?_addDeclarations_of_mem owned,
      ParsedFile.class?_addDeclarations_of_mem owned]
    exact (alone before file after perm _ (knowsJust_declaredAfter before) fqn).1
  · intro before file after perm fqn owned
    rw [ParsedFile.overloads_addDeclarations_of_fresh _ (fresh perm owned),
      ParsedFile.overloads_addDeclarations_of_fresh { constants := constants } rfl]
    exact (alone before file after perm _ (knowsJust_declaredAfter before) fqn).2

/-- Symbols with the same classes, functions and constants lower a file to the same. -/
theorem ParsedFile.lower_congr (file : ParsedFile) {first second : SymbolTable}
    (constants : first.constants = second.constants) (classes : first.class? = second.class?)
    (functions : first.overloads = second.overloads) :
    file.lower first markers = file.lower second markers := by
  have known : first.hasClass = second.hasClass :=
    funext fun fqn => congrArg Option.isSome (congrFun classes fqn)
  have annotate : first.annotateSupertype = second.annotateSupertype := by
    funext supertype
    rw [SymbolTable.annotateSupertype, SymbolTable.annotateSupertype, classes]
  have headers : first.resolvedClass? = second.resolvedClass? := by
    funext fqn
    rw [SymbolTable.resolvedClass?, SymbolTable.resolvedClass?, classes, annotate]
  have values : (file.site first markers).constant? = (file.site second markers).constant? := by
    funext fqn
    show Option.or none (first.constants.get? fqn) = Option.or none (second.constants.get? fqn)
    rw [constants]
  have alike : (file.site first markers).LowersAlike (file.site second markers) :=
    ⟨⟨⟨rfl, rfl, rfl⟩, rfl, rfl, known, values⟩, headers, functions⟩
  exact alike.ofTree file.root

end

/-- For files that declare no common names, the order of the files does not matter for what is
known of their declarations and for what they are lowered to, just when each file declares
the same whichever of the other files are known. -/
theorem declarationsInAnyOrder_iff_eachReadsAlone (markers : MarkerNames)
    (constants : Table String Const) (files : List ParsedFile) (apart : DeclareApart files) :
    DeclarationsInAnyOrder markers constants files ↔ EachReadsAlone markers constants files := by
  have classes := (ParsedFile.visitsOwn_classes markers).foldl_perm_iff
    (apart.imp fun related => related.1) { constants := constants }
  have functions := (ParsedFile.visitsOwn_functions markers).foldl_perm_iff
    (apart.imp fun related => related.2) { constants := constants }
  rw [← eachReadsAlone_iff apart]
  refine ⟨fun same => ⟨classes.mp same.classes, functions.mp same.functions⟩, fun alone => ?_⟩
  have sameClasses := classes.mpr alone.1
  have sameFunctions := functions.mpr alone.2
  refine ⟨sameClasses, sameFunctions, fun order perm file _ => ?_⟩
  refine file.lower_congr ?_ (funext (sameClasses order perm)) (funext (sameFunctions order perm))
  rw [(knowsJust_declaredAfter order).constants, (knowsJust_declaredAfter files).constants]

/-- A file with a function whose parameter has a type of a package that is imported as a
whole, and a call of the function. -/
def blockUserFile : ParsedFile where
  document := .ofFile ⟨"/A.kt"⟩
    "package a\nimport b.*\nfun run(block: Block) \x7b\x7d\nval v = run \x7b 1 \x7d\n".toList ⟨"/"⟩
  root := .branch "source_file" 0 64 [
    .packageHeader,
    .branch "import" 10 20 [
      .token "import" 10 16,
      .branch "qualified_identifier" 17 18 [.leaf "identifier" 17 18],
      .token "." 18 19,
      .token "*" 19 20],
    .branch "function_declaration" 21 45 [
      .token "fun" 21 24,
      .leaf "identifier" 25 28,
      .branch "function_value_parameters" 28 42 [
        .token "(" 28 29,
        .branch "parameter" 29 41 [
          .leaf "identifier" 29 34,
          .token ":" 34 35,
          .branch "user_type" 36 41 [.leaf "identifier" 36 41]],
        .token ")" 41 42],
      .branch "function_body" 43 45
        [.branch "block" 43 45 [.token "\x7b" 43 44, .token "\x7d" 44 45]]],
    .branch "property_declaration" 46 63 [
      .token "val" 46 49,
      .branch "variable_declaration" 50 51 [.leaf "identifier" 50 51],
      .token "=" 52 53,
      .branch "call_expression" 54 63 [
        .leaf "identifier" 54 57,
        .branch "annotated_lambda" 58 63 [
          .branch "lambda_literal" 58 63
            [.token "\x7b" 58 59, .leaf "number_literal" 60 61, .token "\x7d" 62 63]]]]]

/-- The file with the functional interface that is the type of the parameter. -/
def blockFile : ParsedFile where
  document := .ofFile ⟨"/B.kt"⟩
    ("package b\nimport com.github.tarcv.kotbridge.Capturable\n" ++
      "fun interface Block : Capturable<Block>\n").toList ⟨"/"⟩
  root := .branch "source_file" 0 95 [
    .packageHeader,
    .libraryImport 10 10,
    .branch "class_declaration" 55 94 [
      .token "fun" 55 58,
      .token "interface" 59 68,
      .leaf "identifier" 69 74,
      .token ":" 75 76,
      .branch "delegation_specifiers" 77 94 [
        .branch "delegation_specifier" 77 94 [
          .branch "user_type" 77 94 [
            .leaf "identifier" 77 87,
            .branch "type_arguments" 87 94 [
              .token "<" 87 88,
              .branch "type_projection" 88 93
                [.branch "user_type" 88 93 [.leaf "identifier" 88 93]],
              .token ">" 93 94]]]]]]

instance (files : List ParsedFile) : Decidable (DeclareApart files) :=
  inferInstanceAs (Decidable (List.Pairwise _ files))

set_option maxRecDepth 10000 in
theorem blockFiles_inAnyOrder_iff_readAlone :
    DeclareApart [blockUserFile, blockFile] ∧
      (DeclarationsInAnyOrder {} .empty [blockUserFile, blockFile] ↔
        EachReadsAlone {} .empty [blockUserFile, blockFile]) := by
  have apart : DeclareApart [blockUserFile, blockFile] := by decide +kernel
  exact ⟨apart, declarationsInAnyOrder_iff_eachReadsAlone {} .empty _ apart⟩

set_option maxRecDepth 10000 in
/-- The type of the parameter is only found if the file of the interface is taken first. -/
theorem blockFiles_depend_on_order :
    DeclareApart [blockUserFile, blockFile] ∧
      ¬ DeclarationsInAnyOrder {} .empty [blockUserFile, blockFile] := by
  refine ⟨by decide +kernel, fun inAnyOrder => ?_⟩
  have unknown : ((declaredAfter {} .empty [blockUserFile, blockFile]).overloads "a.run").map
      (·.parameters.map (·.fqn)) = [["a.Block"]] := by
    decide +kernel
  have known : ((declaredAfter {} .empty [blockFile, blockUserFile]).overloads "a.run").map
      (·.parameters.map (·.fqn)) = [["b.Block"]] := by
    decide +kernel
  have same := inAnyOrder.functions [blockFile, blockUserFile] (List.Perm.swap ..) "a.run"
  rw [same, unknown] at known
  exact absurd known (by decide)

end SourceCapture
