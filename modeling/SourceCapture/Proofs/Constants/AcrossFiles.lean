/-
When the order of the files does not matter for their constants. Every file is folded with
the constants of the files before it, and no file is folded again. So a constant that stands
for one of another file has a value only if that file comes first. With distinct names, the
order does not matter just when no file gets more out of the files before it than it gets by
itself, as when every file only refers to constants of its own.
-/

import SourceCapture.Proofs.Constants.Settled
import SourceCapture.Proofs.SamePlace
import SourceCapture.Proofs.VisitOrder

namespace SourceCapture

/-! ### Folding among other symbols -/

namespace Site

/-- The same place where other things are known of other files. -/
def withSymbols (site : Site) (symbols : SymbolTable) : Site := { site with symbols := symbols }

/-- Whether the names in an initializer mean the same constants of other files here and among
other symbols. -/
structure SeesSame (site : Site) (symbols : SymbolTable) (definition : ConstDefinition) :
    Prop where
  classes : symbols.hasClass = site.symbols.hasClass
  constants : ∀ name ∈ definition.initializer.asked site.content,
    ∀ fqn ∈ site.namesFrom definition name, symbols.constant? fqn = site.symbols.constant? fqn

variable {site : Site} {symbols : SymbolTable}

theorem SeesSame.valueOf {definition : ConstDefinition} (same : site.SeesSame symbols definition) :
    (site.withSymbols symbols).valueOf definition = site.valueOf definition := by
  refine evaluate_congr definition.initializer rfl fun name asked => ?_
  show ((site.withSymbols symbols).namesFrom definition name).findSome?
      (site.withSymbols symbols).constant? =
    (site.namesFrom definition name).findSome? site.constant?
  have names : (site.withSymbols symbols).namesFrom definition name =
      site.namesFrom definition name := by
    rw [namesFrom, namesFrom, withSymbols, same.classes]
  rw [names]
  refine findSome?_congr fun fqn member => ?_
  rw [constant?, constant?, withSymbols, same.constants name asked fqn member]

theorem SeesSame.foldDefinition {definition : ConstDefinition}
    (same : site.SeesSame symbols definition) :
    (site.withSymbols symbols).foldDefinition definition =
      (site.foldDefinition definition).withSymbols symbols := by
  rw [Site.foldDefinition, Site.foldDefinition, same.valueOf]
  dsimp only
  rw [apply_ite (withSymbols · symbols), apply_ite (withSymbols · symbols)]
  rfl

/-- What a definition sees of other files does not change while constants are folded. -/
theorem SeesSame.afterFolding {definition : ConstDefinition}
    (same : site.SeesSame symbols definition) (other : ConstDefinition) :
    (site.foldDefinition other).SeesSame symbols definition := by
  rw [Site.foldDefinition]
  dsimp only
  split
  · exact same
  · split
    · exact ⟨same.classes, same.constants⟩
    · exact same

theorem foldPass_withSymbols {order : List ConstDefinition}
    (same : ∀ definition ∈ order, site.SeesSame symbols definition) :
    (site.withSymbols symbols).foldPass order = (site.foldPass order).withSymbols symbols := by
  rw [foldPass, foldPass]
  induction order generalizing site with
  | nil => rfl
  | cons definition rest inductionHypothesis =>
    rw [List.forall_mem_cons] at same
    rw [List.foldl_cons, List.foldl_cons, same.1.foldDefinition]
    exact inductionHypothesis fun other member => (same.2 other member).afterFolding definition

theorem SeesSame.afterPass {definition : ConstDefinition} (same : site.SeesSame symbols definition)
    (order : List ConstDefinition) : (site.foldPass order).SeesSame symbols definition := by
  rw [foldPass]
  induction order generalizing site with
  | nil => exact same
  | cons other rest inductionHypothesis => exact inductionHypothesis (same.afterFolding other)

theorem foldPasses_withSymbols {order : List ConstDefinition}
    (same : ∀ definition ∈ order, site.SeesSame symbols definition) (passes : Nat) :
    foldPasses order passes (site.withSymbols symbols) =
      (foldPasses order passes site).withSymbols symbols := by
  induction passes generalizing site with
  | zero => rfl
  | succ passes inductionHypothesis =>
    rw [foldPasses, foldPasses, foldPass_withSymbols same]
    rw [apply_ite (withSymbols · symbols)]
    refine if_congr Iff.rfl rfl ?_
    exact inductionHypothesis fun definition member => (same definition member).afterPass order

/-- A file has the same constants where its initializers see the same of other files. -/
theorem constantsOf_withSymbols (site : Site) {symbols : SymbolTable} {root : Tree}
    (same : ∀ definition ∈ ConstDefinition.listBelow site root,
      site.SeesSame symbols definition) :
    constantsOf (site.withSymbols symbols) root = constantsOf site root := by
  have place : (site.withSymbols symbols).SamePlace site := ⟨rfl, rfl, rfl⟩
  rw [constantsOf, constantsOf, place.listBelow, foldAll, foldAll, foldPasses_withSymbols same]
  rfl

end Site

/-! ### The constants of one file among those of all -/

theorem foldl_insertConstant (entries : List (String × Const)) (symbols : SymbolTable) :
    entries.foldl (fun current entry => current.insertConstant entry.1 entry.2) symbols =
      { symbols with
        constants := entries.foldl (fun table entry => table.insert entry.1 entry.2)
          symbols.constants } := by
  induction entries generalizing symbols with
  | nil => rfl
  | cons entry rest inductionHypothesis => exact inductionHypothesis _

namespace ParsedFile

/-- The full names of the constants that a file defines. -/
def constantNames (file : ParsedFile) : List String := (file.definitions {} {}).map (·.fqn)

theorem constantNames_eq (file : ParsedFile) (symbols : SymbolTable) (markers : MarkerNames) :
    (file.definitions symbols markers).map (·.fqn) = file.constantNames := by
  have place : (file.site symbols markers).SamePlace (file.site {} {}) := ⟨rfl, rfl, rfl⟩
  rw [constantNames, definitions, definitions, place.listBelow]

/-- The entries of a file have distinct names, and these are names of its definitions. -/
theorem nodup_constantsOf (file : ParsedFile) (symbols : SymbolTable) (markers : MarkerNames) :
    ((constantsOf (file.site symbols markers) file.root).map Prod.fst).Nodup :=
  Site.nodup_keys_constantsOf rfl file.root

theorem mem_constantNames_of_mem {file : ParsedFile} {symbols : SymbolTable}
    {markers : MarkerNames} {fqn : String} {value : Const}
    (member : (fqn, value) ∈ constantsOf (file.site symbols markers) file.root) :
    fqn ∈ file.constantNames := by
  rw [Site.mem_constantsOf_iff rfl] at member
  rw [← constantNames_eq file symbols markers]
  exact (Site.reaches_foldAll _ _).mem_of_get? rfl member

theorem constant?_addConstants (file : ParsedFile) (markers : MarkerNames)
    (symbols : SymbolTable) (fqn : String) :
    (file.addConstants markers symbols).constant? fqn =
      (Table.find? fqn (constantsOf (file.site symbols markers) file.root)).or
        (symbols.constant? fqn) := by
  rw [addConstants, foldl_insertConstant]
  exact Table.get?_foldl_insert (file.nodup_constantsOf symbols markers) _ _

/-- A file only gives values to names that it defines. -/
theorem visitsOwn_addConstants (markers : MarkerNames) :
    VisitsOwn (fun symbols file => addConstants markers symbols file) SymbolTable.constant?
      fun file fqn => fqn ∈ file.constantNames where
  frame symbols file fqn foreign := by
    have absent : Table.find? fqn (constantsOf (file.site symbols markers) file.root) = none := by
      rw [Table.find?_eq_none_iff]
      intro member
      obtain ⟨⟨name, value⟩, entry, rfl⟩ := List.mem_map.mp member
      exact foreign (mem_constantNames_of_mem entry)
    rw [constant?_addConstants, absent, Option.none_or]

end ParsedFile

/-! ### The order of the files -/

/-- The symbols with the constants of the files, taken in order. -/
def constantsAfter (markers : MarkerNames) (files : List ParsedFile) : SymbolTable :=
  files.foldl (ParsedFile.addConstants markers) {}

/-- The constants of the files are the same in whatever order the files are taken. -/
def ConstantsInAnyOrder (markers : MarkerNames) (files : List ParsedFile) : Prop :=
  ∀ order : List ParsedFile, order.Perm files → ∀ fqn,
    (constantsAfter markers order).constant? fqn = (constantsAfter markers files).constant? fqn

/-- Every file folds to the same constants after any of the others as by itself. -/
def EachFoldsAlone (markers : MarkerNames) (files : List ParsedFile) : Prop :=
  ∀ before file after, (before ++ file :: after).Perm files → ∀ fqn value,
    (fqn, value) ∈ constantsOf (file.site (constantsAfter markers before) markers) file.root ↔
      (fqn, value) ∈ constantsOf (file.site {} markers) file.root

/-- No initializer has a name that can mean a constant of another file. -/
def EachSelfContained (markers : MarkerNames) (files : List ParsedFile) : Prop :=
  ∀ file ∈ files, ∀ definition ∈ file.definitions {} markers,
    ∀ name ∈ definition.initializer.asked file.document.content,
      ∀ fqn ∈ (file.site {} markers).namesFrom definition name,
        fqn ∈ files.flatMap ParsedFile.constantNames → fqn ∈ file.constantNames

section

variable {markers : MarkerNames} {files : List ParsedFile}

theorem pairwise_constantNames
    (distinct : (files.flatMap ParsedFile.constantNames).Nodup) :
    files.Pairwise fun first second =>
      ∀ fqn, fqn ∈ first.constantNames → fqn ∉ second.constantNames :=
  (List.nodup_flatMap.mp distinct).2.imp fun apart _ first second => apart first second

/-- Files say nothing of the names of another one. -/
theorem constant?_constantsAfter_of_foreign {before : List ParsedFile} {fqn : String}
    (foreign : ∀ file ∈ before, fqn ∉ file.constantNames) :
    (constantsAfter markers before).constant? fqn = none :=
  (ParsedFile.visitsOwn_addConstants markers).read_foldl_of_not_owns foreign {}

theorem not_mem_constantNames_before {before after : List ParsedFile} {file : ParsedFile}
    (distinct : (files.flatMap ParsedFile.constantNames).Nodup)
    (perm : (before ++ file :: after).Perm files) {fqn : String}
    (owned : fqn ∈ file.constantNames) : ∀ other ∈ before, fqn ∉ other.constantNames := by
  intro other member foreign
  have apart := pairwise_constantNames ((perm.flatMap_right _).nodup_iff.mpr distinct)
  rw [List.pairwise_append] at apart
  exact apart.2.2 other member file List.mem_cons_self fqn foreign owned

/-- What a file adds to the constants of the files before it, for one of its own names. -/
theorem constant?_addConstants_of_fresh {file : ParsedFile} (symbols : SymbolTable) {fqn : String}
    (fresh : symbols.constant? fqn = none) (value : Const) :
    (file.addConstants markers symbols).constant? fqn = some value ↔
      (fqn, value) ∈ constantsOf (file.site symbols markers) file.root := by
  rw [ParsedFile.constant?_addConstants, fresh, Option.or_none,
    Table.find?_eq_some_iff (file.nodup_constantsOf symbols markers)]

theorem constantsInAnyOrder_iff (distinct : (files.flatMap ParsedFile.constantNames).Nodup) :
    ConstantsInAnyOrder markers files ↔ EachFoldsAlone markers files := by
  refine ((ParsedFile.visitsOwn_addConstants markers).foldl_perm_iff
    (pairwise_constantNames distinct) {}).trans ?_
  refine forall_congr' fun before => forall_congr' fun file => forall_congr' fun after =>
    forall_congr' fun perm => forall_congr' fun fqn => ?_
  by_cases owned : fqn ∈ file.constantNames
  · have fresh : (constantsAfter markers before).constant? fqn = none :=
      constant?_constantsAfter_of_foreign (not_mem_constantNames_before distinct perm owned)
    refine ⟨fun same value => ?_, fun same _ => Option.ext fun value => ?_⟩
    · rw [← constant?_addConstants_of_fresh _ fresh, ← constant?_addConstants_of_fresh {} rfl]
      exact iff_of_eq (congrArg (· = some value) (same owned))
    · exact (constant?_addConstants_of_fresh _ fresh value).trans
        ((same value).trans (constant?_addConstants_of_fresh {} rfl value).symm)
  · refine iff_of_true (fun own => absurd own owned) fun value => ?_
    exact iff_of_false (fun member => owned (ParsedFile.mem_constantNames_of_mem member))
      fun member => owned (ParsedFile.mem_constantNames_of_mem member)

/-- Folding the constants registers no class and no function. -/
theorem exists_constantsAfter_eq (markers : MarkerNames) (order : List ParsedFile) :
    ∃ constants, constantsAfter markers order = { constants } := by
  have kept : ∀ known, ∃ constants,
      order.foldl (ParsedFile.addConstants markers) { constants := known } = { constants } := by
    induction order with
    | nil => exact fun known => ⟨known, rfl⟩
    | cons file rest inductionHypothesis =>
      intro known
      rw [List.foldl_cons, ParsedFile.addConstants, foldl_insertConstant]
      exact inductionHypothesis _
  exact kept .empty

theorem classes_constantsAfter (order : List ParsedFile) :
    (constantsAfter markers order).classes = .empty := by
  obtain ⟨constants, same⟩ := exists_constantsAfter_eq markers order
  rw [same]

theorem functions_constantsAfter (order : List ParsedFile) :
    (constantsAfter markers order).functions = [] := by
  obtain ⟨constants, same⟩ := exists_constantsAfter_eq markers order
  rw [same]

theorem EachSelfContained.eachFoldsAlone (contained : EachSelfContained markers files)
    (distinct : (files.flatMap ParsedFile.constantNames).Nodup) :
    EachFoldsAlone markers files := by
  intro before file after perm fqn value
  have member : file ∈ files := perm.mem_iff.mp List.mem_append_cons_self
  have same : constantsOf (file.site (constantsAfter markers before) markers) file.root =
      constantsOf (file.site {} markers) file.root := by
    refine Site.constantsOf_withSymbols (file.site {} markers) fun definition defined =>
      ⟨?_, fun name asked other tried => ?_⟩
    · funext fqn
      rw [SymbolTable.hasClass, classes_constantsAfter]
      rfl
    · refine constant?_constantsAfter_of_foreign fun earlier earlierMember known => ?_
      have own : other ∈ file.constantNames :=
        contained file member definition defined name asked other tried
          (List.mem_flatMap.mpr ⟨earlier, perm.mem_iff.mp (List.mem_append_left _ earlierMember),
            known⟩)
      exact not_mem_constantNames_before distinct perm own earlier earlierMember known
  rw [same]

end

/-- For files whose constants have distinct names, the order of the files does not matter for
the constants just when each file folds to the same ones by itself, and so in particular
where no file refers to constants of another. -/
theorem constantsInAnyOrder_iff_eachFoldsAlone (markers : MarkerNames) (files : List ParsedFile)
    (distinct : (files.flatMap ParsedFile.constantNames).Nodup) :
    (ConstantsInAnyOrder markers files ↔ EachFoldsAlone markers files) ∧
      (EachSelfContained markers files → ConstantsInAnyOrder markers files) :=
  ⟨constantsInAnyOrder_iff distinct, fun contained =>
    (constantsInAnyOrder_iff distinct).mpr (contained.eachFoldsAlone distinct)⟩

/-- A file of a package with one constant, whose name and value have one character each. -/
def packageFile (path : Path) (content : String) (valueKind : String) : ParsedFile where
  document := .ofFile path content.toList ⟨"/"⟩
  root := .branch "source_file" 0 26 [.packageHeader, .constant 10 valueKind]

/-- A file with a constant that stands for the one of `referredFile`. -/
def referringFile : ParsedFile :=
  packageFile ⟨"/A.kt"⟩ "package a\nconst val A = B\n" "identifier"

/-- A file with a constant that is a number. -/
def referredFile : ParsedFile :=
  packageFile ⟨"/B.kt"⟩ "package a\nconst val B = 1\n" "number_literal"

/-- Two files with a constant each, none of which stands for the other. -/
def separateFiles : List ParsedFile :=
  [packageFile ⟨"/A.kt"⟩ "package a\nconst val A = 2\n" "number_literal", referredFile]

set_option maxRecDepth 10000 in
theorem separateFiles_constantsInAnyOrder :
    (separateFiles.flatMap ParsedFile.constantNames).Nodup ∧
      ConstantsInAnyOrder {} separateFiles := by
  have distinct : (separateFiles.flatMap ParsedFile.constantNames).Nodup := by decide +kernel
  have contained : EachSelfContained {} separateFiles := by
    unfold EachSelfContained
    decide +kernel
  exact ⟨distinct, (constantsInAnyOrder_iff_eachFoldsAlone {} separateFiles distinct).2 contained⟩

set_option maxRecDepth 10000 in
theorem constantsAfter_referredFile :
    constantsAfter {} [referredFile] = SymbolTable.insertConstant {} "a.B" (.int 1) := by
  have entries : ((referredFile.site {} {}).foldAll (ConstDefinition.listBelow
      (referredFile.site {} {}) referredFile.root)).constants.entries = [("a.B", .int 1)] := by
    decide +kernel
  show (constantsOf (referredFile.site {} {}) referredFile.root).foldl _ _ = _
  rw [constantsOf, entries, List.mergeSort_singleton]
  rfl

set_option maxRecDepth 10000 in
/-- The constant of the first file has a value only if the second file is taken before. -/
theorem referringFile_constant_depends_on_order :
    ([referringFile, referredFile].flatMap ParsedFile.constantNames).Nodup ∧
      ¬ ConstantsInAnyOrder {} [referringFile, referredFile] := by
  have distinct : ([referringFile, referredFile].flatMap ParsedFile.constantNames).Nodup := by
    decide +kernel
  refine ⟨distinct, fun inAnyOrder => ?_⟩
  have later : ((referringFile.site (SymbolTable.insertConstant {} "a.B" (.int 1)) {}).foldAll
      (ConstDefinition.listBelow (referringFile.site
        (SymbolTable.insertConstant {} "a.B" (.int 1)) {}) referringFile.root)).constants.get?
          "a.A" = some (.int 1) := by
    decide +kernel
  have alone : ((referringFile.site {} {}).foldAll (ConstDefinition.listBelow
      (referringFile.site {} {}) referringFile.root)).constants.get? "a.A" = none := by
    decide +kernel
  have same := (constantsInAnyOrder_iff distinct).mp inAnyOrder [referredFile] referringFile []
    (List.Perm.swap ..) "a.A" (.int 1)
  rw [constantsAfter_referredFile, Site.mem_constantsOf_iff rfl, Site.mem_constantsOf_iff rfl,
    later, alone] at same
  exact absurd (same.mp rfl) (by decide)

end SourceCapture
