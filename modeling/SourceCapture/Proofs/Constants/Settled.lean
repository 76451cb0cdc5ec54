/-
When the constants of a file are what their definitions say. A value that is folded is never
looked at again, while a name takes the first of its meanings that has a value so far. So a
definition that is folded early can get the value of an outer constant although an inner one
of the same simple name is folded later. The constants of a file solve its definitions, and
do so for every order of the definitions, just when no value that can be taken on the way
would be another one in the end. That is the case where every name in an initializer has at
most one meaning that ever has a value.
-/

import SourceCapture.Analysis
import SourceCapture.Proofs.Constants.Stages
import SourceCapture.Proofs.SampleTrees

namespace SourceCapture.Site

/-- The constants of a file agree with its definitions. -/
structure ConstantsAgree (site : Site) (root : Tree) : Prop where
  /-- A constant has the value of its initializer, with all constants of the file visible. -/
  solves : ∀ definition ∈ ConstDefinition.listBelow site root, ∀ value,
    (definition.fqn, value) ∈ constantsOf site root →
      { site with constants := .ofList (constantsOf site root) }.valueOf definition = value
  /-- The definitions have these values in whatever order they are folded. -/
  anyOrder : ∀ order : List ConstDefinition, order.Perm (ConstDefinition.listBelow site root) →
    ∀ fqn value, (site.foldAll order).constants.get? fqn = some value ↔
      (fqn, value) ∈ constantsOf site root

/-- A value that a definition can be folded to at any stage is the one that its initializer
has when all definitions are folded. -/
def Settled (site : Site) (definitions : List ConstDefinition) : Prop :=
  ∀ stage, Reaches definitions site stage → ∀ definition ∈ definitions,
    stage.Foldable definition → ∀ order : List ConstDefinition, order.Perm definitions →
      (site.foldAll order).valueOf definition = stage.valueOf definition

/-- The full names that a name in the initializer of a definition can mean. -/
def namesFrom (site : Site) (definition : ConstDefinition) (name : String) : List String :=
  site.scope.constantNames definition.enclosing site.symbols.hasClass name

/-- Whether a full name is that of a constant, in this file or in another. -/
def NamesConstant (site : Site) (definitions : List ConstDefinition) (fqn : String) : Prop :=
  fqn ∈ definitions.map (·.fqn) ∨ site.symbols.constant? fqn ≠ none

/-- No name in an initializer has two meanings: of the full names that are tried for it, one
at most is that of a constant. -/
structure Unambiguous (site : Site) (definitions : List ConstDefinition) : Prop where
  apart : ∀ definition ∈ definitions, site.symbols.constant? definition.fqn = none
  single : ∀ definition ∈ definitions, ∀ name ∈ definition.initializer.asked site.content,
    ∀ first ∈ site.namesFrom definition name, ∀ second ∈ site.namesFrom definition name,
      site.NamesConstant definitions first → site.NamesConstant definitions second →
        first = second

variable {site : Site} {definitions : List ConstDefinition}

/-! ### Values at stages -/

/-- A definition has the same value at two places that only differ in how their constants are
kept. -/
theorem valueOf_congr {constants others : Table String Const}
    (same : ∀ fqn, constants.get? fqn = others.get? fqn) (definition : ConstDefinition) :
    { site with constants := constants }.valueOf definition =
      { site with constants := others }.valueOf definition := by
  refine evaluate_congr definition.initializer rfl fun name _ => ?_
  refine congrArg (List.findSome? · _) (funext fun fqn => ?_)
  rw [constant?, constant?, same]

theorem Reaches.valueOf_congr {stage other : Site} (reached : Reaches definitions site stage)
    (otherReached : Reaches definitions site other)
    (same : ∀ fqn, stage.constants.get? fqn = other.constants.get? fqn)
    (definition : ConstDefinition) : stage.valueOf definition = other.valueOf definition := by
  rw [reached.eq_start, otherReached.eq_start]
  exact Site.valueOf_congr same definition

/-- At a stage, a name in a definition has the first value of the full names it can mean. -/
theorem Reaches.meaning?_eq {stage : Site} (reached : Reaches definitions site stage)
    (definition : ConstDefinition) (name : String) :
    { stage with enclosing := definition.enclosing }.meaning? name =
      (site.namesFrom definition name).findSome? stage.constant? := by
  rw [reached.eq_start]
  rfl

/-! ### The constants of a file as a table -/

theorem nodup_keys_foldAll (fresh : site.constants = .empty) (definitions : List ConstDefinition) :
    (site.foldAll definitions).constants.keys.Nodup :=
  (reaches_foldAll site definitions).nodup_keys (by rw [fresh]; exact List.nodup_nil)

/-- The constants of a file are the values that folding ends with. -/
theorem mem_constantsOf_iff (fresh : site.constants = .empty) (root : Tree) (fqn : String)
    (value : Const) : (fqn, value) ∈ constantsOf site root ↔
      (site.foldAll (ConstDefinition.listBelow site root)).constants.get? fqn = some value := by
  rw [constantsOf, List.mem_mergeSort, Table.get?,
    Table.find?_eq_some_iff (nodup_keys_foldAll fresh _)]

/-- The constants of a file have distinct names. -/
theorem nodup_keys_constantsOf (fresh : site.constants = .empty) (root : Tree) :
    ((constantsOf site root).map Prod.fst).Nodup :=
  ((List.mergeSort_perm ..).map Prod.fst).nodup_iff.mpr (nodup_keys_foldAll fresh _)

theorem get?_ofList_constantsOf (fresh : site.constants = .empty) (root : Tree) (fqn : String) :
    (Table.ofList (constantsOf site root)).get? fqn =
      (site.foldAll (ConstDefinition.listBelow site root)).constants.get? fqn := by
  have distinct := nodup_keys_constantsOf fresh root
  have sorted : (constantsOf site root).Perm
      (site.foldAll (ConstDefinition.listBelow site root)).constants.entries :=
    List.mergeSort_perm ..
  rw [Table.get?_ofList distinct, Table.find?_of_perm distinct sorted, Table.get?]

/-- With all constants of the file visible, a definition has the value that it has at the end
of folding. -/
theorem valueOf_constantsOf (fresh : site.constants = .empty) (root : Tree)
    (definition : ConstDefinition) :
    { site with constants := .ofList (constantsOf site root) }.valueOf definition =
      (site.foldAll (ConstDefinition.listBelow site root)).valueOf definition := by
  rw [(reaches_foldAll site (ConstDefinition.listBelow site root)).eq_start]
  exact valueOf_congr (get?_ofList_constantsOf fresh root) definition

/-! ### Definitions with distinct names -/

/-- A value that is kept is the one that its definition had at an earlier stage. -/
theorem Reaches.origin_of_mem {stage : Site} (fresh : site.constants = .empty)
    (distinct : (definitions.map (·.fqn)).Nodup) (reached : Reaches definitions site stage)
    {definition : ConstDefinition} (member : definition ∈ definitions) {value : Const}
    (kept : stage.constants.get? definition.fqn = some value) :
    ∃ earlier, Reaches definitions site earlier ∧ earlier.KeptBy stage ∧
      earlier.Foldable definition ∧ earlier.valueOf definition = value := by
  rcases reached.origin kept with
    old | ⟨earlier, walked, keeps, other, known, foldable, named, given⟩
  · rw [fresh, Table.get?_empty] at old
    cases old
  · have same : other = definition := List.inj_on_of_nodup_map distinct known member named
    subst same
    exact ⟨earlier, walked, keeps, foldable, given⟩

/-- Where folding ends, a definition with a value has one that is kept. -/
theorem exists_kept_of_isConstant (fresh : site.constants = .empty)
    {order : List ConstDefinition} {definition : ConstDefinition} (member : definition ∈ order)
    (constant : ((site.foldAll order).valueOf definition).isConstant = true) :
    ∃ value, (site.foldAll order).constants.get? definition.fqn = some value := by
  rw [← Table.contains_iff, ← Bool.not_eq_false]
  exact fun absent => not_foldable_foldAll order fresh definition member ⟨absent, constant⟩

/-! ### Settled definitions -/

/-- Where all values are settled, folding in any order ends with all values that can be
folded at any stage. -/
theorem Settled.keptBy_foldAll (settled : Settled site definitions)
    (fresh : site.constants = .empty) (distinct : (definitions.map (·.fqn)).Nodup)
    {stage : Site} (reached : Reaches definitions site stage) {order : List ConstDefinition}
    (perm : order.Perm definitions) : stage.KeptBy (site.foldAll order) := by
  have last : Reaches definitions site (site.foldAll order) := Reaches.foldAll perm.subset
  intro fqn value kept
  rcases reached.origin kept with old | ⟨earlier, walked, _, definition, member, foldable, rfl, rfl⟩
  · rw [fresh, Table.get?_empty] at old
    cases old
  · have same := settled earlier walked definition member foldable order perm
    obtain ⟨final, present⟩ := exists_kept_of_isConstant fresh (perm.mem_iff.mpr member)
      (same ▸ foldable.2)
    obtain ⟨source, sourceReached, -, sourceFoldable, rfl⟩ :=
      last.origin_of_mem fresh distinct member present
    rw [present, ← settled source sourceReached definition member sourceFoldable order perm, same]

theorem Settled.constantsAgree {root : Tree} (fresh : site.constants = .empty)
    (distinct : ((ConstDefinition.listBelow site root).map (·.fqn)).Nodup)
    (settled : Settled site (ConstDefinition.listBelow site root)) : ConstantsAgree site root where
  solves := by
    intro definition member value recorded
    rw [mem_constantsOf_iff fresh] at recorded
    obtain ⟨earlier, walked, -, foldable, rfl⟩ :=
      (reaches_foldAll _ _).origin_of_mem fresh distinct member recorded
    rw [valueOf_constantsOf fresh]
    exact settled earlier walked definition member foldable _ (List.Perm.refl _)
  anyOrder := by
    intro order perm fqn value
    rw [mem_constantsOf_iff fresh]
    exact ⟨settled.keptBy_foldAll fresh distinct (Reaches.foldAll perm.subset) (List.Perm.refl _)
        fqn value,
      settled.keptBy_foldAll fresh distinct (reaches_foldAll _ _) perm fqn value⟩

theorem ConstantsAgree.settled {root : Tree} (fresh : site.constants = .empty)
    (agree : ConstantsAgree site root) : Settled site (ConstDefinition.listBelow site root) := by
  intro stage reached definition member foldable order perm
  have last : Reaches (ConstDefinition.listBelow site root) site (site.foldAll order) :=
    Reaches.foldAll perm.subset
  -- The value at the stage is one that some order of the definitions ends with.
  obtain ⟨other, otherPerm, kept⟩ := reached.exists_order member foldable
  have recorded : (definition.fqn, stage.valueOf definition) ∈ constantsOf site root :=
    (agree.anyOrder other otherPerm _ _).mp kept
  rw [← agree.solves definition member _ recorded, valueOf_constantsOf fresh]
  refine last.valueOf_congr (reaches_foldAll _ _) (fun fqn => ?_) definition
  refine Option.ext fun value => ?_
  rw [agree.anyOrder order perm, mem_constantsOf_iff fresh]

/-! ### Names with one meaning -/

/-- The names with values at a stage are those of definitions. -/
theorem Reaches.mem_of_get? {stage : Site} (fresh : site.constants = .empty)
    (reached : Reaches definitions site stage) {fqn : String} {value : Const}
    (kept : stage.constants.get? fqn = some value) : fqn ∈ definitions.map (·.fqn) := by
  rcases reached.origin kept with old | ⟨_, _, _, definition, member, _, rfl, _⟩
  · rw [fresh, Table.get?_empty] at old
    cases old
  · exact List.mem_map.mpr ⟨definition, member, rfl⟩

/-- A full name that means a constant at a stage means the same one where more constants are
kept. -/
theorem Unambiguous.constant?_of_keptBy (unambiguous : Unambiguous site definitions)
    (fresh : site.constants = .empty) {stage later : Site}
    (reached : Reaches definitions site stage) (laterReached : Reaches definitions site later)
    (keeps : stage.KeptBy later) {fqn : String} {value : Const}
    (known : stage.constant? fqn = some value) : later.constant? fqn = some value := by
  rw [constant?, Option.or_eq_some_iff] at known ⊢
  rcases known with kept | ⟨absent, given⟩
  · exact Or.inl (keeps fqn value kept)
  · rw [reached.eq_start] at given
    have missing : later.constants.get? fqn = none := by
      rw [Option.eq_none_iff_forall_ne_some]
      intro other present
      obtain ⟨definition, member, rfl⟩ := List.mem_map.mp (laterReached.mem_of_get? fresh present)
      rw [show SymbolTable.constant? _ _ = _ from unambiguous.apart definition member] at given
      cases given
    rw [laterReached.eq_start] at missing ⊢
    exact Or.inr ⟨missing, given⟩

/-- The full name of a constant at a stage. -/
theorem Reaches.namesConstant {stage : Site} (fresh : site.constants = .empty)
    (reached : Reaches definitions site stage) {fqn : String} {value : Const}
    (known : stage.constant? fqn = some value) : site.NamesConstant definitions fqn := by
  rw [constant?, Option.or_eq_some_iff] at known
  rcases known with kept | ⟨absent, given⟩
  · exact Or.inl (reached.mem_of_get? fresh kept)
  · rw [reached.eq_start] at given
    exact Or.inr (by rw [given]; exact Option.some_ne_none _)

/-- A definition that can be folded at a stage has the same value wherever more constants are
kept. -/
theorem Unambiguous.valueOf_of_keptBy (unambiguous : Unambiguous site definitions)
    (fresh : site.constants = .empty) {stage later : Site}
    (reached : Reaches definitions site stage) (laterReached : Reaches definitions site later)
    (keeps : stage.KeptBy later) {definition : ConstDefinition} (member : definition ∈ definitions)
    (constant : (stage.valueOf definition).isConstant = true) :
    later.valueOf definition = stage.valueOf definition := by
  have inPlace : stage.content = site.content := by rw [reached.eq_start]
  refine evaluate_of_isConstant ?_ (fun name asked value known => ?_) constant
  · show stage.content = later.content
    rw [inPlace, laterReached.eq_start]
  rw [reached.meaning?_eq] at known
  rw [laterReached.meaning?_eq]
  obtain ⟨fqn, among, given⟩ := List.exists_of_findSome?_eq_some known
  have stays := unambiguous.constant?_of_keptBy fresh reached laterReached keeps given
  cases found : (site.namesFrom definition name).findSome? later.constant? with
  | none =>
    rw [List.findSome?_eq_none_iff.mp found fqn among] at stays
    cases stays
  | some other =>
    obtain ⟨second, amongToo, givenToo⟩ := List.exists_of_findSome?_eq_some found
    have same := unambiguous.single definition member name (inPlace ▸ asked) fqn among second
      amongToo (reached.namesConstant fresh given) (laterReached.namesConstant fresh givenToo)
    rw [← same, stays] at givenToo
    exact givenToo.symm

/-- Where names have one meaning, folding in any order keeps the values of every stage. -/
theorem Unambiguous.keptBy_foldAll (unambiguous : Unambiguous site definitions)
    (fresh : site.constants = .empty) (distinct : (definitions.map (·.fqn)).Nodup)
    {stage : Site} (reached : Reaches definitions site stage) {order : List ConstDefinition}
    (perm : order.Perm definitions) : stage.KeptBy (site.foldAll order) := by
  have last : Reaches definitions site (site.foldAll order) := Reaches.foldAll perm.subset
  induction reached with
  | start =>
    intro fqn value kept
    rw [fresh, Table.get?_empty] at kept
    cases kept
  | @record stage definition reached member foldable inductionHypothesis =>
    intro fqn value kept
    rw [get?_record] at kept
    by_cases same : fqn = definition.fqn
    · rw [if_pos same, Option.some.injEq] at kept
      have given := unambiguous.valueOf_of_keptBy fresh reached last inductionHypothesis member
        foldable.2
      obtain ⟨final, present⟩ := exists_kept_of_isConstant fresh (perm.mem_iff.mpr member)
        (given ▸ foldable.2)
      obtain ⟨source, sourceReached, sourceKept, sourceFoldable, rfl⟩ :=
        last.origin_of_mem fresh distinct member present
      rw [same, present, ← kept, ← given, unambiguous.valueOf_of_keptBy fresh sourceReached last
        sourceKept member sourceFoldable.2]
    · rw [if_neg same] at kept
      exact inductionHypothesis fqn value kept

theorem Unambiguous.settled (unambiguous : Unambiguous site definitions)
    (fresh : site.constants = .empty) (distinct : (definitions.map (·.fqn)).Nodup) :
    Settled site definitions :=
  fun _ reached _ member foldable _ perm =>
    unambiguous.valueOf_of_keptBy fresh reached (Reaches.foldAll perm.subset)
      (unambiguous.keptBy_foldAll fresh distinct reached perm) member foldable.2

end SourceCapture.Site

namespace SourceCapture.ParsedFile

/-! ### The constants of a file -/

/-- The definitions of the constants of a file. -/
def definitions (file : ParsedFile) (symbols : SymbolTable) (markers : MarkerNames) :
    List ConstDefinition :=
  ConstDefinition.listBelow (file.site symbols markers) file.root

/-- In a file whose constants have distinct names, they agree with their definitions just when
the definitions are settled, and so in particular where every name has one meaning. -/
theorem constantsAgree_iff_settled (file : ParsedFile) (symbols : SymbolTable)
    (markers : MarkerNames)
    (distinct : ((file.definitions symbols markers).map (·.fqn)).Nodup) :
    ((file.site symbols markers).ConstantsAgree file.root ↔
        (file.site symbols markers).Settled (file.definitions symbols markers)) ∧
      ((file.site symbols markers).Unambiguous (file.definitions symbols markers) →
        (file.site symbols markers).ConstantsAgree file.root) := by
  refine ⟨⟨fun agree => agree.settled rfl, fun settled => settled.constantsAgree rfl distinct⟩,
    fun unambiguous => ?_⟩
  exact (unambiguous.settled rfl distinct).constantsAgree rfl distinct

/-- A file with a constant that is used before its own definition. -/
def forwardFile : ParsedFile where
  document := .ofFile ⟨"/A.kt"⟩ "const val A = B\nconst val B = 1\n".toList ⟨"/"⟩
  root := .branch "source_file" 0 32
    [.constant 0 "identifier", .constant 16 "number_literal"]

instance (site : Site) (definitions : List ConstDefinition) (fqn : String) :
    Decidable (site.NamesConstant definitions fqn) :=
  inferInstanceAs (Decidable (_ ∨ _))

set_option maxRecDepth 10000 in
theorem forwardFile_constantsAgree :
    ((forwardFile.definitions {} {}).map (·.fqn)).Nodup ∧
      (forwardFile.site {} {}).ConstantsAgree forwardFile.root := by
  have distinct : ((forwardFile.definitions {} {}).map (·.fqn)).Nodup := by decide +kernel
  have unambiguous : (forwardFile.site {} {}).Unambiguous (forwardFile.definitions {} {}) :=
    ⟨by decide +kernel, by decide +kernel⟩
  exact ⟨distinct, (constantsAgree_iff_settled forwardFile {} {} distinct).2 unambiguous⟩

/-- A file with a constant `X` and an object in which another `X` follows on a constant `Y`
that stands for `X`. -/
def shadowingFile : ParsedFile where
  document := .ofFile ⟨"/A.kt"⟩
    "const val X = 1\nobject O \x7b\n    const val Y = X\n    const val X = 2\n\x7d\n".toList ⟨"/"⟩
  root := .branch "source_file" 0 69 [
    .constant 0 "number_literal",
    .branch "object_declaration" 16 68 [
      .token "object" 16 22,
      .leaf "identifier" 23 24,
      .branch "class_body" 25 68 [
        .token "\x7b" 25 26,
        .constant 31 "identifier",
        .constant 51 "number_literal",
        .token "\x7d" 67 68]]]

set_option maxRecDepth 10000 in
/-- The constant `Y` keeps the value of the outer `X`, although the inner one is what its name
means. -/
theorem shadowingFile_constants_disagree :
    ((shadowingFile.definitions {} {}).map (·.fqn)).Nodup ∧
      ¬ (shadowingFile.site {} {}).ConstantsAgree shadowingFile.root := by
  refine ⟨by decide +kernel, fun agree => ?_⟩
  have folded : ((shadowingFile.site {} {}).foldAll
      (shadowingFile.definitions {} {})).constants.get? "O.Y" = some (.int 1) := by
    decide +kernel
  have meant : ∃ definition ∈ shadowingFile.definitions {} {}, definition.fqn = "O.Y" ∧
      ((shadowingFile.site {} {}).foldAll
        (shadowingFile.definitions {} {})).valueOf definition = .int 2 := by
    decide +kernel
  obtain ⟨definition, member, named, inner⟩ := meant
  have outer := agree.solves definition member (.int 1)
    (by rw [named]; exact (Site.mem_constantsOf_iff rfl _ _ _).mpr folded)
  rw [Site.valueOf_constantsOf rfl] at outer
  exact absurd (inner.symm.trans outer) (by decide)

end SourceCapture.ParsedFile
