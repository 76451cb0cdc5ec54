/-
What folding comes to when it ends. Every pass but the last one folds a definition at least, so
there is one more pass than there are definitions at most. The last one finds that nothing can be
folded with the values that are kept, so a reference is followed to the value behind it however
many definitions are in between. Names that only refer to each other get no value. But a name in
an initializer is tried under several full names, and takes the value of an outer constant as long
as the inner one has none: names that refer to each other are folded after all if such a value lets
one of them in.
-/

import SourceCapture.Proofs.Constants.Known

namespace SourceCapture

/-! ### Expressions that only lack values of names -/

/-- Whether an expression has a value as soon as the names that it asks for have one. -/
def Tree.IsTotal (content : List Char) (tree : Tree) : Prop :=
  ∀ lookUp : String → Option Const,
    (∀ name ∈ tree.asked content, ∃ value, lookUp name = some value ∧ value.isConstant = true) →
      ∃ value, tree.value? content lookUp = some value ∧ value.isConstant = true

theorem Tree.isTotal_of_known {content : List Char} {tree : Tree} {value : Const}
    (literal : ConstShape.ofTree content tree = .known (some value)) : tree.IsTotal content :=
  fun lookUp _ => ⟨value, by rw [value?_eq, literal, ConstShape.value?],
    ConstShape.isConstant_of_known literal⟩

theorem Tree.isTotal_of_name {content : List Char} {tree : Tree} {written : String}
    (reference : ConstShape.ofTree content tree = .name written) : tree.IsTotal content := by
  intro lookUp known
  rw [value?_eq, reference, ConstShape.value?]
  refine known written ((mem_asked_iff content tree written).mpr (Or.inl ?_))
  rw [reference]
  exact List.mem_singleton_self written

namespace Site

variable {site start stage final other : Site} {definitions : List ConstDefinition}
  {definition : ConstDefinition} {names : List String} {root : Tree} {passes count : Nat}
  {name fqn : String} {value : Const}

/-! ### Passes -/

/-- The passes go one way. -/
theorem RunsPasses.unique (runs : RunsPasses definitions passes stage final)
    (otherRuns : RunsPasses definitions count stage other) : passes = count ∧ final = other := by
  induction runs generalizing count with
  | last same =>
    cases otherRuns with
    | last => exact ⟨rfl, rfl⟩
    | next grown => exact absurd same grown
  | next grown _ inductionHypothesis =>
    cases otherRuns with
    | last same => exact absurd same grown
    | next _ rest =>
      obtain ⟨rfl, rfl⟩ := inductionHypothesis rest
      exact ⟨rfl, rfl⟩

/-- The number of passes over all definitions is known to be small enough, and so what they come
to is what folding comes to. -/
theorem runsPasses_iff (fresh : site.constants = .empty) (definitions : List ConstDefinition) :
    ∃ passes ≤ definitions.length + 1, ∀ count final,
      RunsPasses definitions count site final ↔
        count = passes ∧ final = site.foldAll definitions := by
  obtain ⟨passes, within, runs⟩ := exists_runsPasses_foldAll fresh definitions
  refine ⟨passes, within, fun count final => ⟨fun other => other.unique runs, ?_⟩⟩
  rintro ⟨rfl, rfl⟩
  exact runs

/-! ### The constants of a file as a list -/

/-- The constants of a file come in the order of their names, and no name comes twice. -/
theorem pairwise_constantsOf (fresh : site.constants = .empty) (root : Tree) :
    (constantsOf site root).Pairwise fun first second => first.1 < second.1 := by
  have distinct := nodup_keys_constantsOf fresh root
  rw [List.nodup_iff_pairwise_ne, List.pairwise_map] at distinct
  refine List.Pairwise.imp₂ (fun first second inOrder apart => ?_)
    (List.pairwise_mergeSort ?_ ?_ _) distinct
  · simp only [Bool.not_eq_true', decide_eq_false_iff_not, String.not_lt] at inOrder
    exact Std.lt_of_le_of_ne inOrder apart
  · intro first second third
    simpa only [Bool.not_eq_true', decide_eq_false_iff_not, String.not_lt] using String.le_trans
  · intro first second
    simpa only [Bool.or_eq_true, Bool.not_eq_true', decide_eq_false_iff_not, String.not_lt] using
      String.le_total first.1 second.1

theorem isConstant_of_mem_constantsOf (fresh : site.constants = .empty)
    (member : (fqn, value) ∈ constantsOf site root) : value.isConstant = true :=
  (reaches_foldAll _ _).isConstant_of_get? fresh
    ((mem_constantsOf_iff fresh root fqn value).mp member)

/-- A definition whose name is missing has no value with all constants of the file visible. -/
theorem isConstant_valueOf_of_missing (fresh : site.constants = .empty)
    (member : definition ∈ ConstDefinition.listBelow site root)
    (missing : ∀ value, (definition.fqn, value) ∉ constantsOf site root) :
    ({ site with constants := .ofList (constantsOf site root) }.valueOf definition).isConstant =
      false := by
  rw [valueOf_constantsOf fresh]
  refine Bool.eq_false_iff.mpr fun constant => ?_
  obtain ⟨value, kept⟩ := exists_kept_of_isConstant fresh member constant
  exact missing value ((mem_constantsOf_iff fresh root _ value).mpr kept)

/-! ### References -/

/-- The value that a name in a definition has with the constants of the site visible. -/
def meaningIn? (site : Site) (definition : ConstDefinition) (name : String) : Option Const :=
  { site with enclosing := definition.enclosing }.meaning? name

/-- The constant that a name in a definition refers to: the first one among the full names that
the name can mean. -/
def referent? (site : Site) (definitions : List ConstDefinition) (definition : ConstDefinition)
    (name : String) : Option String :=
  (site.namesFrom definition name).find? (site.NamesConstant definitions ·)

/-- Whether a value is known of a constant of another file. -/
def Registers (site : Site) (fqn : String) : Prop :=
  ∃ value, site.symbols.constant? fqn = some value ∧ value.isConstant = true

/-- Whether the references of a definition end in so many steps: each of them leads to a constant
of another file with a value, or to a definition whose references end in one step less. -/
def EndsWithin (site : Site) (definitions : List ConstDefinition) : Nat → ConstDefinition → Prop
  | 0, _ => False
  | steps + 1, definition =>
    definition.initializer.IsTotal site.content ∧
      ∀ name ∈ definition.initializer.asked site.content,
        ∃ fqn, site.referent? definitions definition name = some fqn ∧
          (site.Registers fqn ∨
            ∃ other ∈ definitions, other.fqn = fqn ∧ site.EndsWithin definitions steps other)

/-- The references of a literal end at once. -/
theorem endsWithin_of_known
    (literal : ConstShape.ofTree site.content definition.initializer = .known (some value))
    (steps : Nat) : site.EndsWithin definitions (steps + 1) definition := by
  refine ⟨Tree.isTotal_of_known literal, fun name asked => ?_⟩
  rw [Tree.mem_asked_iff, literal] at asked
  obtain own | ⟨_, inside, -⟩ := asked
  · cases own
  · cases inside

/-- The references of a name end one step behind those of what it refers to. -/
theorem endsWithin_of_name {written : String} {steps : Nat} {target : ConstDefinition}
    (reference : ConstShape.ofTree site.content definition.initializer = .name written)
    (refers : site.referent? definitions definition written = some target.fqn)
    (member : target ∈ definitions) (ends : site.EndsWithin definitions steps target) :
    site.EndsWithin definitions (steps + 1) definition := by
  refine ⟨Tree.isTotal_of_name reference, fun name asked => ?_⟩
  rw [Tree.mem_asked_iff, reference] at asked
  obtain own | ⟨_, inside, -⟩ := asked
  · rw [List.mem_singleton.mp own]
    exact ⟨target.fqn, refers, Or.inr ⟨target, member, rfl, ends⟩⟩
  · cases inside

/-- Names that refer to each other: each definition of one of them refers to one of them. -/
structure IsCycle (site : Site) (definitions : List ConstDefinition) (names : List String) :
    Prop where
  defined : ∀ fqn ∈ names, fqn ∈ definitions.map (·.fqn)
  closed : ∀ definition ∈ definitions, definition.fqn ∈ names →
    ∃ name ∈ definition.initializer.asked site.content,
      ∃ fqn ∈ names, site.referent? definitions definition name = some fqn

/-- Whether names are not among the constants of a file. -/
def StayUnfolded (site : Site) (root : Tree) (names : List String) : Prop :=
  ∀ fqn ∈ names, ∀ value, (fqn, value) ∉ constantsOf site root

/-- The place with the constants of the file visible, but those of some names. -/
def seenWithout (site : Site) (root : Tree) (names : List String) : Site :=
  { site with constants := .ofList ((constantsOf site root).filter (·.1 ∉ names)) }

/-- Names that hang on each other: each definition of one of them asks for a name that has no value
without the constants of these names. -/
def HangTogether (site : Site) (root : Tree) (names : List String) : Prop :=
  ∀ definition ∈ ConstDefinition.listBelow site root, definition.fqn ∈ names →
    ∃ name ∈ definition.initializer.asked site.content, ∀ value,
      (site.seenWithout root names).meaningIn? definition name = some value →
        value.isConstant = false

/-! ### References are followed -/

/-- A definition has a value where all names in it have one, if it only lacks values of names. -/
theorem isConstant_valueOf_of_isTotal (total : definition.initializer.IsTotal site.content)
    (known : ∀ name ∈ definition.initializer.asked site.content,
      ∃ value, site.meaningIn? definition name = some value ∧ value.isConstant = true) :
    (site.valueOf definition).isConstant = true := by
  obtain ⟨value, folded, constant⟩ := total (site.meaningIn? definition) known
  rw [valueOf, evaluate_eq]
  exact folded ▸ constant

/-- A name has the value of the constant that it refers to. -/
theorem Reaches.meaningIn?_of_referent? (fresh : site.constants = .empty)
    (reached : Reaches definitions site stage)
    (refers : site.referent? definitions definition name = some fqn)
    (known : stage.constant? fqn = some value) :
    stage.meaningIn? definition name = some value := by
  rw [meaningIn?, reached.meaning?_eq]
  obtain ⟨-, before, behind, split, others⟩ := List.find?_eq_some_iff_append.mp refers
  refine List.findSome?_eq_some_iff.mpr ⟨before, fqn, behind, split, known, ?_⟩
  intro earlier among
  have nothing : ¬ site.NamesConstant definitions earlier := by simpa using others earlier among
  exact Option.eq_none_iff_forall_ne_some.mpr fun other given =>
    nothing (reached.namesConstant fresh given)

/-- A constant of another file has a value at every stage, if only that of one of this file with
the same name. -/
theorem Reaches.exists_constant?_of_registers (fresh : site.constants = .empty)
    (reached : Reaches definitions site stage) (registers : site.Registers fqn) :
    ∃ value, stage.constant? fqn = some value ∧ value.isConstant = true := by
  obtain ⟨value, given, constant⟩ := registers
  rw [constant?, reached.eq_start]
  cases kept : stage.constants.get? fqn with
  | none => exact ⟨value, given, constant⟩
  | some other => exact ⟨other, rfl, reached.isConstant_of_get? fresh kept⟩

/-- A definition whose references end is folded, however many steps that takes. -/
theorem exists_kept_of_endsWithin (fresh : site.constants = .empty) {steps : Nat}
    (ends : site.EndsWithin definitions steps definition) (member : definition ∈ definitions) :
    ∃ value, (site.foldAll definitions).constants.get? definition.fqn = some value := by
  have reached := reaches_foldAll site definitions
  induction steps generalizing definition with
  | zero => exact ends.elim
  | succ steps inductionHypothesis =>
    obtain ⟨total, followed⟩ := ends
    have inPlace : (site.foldAll definitions).content = site.content := by rw [reached.eq_start]
    rw [← inPlace] at total followed
    refine exists_kept_of_isConstant fresh member
      (isConstant_valueOf_of_isTotal total fun name asked => ?_)
    obtain ⟨fqn, refers, known⟩ := followed name asked
    obtain ⟨value, given, constant⟩ :
        ∃ value, (site.foldAll definitions).constant? fqn = some value ∧
          value.isConstant = true := by
      rcases known with registers | ⟨other, otherMember, rfl, otherEnds⟩
      · exact reached.exists_constant?_of_registers fresh registers
      · obtain ⟨value, kept⟩ := inductionHypothesis otherEnds otherMember
        refine ⟨value, ?_, reached.isConstant_of_get? fresh kept⟩
        rw [constant?, kept, Option.some_or]
    exact ⟨value, reached.meaningIn?_of_referent? fresh refers given, constant⟩

/-! ### Names that hang on each other -/

theorem get?_seenWithout (fresh : site.constants = .empty) (root : Tree) (names : List String)
    (fqn : String) : (site.seenWithout root names).constants.get? fqn = some value ↔
      fqn ∉ names ∧ (fqn, value) ∈ constantsOf site root := by
  have distinct : (((constantsOf site root).filter (·.1 ∉ names)).map Prod.fst).Nodup :=
    (List.filter_sublist.map Prod.fst).nodup (nodup_keys_constantsOf fresh root)
  rw [seenWithout, Table.get?_ofList distinct, Table.find?_eq_some_iff distinct, List.mem_filter,
    decide_eq_true_eq, and_comm]

/-- Where each full name has the value it had or is a constant, a name that was a constant still
is one. -/
theorem exists_constant_of_findSome? {first second : String → Option Const} {full : List String}
    (more : ∀ fqn, second fqn = first fqn ∨
      ∃ value, second fqn = some value ∧ value.isConstant = true)
    (found : full.findSome? first = some value) (constant : value.isConstant = true) :
    ∃ other, full.findSome? second = some other ∧ other.isConstant = true := by
  induction full with
  | nil => cases found
  | cons fqn rest inductionHypothesis =>
    rw [List.findSome?_cons] at found ⊢
    rcases more fqn with same | ⟨other, known, otherConstant⟩
    · rw [same]
      cases given : first fqn with
      | none =>
        rw [given] at found
        exact inductionHypothesis found
      | some kept =>
        rw [given] at found
        exact ⟨value, found, constant⟩
    · rw [known]
      exact ⟨other, rfl, otherConstant⟩

/-- As long as the names are not folded, what is seen without them in the end is what is known, or
more constants. -/
theorem Reaches.seenWithout_constant? (fresh : site.constants = .empty)
    (reached : Reaches (ConstDefinition.listBelow site root) site stage)
    (keeps : stage.KeptBy (site.foldAll (ConstDefinition.listBelow site root)))
    (unfolded : ∀ fqn ∈ names, stage.constants.get? fqn = none) (fqn : String) :
    (site.seenWithout root names).constant? fqn = stage.constant? fqn ∨
      ∃ value, (site.seenWithout root names).constant? fqn = some value ∧
        value.isConstant = true := by
  cases seen : (site.seenWithout root names).constants.get? fqn with
  | some value =>
    refine Or.inr ⟨value, by rw [constant?, seen, Option.some_or], ?_⟩
    exact isConstant_of_mem_constantsOf fresh ((get?_seenWithout fresh root names fqn).mp seen).2
  | none =>
    have absent : stage.constants.get? fqn = none := by
      by_cases inside : fqn ∈ names
      · exact unfolded fqn inside
      · refine Option.eq_none_iff_forall_ne_some.mpr fun value kept => ?_
        have listed := (mem_constantsOf_iff fresh root fqn value).mpr (keeps fqn value kept)
        rw [(get?_seenWithout fresh root names fqn).mpr ⟨inside, listed⟩] at seen
        cases seen
    refine Or.inl ?_
    rw [constant?, constant?, seen, absent, reached.eq_start]
    rfl

/-- The first of the names to be folded would need a value that is not there without them. -/
theorem HangTogether.not_foldable (hang : HangTogether site root names)
    (fresh : site.constants = .empty)
    (reached : Reaches (ConstDefinition.listBelow site root) site stage)
    (keeps : stage.KeptBy (site.foldAll (ConstDefinition.listBelow site root)))
    (unfolded : ∀ fqn ∈ names, stage.constants.get? fqn = none)
    (member : definition ∈ ConstDefinition.listBelow site root) (among : definition.fqn ∈ names) :
    ¬ stage.Foldable definition := by
  rintro ⟨-, constant⟩
  obtain ⟨name, asked, without⟩ := hang definition member among
  have inPlace : stage.content = site.content := by rw [reached.eq_start]
  obtain ⟨value, meant, meantConstant⟩ :=
    Tree.exists_of_mem_asked definition.initializer (value?_eq_some_of_isConstant constant)
      constant (inPlace ▸ asked)
  rw [reached.meaning?_eq] at meant
  obtain ⟨other, found, otherConstant⟩ := exists_constant_of_findSome?
    (reached.seenWithout_constant? fresh keeps unfolded) meant meantConstant
  rw [without other found] at otherConstant
  cases otherConstant

/-- Names that hang on each other have no value at any stage on the way to the end. -/
theorem HangTogether.get?_eq_none (hang : HangTogether site root names)
    (fresh : site.constants = .empty)
    (reached : Reaches (ConstDefinition.listBelow site root) site stage)
    (keeps : stage.KeptBy (site.foldAll (ConstDefinition.listBelow site root))) :
    ∀ fqn ∈ names, stage.constants.get? fqn = none := by
  induction reached with
  | start =>
    intro fqn _
    rw [fresh, Table.get?_empty]
  | @record stage definition before member foldable inductionHypothesis =>
    have earlier := (keptBy_record foldable).trans keeps
    have unfolded := inductionHypothesis earlier
    intro fqn among
    rw [get?_record]
    split
    case isTrue same =>
      exact absurd foldable
        (hang.not_foldable fresh before earlier unfolded member (same ▸ among))
    case isFalse => exact unfolded fqn among

theorem HangTogether.stayUnfolded (hang : HangTogether site root names)
    (fresh : site.constants = .empty) : site.StayUnfolded root names := by
  intro fqn among value listed
  rw [mem_constantsOf_iff fresh, hang.get?_eq_none fresh (reaches_foldAll _ _)
    (KeptBy.refl _) fqn among] at listed
  cases listed

/-- Names without a value hang on each other, if their definitions only lack values of names. -/
theorem StayUnfolded.hangTogether (unfolded : site.StayUnfolded root names)
    (fresh : site.constants = .empty)
    (total : ∀ definition ∈ ConstDefinition.listBelow site root, definition.fqn ∈ names →
      definition.initializer.IsTotal site.content) : site.HangTogether root names := by
  intro definition member among
  have same : ∀ fqn, (site.seenWithout root names).constants.get? fqn =
      (Table.ofList (constantsOf site root)).get? fqn := by
    refine fun fqn => Option.ext fun value => ?_
    rw [get?_seenWithout fresh, get?_ofList_constantsOf fresh, ← mem_constantsOf_iff fresh]
    exact and_iff_right_of_imp fun listed inside => unfolded fqn inside value listed
  have missing : ((site.seenWithout root names).valueOf definition).isConstant = false :=
    (congrArg Const.isConstant (valueOf_congr same definition)).trans
      (isConstant_valueOf_of_missing fresh member (unfolded definition.fqn among))
  by_contra known
  push Not at known
  refine Bool.eq_false_iff.mp missing (isConstant_valueOf_of_isTotal (total definition member among)
    fun name asked => ?_)
  obtain ⟨value, meant, constant⟩ := known name asked
  exact ⟨value, meant, Bool.not_eq_false _ ▸ constant⟩

/-- Where names have one meaning, names that refer to each other hang on each other. -/
theorem IsCycle.hangTogether (fresh : site.constants = .empty)
    (unambiguous : site.Unambiguous (ConstDefinition.listBelow site root))
    (cycle : site.IsCycle (ConstDefinition.listBelow site root) names) :
    site.HangTogether root names := by
  intro definition member among
  obtain ⟨name, asked, fqn, inside, refers⟩ := cycle.closed definition member among
  refine ⟨name, asked, fun value meant => ?_⟩
  obtain ⟨other, tried, known⟩ := List.exists_of_findSome?_eq_some meant
  have found : site.NamesConstant (ConstDefinition.listBelow site root) fqn := by
    simpa using List.find?_some refers
  have only (isConstant : site.NamesConstant (ConstDefinition.listBelow site root) other) :
      other = fqn :=
    unambiguous.single definition member name asked other tried fqn
      (List.mem_of_find?_eq_some refers) isConstant found
  rw [constant?, Option.or_eq_some_iff] at known
  exfalso
  rcases known with kept | ⟨-, given⟩
  · obtain ⟨outside, listed⟩ := (get?_seenWithout fresh root names other).mp kept
    have own := (reaches_foldAll _ _).mem_of_get? fresh
      ((mem_constantsOf_iff fresh root other value).mp listed)
    exact outside (only (Or.inl own) ▸ inside)
  · obtain rfl := only (Or.inr (Option.ne_none_iff_exists'.mpr ⟨value, given⟩))
    obtain ⟨source, sourceMember, rfl⟩ := List.mem_map.mp (cycle.defined other inside)
    have registered := (unambiguous.apart source sourceMember).symm.trans given
    cases registered

/-! ### What folding comes to -/

/-- Folding the constants of a file stops, and what it comes to is complete. -/
structure FoldsCompletely (site : Site) (root : Tree) : Prop where
  /-- The passes come to an end. There is one more of them than there are definitions at most. -/
  stops : ∃ passes ≤ (ConstDefinition.listBelow site root).length + 1, ∀ count final,
    RunsPasses (ConstDefinition.listBelow site root) count site final ↔
      count = passes ∧ final = site.foldAll (ConstDefinition.listBelow site root)
  sorted : (constantsOf site root).Pairwise fun first second => first.1 < second.1
  valued : ∀ fqn value, (fqn, value) ∈ constantsOf site root → value.isConstant = true
  /-- A definition whose name is missing has no value with all constants of the file visible. -/
  complete : ∀ definition ∈ ConstDefinition.listBelow site root,
    (∀ value, (definition.fqn, value) ∉ constantsOf site root) →
      ({ site with constants := .ofList (constantsOf site root) }.valueOf definition).isConstant =
        false
  /-- References are followed for any number of steps. -/
  followed : ∀ steps, ∀ definition ∈ ConstDefinition.listBelow site root,
    site.EndsWithin (ConstDefinition.listBelow site root) steps definition →
      ∃ value, (definition.fqn, value) ∈ constantsOf site root

/-- Whether names that refer to each other are not among the constants of a file. -/
def CyclesStayUnfolded (site : Site) (root : Tree) : Prop :=
  ∀ names, site.IsCycle (ConstDefinition.listBelow site root) names → site.StayUnfolded root names

theorem foldsCompletely (fresh : site.constants = .empty) (root : Tree) :
    site.FoldsCompletely root where
  stops := runsPasses_iff fresh _
  sorted := pairwise_constantsOf fresh root
  valued _ _ := isConstant_of_mem_constantsOf fresh
  complete _ := isConstant_valueOf_of_missing fresh
  followed := by
    intro steps definition member ends
    obtain ⟨value, kept⟩ := exists_kept_of_endsWithin fresh ends member
    exact ⟨value, (mem_constantsOf_iff fresh root _ value).mpr kept⟩

end Site

namespace ParsedFile

/-- The constants of a file are folded completely. Names that hang on each other stay unfolded, and
those that stay unfolded hang on each other if their definitions only lack values of names. So
names that refer to each other stay unfolded in particular where every name has one meaning. -/
theorem foldsCompletely_and_stayUnfolded (file : ParsedFile) (symbols : SymbolTable)
    (markers : MarkerNames) :
    (file.site symbols markers).FoldsCompletely file.root ∧
      (∀ names, (file.site symbols markers).HangTogether file.root names →
        (file.site symbols markers).StayUnfolded file.root names) ∧
      (∀ names, (∀ definition ∈ file.definitions symbols markers, definition.fqn ∈ names →
          definition.initializer.IsTotal (file.site symbols markers).content) →
        (file.site symbols markers).StayUnfolded file.root names →
          (file.site symbols markers).HangTogether file.root names) ∧
      ((file.site symbols markers).Unambiguous (file.definitions symbols markers) →
        (file.site symbols markers).CyclesStayUnfolded file.root) := by
  refine ⟨Site.foldsCompletely rfl file.root, fun names hang => hang.stayUnfolded rfl,
    fun names total unfolded => unfolded.hangTogether rfl total, fun unambiguous names cycle => ?_⟩
  exact (cycle.hangTogether rfl unambiguous).stayUnfolded rfl

/-- A file with a constant `A` that stands for `B`, and two constants that stand for each other. -/
def referencesFile : ParsedFile where
  document := .ofFile ⟨"/A.kt"⟩
    "const val A = B\nconst val B = 1\nconst val C = D\nconst val D = C\n".toList ⟨"/"⟩
  root := .branch "source_file" 0 64 [
    .constant 0 "identifier", .constant 16 "number_literal",
    .constant 32 "identifier", .constant 48 "identifier"]

set_option maxRecDepth 10000 in
/-- The reference of `A` is followed, and the two constants have no value. -/
theorem referencesFile_constants :
    (∃ value, ("A", value) ∈ constantsOf (referencesFile.site {} {}) referencesFile.root) ∧
      (referencesFile.site {} {}).StayUnfolded referencesFile.root ["C", "D"] := by
  obtain ⟨folds, -, -, cyclesUnfolded⟩ := foldsCompletely_and_stayUnfolded referencesFile {} {}
  constructor
  · have listed : referencesFile.definitions {} {} = [
        ⟨"A", [], .leaf "identifier" 14 15⟩, ⟨"B", [], .leaf "number_literal" 30 31⟩,
        ⟨"C", [], .leaf "identifier" 46 47⟩, ⟨"D", [], .leaf "identifier" 62 63⟩] := by rfl
    have user : _ ∈ referencesFile.definitions {} {} := listed ▸ List.mem_cons_self
    have used : _ ∈ referencesFile.definitions {} {} :=
      listed ▸ List.mem_cons_of_mem _ List.mem_cons_self
    have literal : ConstShape.ofTree (referencesFile.site {} {}).content
        (.leaf "number_literal" 30 31) = .known (some (.int 1)) := by rfl
    have reference : ConstShape.ofTree (referencesFile.site {} {}).content
        (.leaf "identifier" 14 15) = .name "B" := by rfl
    have refers : (referencesFile.site {} {}).referent? (referencesFile.definitions {} {})
        ⟨"A", [], .leaf "identifier" 14 15⟩ "B" = some "B" := by decide +kernel
    have ends := Site.endsWithin_of_name reference refers used (Site.endsWithin_of_known literal 0)
    exact folds.followed 2 _ user ends
  · have unambiguous : (referencesFile.site {} {}).Unambiguous (referencesFile.definitions {} {}) :=
      ⟨by decide +kernel, by decide +kernel⟩
    exact cyclesUnfolded unambiguous ["C", "D"] ⟨by decide +kernel, by decide +kernel⟩

/-- A file with a constant `A` and an object in which another `A` and a constant `B` stand for
each other. -/
def circularFile : ParsedFile where
  document := .ofFile ⟨"/A.kt"⟩
    "const val A = 1\nobject O \x7b\n    const val A = B\n    const val B = A\n\x7d\n".toList ⟨"/"⟩
  root := .branch "source_file" 0 69 [
    .constant 0 "number_literal",
    .branch "object_declaration" 16 68 [
      .token "object" 16 22,
      .leaf "identifier" 23 24,
      .branch "class_body" 25 68 [
        .token "\x7b" 25 26,
        .constant 31 "identifier",
        .constant 51 "identifier",
        .token "\x7d" 67 68]]]

set_option maxRecDepth 10000 in
/-- The constant `B` gets the value of the outer `A`, as long as the inner one has none, and gives
it to the inner one. -/
theorem circularFile_folds_cycle :
    ¬ (circularFile.site {} {}).CyclesStayUnfolded circularFile.root := by
  intro unfolded
  have cycle : (circularFile.site {} {}).IsCycle (circularFile.definitions {} {})
      ["O.A", "O.B"] := ⟨by decide +kernel, by decide +kernel⟩
  have folded : ((circularFile.site {} {}).foldAll
      (circularFile.definitions {} {})).constants.get? "O.A" = some (.int 1) := by
    decide +kernel
  exact unfolded _ cycle "O.A" List.mem_cons_self (.int 1)
    ((Site.mem_constantsOf_iff rfl _ _ _).mpr folded)

end ParsedFile

end SourceCapture
