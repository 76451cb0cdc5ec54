/-
The stages that folding goes through. A stage is a place with the constants folded so far,
and the next one keeps the value of one more definition. Folding in passes is one way
through the stages: it loses no value, every value in it comes from a stage before, and it
ends at a stage where no definition can be folded any more. Any way through the stages is
the beginning of folding the definitions in some order.
-/

import Mathlib.Data.List.Perm.Subperm
import SourceCapture.FileConstants
import SourceCapture.Proofs.Constants.Value
import SourceCapture.Proofs.Tables

namespace SourceCapture.Site

/-- Whether a definition has a value at this stage and no value is kept for its name. -/
def Foldable (stage : Site) (definition : ConstDefinition) : Prop :=
  stage.constants.contains definition.fqn = false ∧ (stage.valueOf definition).isConstant = true

/-- The stage after this one, which keeps the value that the definition has at this one. -/
def record (stage : Site) (definition : ConstDefinition) : Site :=
  { stage with
    constants := stage.constants.insert definition.fqn (stage.valueOf definition) }

/-- Whether a later stage keeps all values of this one. -/
def KeptBy (stage later : Site) : Prop :=
  ∀ fqn value, stage.constants.get? fqn = some value → later.constants.get? fqn = some value

/-- The stages that folding the definitions in any order and number can come to. -/
inductive Reaches (definitions : List ConstDefinition) (start : Site) : Site → Prop where
  | start : Reaches definitions start start
  | record {stage : Site} {definition : ConstDefinition} :
      Reaches definitions start stage → definition ∈ definitions → stage.Foldable definition →
      Reaches definitions start (stage.record definition)

variable {definitions : List ConstDefinition} {start stage : Site}

theorem KeptBy.refl (stage : Site) : stage.KeptBy stage := fun _ _ kept => kept

theorem KeptBy.trans {first second third : Site} (earlier : first.KeptBy second)
    (later : second.KeptBy third) : first.KeptBy third :=
  fun fqn value kept => later fqn value (earlier fqn value kept)

/-! ### Folding one definition -/

theorem foldDefinition_of_foldable {stage : Site} {definition : ConstDefinition}
    (foldable : stage.Foldable definition) :
    stage.foldDefinition definition = stage.record definition := by
  rw [foldDefinition, if_neg (by rw [foldable.1]; exact Bool.false_ne_true)]
  exact if_pos foldable.2

theorem foldDefinition_of_not_foldable {stage : Site} {definition : ConstDefinition}
    (settled : ¬ stage.Foldable definition) : stage.foldDefinition definition = stage := by
  rw [foldDefinition]
  by_cases present : stage.constants.contains definition.fqn = true
  · exact if_pos present
  · rw [if_neg present]
    exact if_neg fun constant => settled ⟨Bool.not_eq_true _ ▸ present, constant⟩

theorem get?_record (stage : Site) (definition : ConstDefinition) (fqn : String) :
    (stage.record definition).constants.get? fqn =
      if fqn = definition.fqn then some (stage.valueOf definition)
      else stage.constants.get? fqn :=
  Table.get?_insert ..

theorem keptBy_record {stage : Site} {definition : ConstDefinition}
    (foldable : stage.Foldable definition) : stage.KeptBy (stage.record definition) := by
  intro fqn value kept
  have apart : fqn ≠ definition.fqn := by
    rintro rfl
    rw [(Table.contains_eq_false_iff _ _).mp foldable.1] at kept
    cases kept
  rw [get?_record, if_neg apart, kept]

theorem size_record {stage : Site} {definition : ConstDefinition}
    (foldable : stage.Foldable definition) :
    (stage.record definition).constants.size = stage.constants.size + 1 :=
  Table.size_insert_of_fresh _ _ foldable.1

/-! ### What holds of every stage -/

namespace Reaches

/-- Stages only differ in the constants. -/
theorem eq_start (reached : Reaches definitions start stage) :
    stage = { start with constants := stage.constants } := by
  induction reached with
  | start => rfl
  | @record stage definition _ _ _ inductionHypothesis =>
    show { stage with constants := (stage.record definition).constants } = _
    rw [inductionHypothesis]

theorem nodup_keys (reached : Reaches definitions start stage)
    (distinct : start.constants.keys.Nodup) : stage.constants.keys.Nodup := by
  induction reached with
  | start => exact distinct
  | record _ _ foldable inductionHypothesis =>
    exact Table.nodup_keys_insert_of_fresh _ foldable.1 inductionHypothesis

/-- A value that is kept was there from the start, or comes from an earlier stage at which
the definition of that name could be folded. -/
theorem origin (reached : Reaches definitions start stage) {fqn : String} {value : Const}
    (kept : stage.constants.get? fqn = some value) :
    start.constants.get? fqn = some value ∨
      ∃ earlier, Reaches definitions start earlier ∧ earlier.KeptBy stage ∧
        ∃ definition ∈ definitions, earlier.Foldable definition ∧ definition.fqn = fqn ∧
          earlier.valueOf definition = value := by
  induction reached with
  | start => exact Or.inl kept
  | @record stage definition before member foldable inductionHypothesis =>
    rw [get?_record] at kept
    by_cases same : fqn = definition.fqn
    · rw [if_pos same, Option.some.injEq] at kept
      exact Or.inr ⟨stage, before, keptBy_record foldable, definition, member, foldable,
        same.symm, kept⟩
    · rw [if_neg same] at kept
      rcases inductionHypothesis kept with old | ⟨earlier, walked, keeps, found⟩
      · exact Or.inl old
      · exact Or.inr ⟨earlier, walked, keeps.trans (keptBy_record foldable), found⟩

/-- Only constants are kept. -/
theorem isConstant_of_get? (reached : Reaches definitions start stage)
    (fresh : start.constants = .empty) {fqn : String} {value : Const}
    (kept : stage.constants.get? fqn = some value) : value.isConstant = true := by
  rcases reached.origin kept with old | ⟨_, _, _, _, _, foldable, _, rfl⟩
  · rw [fresh, Table.get?_empty] at old
    cases old
  · exact foldable.2

/-- The names with values at a stage are names of definitions. -/
theorem size_le (reached : Reaches definitions start stage) (fresh : start.constants = .empty) :
    stage.constants.size ≤ definitions.length := by
  have distinct : stage.constants.keys.Nodup :=
    reached.nodup_keys (by rw [fresh]; exact List.nodup_nil)
  have known : stage.constants.keys ⊆ definitions.map (·.fqn) := by
    intro fqn member
    rw [Table.mem_keys_iff, Table.contains_iff] at member
    obtain ⟨value, kept⟩ := member
    rcases reached.origin kept with old | ⟨_, _, _, definition, defined, _, named, _⟩
    · rw [fresh, Table.get?_empty] at old
      cases old
    · exact List.mem_map.mpr ⟨definition, defined, named⟩
  have counted : (definitions.map (·.fqn)).length = definitions.length := List.length_map _
  rw [Table.size_eq_length_keys, ← counted]
  exact (List.subperm_of_subset distinct known).length_le

/-! ### Folding stays among the stages -/

theorem foldDefinition (reached : Reaches definitions start stage)
    {definition : ConstDefinition} (member : definition ∈ definitions) :
    Reaches definitions start (stage.foldDefinition definition) := by
  by_cases foldable : stage.Foldable definition
  · rw [foldDefinition_of_foldable foldable]
    exact reached.record member foldable
  · rw [foldDefinition_of_not_foldable foldable]
    exact reached

theorem foldPass (reached : Reaches definitions start stage) {order : List ConstDefinition}
    (known : order ⊆ definitions) : Reaches definitions start (stage.foldPass order) := by
  rw [Site.foldPass]
  induction order generalizing stage with
  | nil => exact reached
  | cons definition rest inductionHypothesis =>
    rw [List.foldl_cons]
    rw [List.cons_subset] at known
    exact inductionHypothesis (reached.foldDefinition known.1) known.2

theorem foldPasses (reached : Reaches definitions start stage) {order : List ConstDefinition}
    (known : order ⊆ definitions) (passes : Nat) :
    Reaches definitions start (Site.foldPasses order passes stage) := by
  induction passes generalizing stage with
  | zero => exact reached
  | succ passes inductionHypothesis =>
    rw [Site.foldPasses]
    split
    · exact reached.foldPass known
    · exact inductionHypothesis (reached.foldPass known)

theorem foldAll {order : List ConstDefinition} (known : order ⊆ definitions) :
    Reaches definitions start (start.foldAll order) :=
  Reaches.start.foldPasses known _

end Reaches

theorem reaches_foldAll (start : Site) (definitions : List ConstDefinition) :
    Reaches definitions start (start.foldAll definitions) :=
  Reaches.foldAll (List.Subset.refl definitions)

/-! ### Folding keeps values -/

theorem foldPass_append (stage : Site) (path rest : List ConstDefinition) :
    stage.foldPass (path ++ rest) = (stage.foldPass path).foldPass rest :=
  List.foldl_append

theorem keptBy_foldDefinition (stage : Site) (definition : ConstDefinition) :
    stage.KeptBy (stage.foldDefinition definition) := by
  by_cases foldable : stage.Foldable definition
  · rw [foldDefinition_of_foldable foldable]
    exact keptBy_record foldable
  · rw [foldDefinition_of_not_foldable foldable]
    exact KeptBy.refl stage

theorem keptBy_foldPass (stage : Site) (order : List ConstDefinition) :
    stage.KeptBy (stage.foldPass order) := by
  rw [foldPass]
  induction order generalizing stage with
  | nil => exact KeptBy.refl stage
  | cons definition rest inductionHypothesis =>
    exact (keptBy_foldDefinition stage definition).trans (inductionHypothesis _)

theorem keptBy_foldPasses (stage : Site) (order : List ConstDefinition) (passes : Nat) :
    stage.KeptBy (foldPasses order passes stage) := by
  induction passes generalizing stage with
  | zero => exact KeptBy.refl stage
  | succ passes inductionHypothesis =>
    rw [foldPasses]
    split
    · exact keptBy_foldPass stage order
    · exact (keptBy_foldPass stage order).trans (inductionHypothesis _)

/-! ### Folding ends where nothing can be folded -/

theorem size_le_size_foldDefinition (stage : Site) (definition : ConstDefinition) :
    stage.constants.size ≤ (stage.foldDefinition definition).constants.size := by
  by_cases foldable : stage.Foldable definition
  · rw [foldDefinition_of_foldable foldable, size_record foldable]
    exact Nat.le_succ _
  · exact Nat.le_of_eq (by rw [foldDefinition_of_not_foldable foldable])

theorem size_le_size_foldPass (stage : Site) (order : List ConstDefinition) :
    stage.constants.size ≤ (stage.foldPass order).constants.size := by
  rw [foldPass]
  induction order generalizing stage with
  | nil => exact Nat.le_refl _
  | cons definition rest inductionHypothesis =>
    exact Nat.le_trans (size_le_size_foldDefinition stage definition) (inductionHypothesis _)

/-- A pass that adds no value leaves the stage as it is, and nothing could be folded there. -/
theorem foldPass_of_size_eq {stage : Site} {order : List ConstDefinition}
    (same : (stage.foldPass order).constants.size = stage.constants.size) :
    stage.foldPass order = stage ∧ ∀ definition ∈ order, ¬ stage.Foldable definition := by
  induction order with
  | nil => exact ⟨rfl, fun definition member => absurd member List.not_mem_nil⟩
  | cons definition rest inductionHypothesis =>
    have settled : ¬ stage.Foldable definition := by
      intro foldable
      have grown : stage.constants.size + 1 ≤
          (stage.foldPass (definition :: rest)).constants.size := by
        rw [← size_record foldable, ← foldDefinition_of_foldable foldable]
        exact size_le_size_foldPass _ rest
      omega
    have skipped : stage.foldPass (definition :: rest) = stage.foldPass rest := by
      rw [foldPass, List.foldl_cons, foldDefinition_of_not_foldable settled, foldPass]
    rw [skipped] at same ⊢
    obtain ⟨unchanged, others⟩ := inductionHypothesis same
    exact ⟨unchanged, List.forall_mem_cons.mpr ⟨settled, others⟩⟩

/-- Passing over definitions until a pass adds no value, however many passes that takes. -/
inductive RunsPasses (definitions : List ConstDefinition) : Nat → Site → Site → Prop where
  | last {stage : Site}
      (same : (stage.foldPass definitions).constants.size = stage.constants.size) :
      RunsPasses definitions 1 stage (stage.foldPass definitions)
  | next {stage final : Site} {passes : Nat}
      (grown : (stage.foldPass definitions).constants.size ≠ stage.constants.size)
      (rest : RunsPasses definitions passes (stage.foldPass definitions) final) :
      RunsPasses definitions (passes + 1) stage final

/-- The last pass finds nothing that could be folded. -/
theorem RunsPasses.not_foldable {final : Site} {passes : Nat}
    (runs : RunsPasses definitions passes stage final) :
    ∀ definition ∈ definitions, ¬ final.Foldable definition := by
  induction runs with
  | last same =>
    obtain ⟨unchanged, settled⟩ := foldPass_of_size_eq same
    rw [unchanged]
    exact settled
  | next _ _ inductionHypothesis => exact inductionHypothesis

/-- The passes end before there are more of them than names still without a value. -/
theorem exists_runsPasses {bound passes : Nat}
    (bounded : ∀ later, Reaches definitions start later → later.constants.size ≤ bound)
    (reached : Reaches definitions start stage) (enough : bound < stage.constants.size + passes) :
    ∃ needed ≤ passes, RunsPasses definitions needed stage
      (foldPasses definitions passes stage) := by
  induction passes generalizing stage with
  | zero => exact absurd (bounded stage reached) (Nat.not_le.mpr enough)
  | succ passes inductionHypothesis =>
    rw [foldPasses]
    split
    case isTrue same => exact ⟨1, Nat.le_add_left 1 passes, .last same⟩
    case isFalse grown =>
      have larger := size_le_size_foldPass stage definitions
      obtain ⟨needed, within, runs⟩ :=
        inductionHypothesis (reached.foldPass (List.Subset.refl definitions)) (by omega)
      exact ⟨needed + 1, Nat.succ_le_succ within, .next grown runs⟩

theorem exists_runsPasses_foldAll (fresh : start.constants = .empty)
    (definitions : List ConstDefinition) :
    ∃ passes ≤ definitions.length + 1,
      RunsPasses definitions passes start (start.foldAll definitions) :=
  exists_runsPasses (fun _ reached => reached.size_le fresh) Reaches.start
    (Nat.lt_add_left _ (Nat.lt_succ_self _))

/-- Once all definitions are folded, none of them can be folded any more: every definition
that has a value has one that is kept. -/
theorem not_foldable_foldAll (order : List ConstDefinition) (fresh : start.constants = .empty) :
    ∀ definition ∈ order, ¬ (start.foldAll order).Foldable definition := by
  obtain ⟨passes, -, runs⟩ := exists_runsPasses_foldAll fresh order
  exact runs.not_foldable

/-! ### Every stage is on the way of some order -/

namespace Reaches

/-- A stage is what one pass over some of the definitions comes to. -/
theorem exists_path (reached : Reaches definitions start stage) :
    ∃ path : List ConstDefinition, path.Nodup ∧ path ⊆ definitions ∧
      start.foldPass path = stage ∧
        ∀ definition ∈ path, stage.constants.contains definition.fqn = true := by
  induction reached with
  | start => exact ⟨[], List.nodup_nil, List.nil_subset _, rfl, by simp⟩
  | @record stage definition _ member foldable inductionHypothesis =>
    obtain ⟨path, distinct, known, walked, kept⟩ := inductionHypothesis
    have new : definition ∉ path := by
      intro old
      have fresh := foldable.1
      rw [kept definition old] at fresh
      cases fresh
    refine ⟨path ++ [definition], ?_, ?_, ?_, ?_⟩
    · exact List.nodup_append.mpr ⟨distinct, List.nodup_singleton _, fun other old last same =>
        fun equal => new (List.mem_singleton.mp same ▸ equal ▸ old)⟩
    · exact List.append_subset.mpr ⟨known, List.cons_subset.mpr ⟨member, List.nil_subset _⟩⟩
    · rw [foldPass_append, walked]
      exact foldDefinition_of_foldable foldable
    · intro other found
      rw [Table.contains_iff]
      rcases List.mem_append.mp found with old | last
      · obtain ⟨value, present⟩ := (Table.contains_iff _ _).mp (kept other old)
        exact ⟨value, keptBy_record foldable _ _ present⟩
      · rw [List.mem_singleton.mp last]
        exact ⟨_, by rw [get?_record, if_pos rfl]⟩

/-- The value that a definition has at a stage is the one that it gets in the end when the
definitions are folded in some order. -/
theorem exists_order (reached : Reaches definitions start stage) {definition : ConstDefinition}
    (member : definition ∈ definitions) (foldable : stage.Foldable definition) :
    ∃ order : List ConstDefinition, order.Perm definitions ∧
      (start.foldAll order).constants.get? definition.fqn = some (stage.valueOf definition) := by
  obtain ⟨path, distinct, known, walked, -⟩ := (reached.record member foldable).exists_path
  obtain ⟨sorted, same, sublist⟩ := List.subperm_of_subset distinct known
  obtain ⟨rest, split⟩ := sublist.exists_perm_append
  have perm : (path ++ rest).Perm definitions := ((same.append_right rest).symm.trans split.symm)
  refine ⟨path ++ rest, perm, ?_⟩
  have kept : (start.foldPass (path ++ rest)).constants.get? definition.fqn =
      some (stage.valueOf definition) := by
    rw [foldPass_append, walked]
    exact keptBy_foldPass _ rest _ _ (by rw [get?_record, if_pos rfl])
  rw [Site.foldAll, Site.foldPasses]
  split
  · exact kept
  · exact keptBy_foldPasses _ _ _ _ _ kept

end Reaches

end SourceCapture.Site
