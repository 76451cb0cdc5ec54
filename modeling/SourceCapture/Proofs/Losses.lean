/-
Lists that have lost some of their items while the others were kept in order, each in some form.
Where lost items yield nothing, reading the items off both lists yields the same just when every
kept item yields the same in either form, provided that no item yields more in its new form.
-/

import Mathlib.Data.List.Basic

namespace SourceCapture

/-- Whether one list becomes another one when some items that may be lost are left out and the
others are kept in a form that they may have. -/
inductive Loses {Item Other : Type} (lost : Item → Prop) (kept : Item → Other → Prop) :
    List Item → List Other → Prop where
  | nil : Loses lost kept [] []
  | keep {item : Item} {other : Other} {items : List Item} {others : List Other} :
      kept item other → Loses lost kept items others →
      Loses lost kept (item :: items) (other :: others)
  | lose {item : Item} {items : List Item} {others : List Other} :
      lost item → Loses lost kept items others → Loses lost kept (item :: items) others

namespace Loses

variable {Item Other Result : Type} {lost : Item → Prop} {kept : Item → Other → Prop}
  {items : List Item} {others : List Other}

theorem imp {keptSo : Item → Other → Prop} (loses : Loses lost kept items others)
    (implies : ∀ item ∈ items, ∀ other, kept item other → keptSo item other) :
    Loses lost keptSo items others := by
  induction loses with
  | nil => exact .nil
  | keep held _ inductionHypothesis =>
    rw [List.forall_mem_cons] at implies
    exact .keep (implies.1 _ held) (inductionHypothesis implies.2)
  | lose gone _ inductionHypothesis =>
    rw [List.forall_mem_cons] at implies
    exact .lose gone (inductionHypothesis implies.2)

theorem eq_nil (loses : Loses lost kept [] others) : others = [] := by
  cases loses
  rfl

theorem map {Part OtherPart : Type} {lostPart : Part → Prop} {keptPart : Part → OtherPart → Prop}
    {form : Item → Part} {otherForm : Other → OtherPart}
    (keeps : ∀ item other, kept item other → keptPart (form item) (otherForm other))
    (loses : ∀ item, lost item → lostPart (form item)) (aligned : Loses lost kept items others) :
    Loses lostPart keptPart (items.map form) (others.map otherForm) := by
  induction aligned with
  | nil => exact .nil
  | keep held _ inductionHypothesis => exact .keep (keeps _ _ held) inductionHypothesis
  | lose gone _ inductionHypothesis => exact .lose (loses _ gone) inductionHypothesis

/-- The kept items may move to other positions. -/
theorem zipIdx (aligned : Loses lost kept items others) (start otherStart : Nat) :
    Loses (fun entry => lost entry.1) (fun entry other => kept entry.1 other.1)
      (items.zipIdx start) (others.zipIdx otherStart) := by
  induction aligned generalizing start otherStart with
  | nil => exact .nil
  | keep held _ inductionHypothesis => exact .keep held (inductionHypothesis _ _)
  | lose gone _ inductionHypothesis => exact .lose gone (inductionHypothesis _ _)

theorem append {moreItems : List Item} {moreOthers : List Other}
    (first : Loses lost kept items others) (rest : Loses lost kept moreItems moreOthers) :
    Loses lost kept (items ++ moreItems) (others ++ moreOthers) := by
  induction first with
  | nil => exact rest
  | keep held _ inductionHypothesis => exact .keep held inductionHypothesis
  | lose gone _ inductionHypothesis => exact .lose gone inductionHypothesis

theorem filter {test : Item → Bool} {testOther : Other → Bool}
    (same : ∀ item other, kept item other → testOther other = test item)
    (loses : Loses lost kept items others) :
    Loses lost kept (items.filter test) (others.filter testOther) := by
  induction loses with
  | nil => exact .nil
  | @keep item other _ _ held _ inductionHypothesis =>
    rw [List.filter_cons, List.filter_cons, same item other held]
    split
    · exact .keep held inductionHypothesis
    · exact inductionHypothesis
  | lose gone _ inductionHypothesis =>
    rw [List.filter_cons]
    split
    · exact .lose gone inductionHypothesis
    · exact inductionHypothesis

theorem flatMap {Part OtherPart : Type} {lostPart : Part → Prop}
    {keptPart : Part → OtherPart → Prop}
    {parts : Item → List Part} {otherParts : Other → List OtherPart}
    (keeps : ∀ item other, kept item other →
      Loses lostPart keptPart (parts item) (otherParts other))
    (empty : ∀ item, lost item → parts item = []) (loses : Loses lost kept items others) :
    Loses lostPart keptPart (items.flatMap parts) (others.flatMap otherParts) := by
  induction loses with
  | nil => exact .nil
  | keep held _ inductionHypothesis =>
    rw [List.flatMap_cons, List.flatMap_cons]
    exact (keeps _ _ held).append inductionHypothesis
  | lose gone _ inductionHypothesis =>
    rw [List.flatMap_cons, empty _ gone]
    exact inductionHypothesis

theorem filterMap {Part OtherPart : Type} {lostPart : Part → Prop} {form : Part → OtherPart}
    {part? : Item → Option Part} {otherPart? : Other → Option OtherPart}
    (keeps : ∀ item other, kept item other → otherPart? other = (part? item).map form)
    (loses : ∀ item, lost item → ∀ part, part? item = some part → lostPart part)
    (aligned : Loses lost kept items others) :
    Loses lostPart (fun part other => other = form part) (items.filterMap part?)
      (others.filterMap otherPart?) := by
  induction aligned with
  | nil => exact .nil
  | @keep item other _ _ held _ inductionHypothesis =>
    have same := keeps item other held
    cases found : part? item with
    | none =>
      rw [found] at same
      rw [List.filterMap_cons_none found, List.filterMap_cons_none same]
      exact inductionHypothesis
    | some part =>
      rw [found] at same
      rw [List.filterMap_cons_some found, List.filterMap_cons_some same]
      exact .keep rfl inductionHypothesis
  | @lose item _ _ gone _ inductionHypothesis =>
    cases found : part? item with
    | none =>
      rw [List.filterMap_cons_none found]
      exact inductionHypothesis
    | some part =>
      rw [List.filterMap_cons_some found]
      exact .lose (loses item gone part found) inductionHypothesis

/-- What holds of every item that is lost holds of all items if it holds of the kept ones. -/
theorem and_iff {holds : Item → Prop} (gone : ∀ item, lost item → holds item) :
    Loses lost (fun item other => kept item other ∧ holds item) items others ↔
      Loses lost kept items others ∧ ∀ item ∈ items, holds item := by
  constructor
  · intro both
    refine ⟨both.imp fun _ _ _ held => held.1, ?_⟩
    induction both with
    | nil => exact List.forall_mem_nil _
    | keep held _ inductionHypothesis =>
      exact List.forall_mem_cons.mpr ⟨held.2, inductionHypothesis⟩
    | lose lostItem _ inductionHypothesis =>
      exact List.forall_mem_cons.mpr ⟨gone _ lostItem, inductionHypothesis⟩
  · rintro ⟨loses, all⟩
    exact loses.imp fun item member _ held => ⟨held, all item member⟩

/-- A list that loses nothing has all its items in their new form. -/
theorem eq_map_iff {form : Item → Other} :
    Loses (fun _ => False) (fun item other => other = form item) items others ↔
      others = items.map form := by
  constructor
  · intro loses
    induction loses with
    | nil => rfl
    | keep held _ inductionHypothesis => rw [held, inductionHypothesis, List.map_cons]
    | lose gone => exact gone.elim
  · rintro rfl
    induction items with
    | nil => exact .nil
    | cons item rest inductionHypothesis => exact .keep rfl inductionHypothesis

/-- Where no item can be lost, all are there in their new form. -/
theorem eq_map_of_forall_not_lost {form : Item → Other}
    (loses : Loses lost (fun item other => other = form item) items others)
    (none : ∀ item ∈ items, ¬ lost item) : others = items.map form := by
  induction loses with
  | nil => rfl
  | keep held _ inductionHypothesis =>
    rw [held, inductionHypothesis (List.forall_mem_cons.mp none).2, List.map_cons]
  | lose gone => exact absurd gone (List.forall_mem_cons.mp none).1

/-! ### What is read off the items -/

section

variable {read : Item → Option Result} {readOther : Other → Option Result}
  (silent : ∀ item, lost item → read item = none)
  (fewer : ∀ item other, kept item other → (readOther other).isSome = true →
    (read item).isSome = true)

include silent fewer

theorem length_filterMap_le (loses : Loses lost kept items others) :
    (others.filterMap readOther).length ≤ (items.filterMap read).length := by
  induction loses with
  | nil => exact Nat.le_refl 0
  | @keep item other items _ held _ inductionHypothesis =>
    cases found : readOther other with
    | none =>
      rw [List.filterMap_cons_none found]
      have longer := ((List.sublist_cons_self item items).filterMap read).length_le
      exact Nat.le_trans inductionHypothesis longer
    | some result =>
      obtain ⟨_, here⟩ := Option.isSome_iff_exists.mp (fewer item other held (by rw [found]; rfl))
      rw [List.filterMap_cons_some found, List.filterMap_cons_some here, List.length_cons,
        List.length_cons]
      exact Nat.succ_le_succ inductionHypothesis
  | @lose item _ _ gone _ inductionHypothesis =>
    rw [List.filterMap_cons_none (silent item gone)]
    exact inductionHypothesis

/-- If the same is read off both lists, every kept item reads the same in both. -/
theorem alike_of_filterMap_eq (loses : Loses lost kept items others)
    (same : items.filterMap read = others.filterMap readOther) :
    Loses lost (fun item other => kept item other ∧ read item = readOther other) items others := by
  induction loses with
  | nil => exact .nil
  | @keep item other items others held rest inductionHypothesis =>
    have shorter := length_filterMap_le silent fewer rest
    cases found : read item with
    | none =>
      have nothing : readOther other = none := by
        by_contra some
        have here := fewer item other held (Option.isSome_iff_ne_none.mpr some)
        rw [found] at here
        cases here
      rw [List.filterMap_cons_none found, List.filterMap_cons_none nothing] at same
      exact .keep ⟨held, found.trans nothing.symm⟩ (inductionHypothesis same)
    | some result =>
      rw [List.filterMap_cons_some found] at same
      cases there : readOther other with
      | none =>
        -- One result of the first list would have none to stand for it.
        rw [List.filterMap_cons_none there] at same
        have lengths := congrArg List.length same
        rw [List.length_cons] at lengths
        omega
      | some otherResult =>
        rw [List.filterMap_cons_some there] at same
        obtain ⟨rfl, tails⟩ := List.cons.inj same
        exact .keep ⟨held, found.trans there.symm⟩ (inductionHypothesis tails)
  | @lose item _ _ gone _ inductionHypothesis =>
    rw [List.filterMap_cons_none (silent item gone)] at same
    exact .lose gone (inductionHypothesis same)

/-- The same is read off both lists just when every kept item reads the same in both. -/
theorem filterMap_eq_iff (loses : Loses lost kept items others) :
    items.filterMap read = others.filterMap readOther ↔
      Loses lost (fun item other => kept item other ∧ read item = readOther other)
        items others := by
  refine ⟨loses.alike_of_filterMap_eq silent fewer, fun alike => ?_⟩
  clear loses
  induction alike with
  | nil => rfl
  | keep held _ inductionHypothesis =>
    rw [List.filterMap_cons, List.filterMap_cons, held.2, inductionHypothesis]
  | @lose item _ _ gone _ inductionHypothesis =>
    rw [List.filterMap_cons_none (silent item gone)]
    exact inductionHypothesis

/-- Where it depends on the kept item alone whether it reads the same, the same is read off both
lists just when every item reads the same. -/
theorem filterMap_eq_iff_forall {same : Item → Prop} (gone : ∀ item, lost item → same item)
    (reads : ∀ item other, kept item other → (read item = readOther other ↔ same item))
    (loses : Loses lost kept items others) :
    items.filterMap read = others.filterMap readOther ↔ ∀ item ∈ items, same item := by
  rw [filterMap_eq_iff silent fewer loses]
  constructor
  · intro alike
    have holds := alike.imp fun item _ other held =>
      (⟨held.1, (reads item other held.1).mp held.2⟩ : kept item other ∧ same item)
    exact ((and_iff gone).mp holds).2
  · intro all
    exact loses.imp fun item member other held =>
      ⟨held, (reads item other held).mpr (all item member)⟩

end

end Loses

end SourceCapture
