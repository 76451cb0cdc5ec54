/-
Items that are visited one after the other, each changing a state. Of the state only what it
gives for a key counts, and a visit only changes the keys that its item owns. When no key has
two owners, a key ends with what its owner made of it, at whatever point the owner was
visited. So the order of the visits does not matter just when no visit makes more of a key
than the item would make of it as the first one.
-/

import Mathlib.Data.List.Perm.Basic

namespace SourceCapture

variable {State Item Key Value : Type}

/-- Visits that change nothing but the keys that the visited item owns. -/
structure VisitsOwn (visit : State → Item → State) (read : State → Key → Value)
    (owns : Item → Key → Prop) : Prop where
  frame : ∀ state item key, ¬ owns item key → read (visit state item) key = read state key

namespace VisitsOwn

variable {visit : State → Item → State} {read : State → Key → Value}
  {owns : Item → Key → Prop}

/-- A key that no item owns keeps its value. -/
theorem read_foldl_of_not_owns (own : VisitsOwn visit read owns) {items : List Item} {key : Key}
    (foreign : ∀ item ∈ items, ¬ owns item key) (start : State) :
    read (items.foldl visit start) key = read start key := by
  induction items generalizing start with
  | nil => rfl
  | cons item rest inductionHypothesis =>
    rw [List.forall_mem_cons] at foreign
    rw [List.foldl_cons, inductionHypothesis foreign.2, own.frame start item key foreign.1]

/-- A key with one owner ends with what the visit of the owner made of it. -/
theorem read_foldl_of_owns (own : VisitsOwn visit read owns) (before : List Item)
    {after : List Item} {item : Item} {key : Key} (foreign : ∀ other ∈ after, ¬ owns other key)
    (start : State) :
    read ((before ++ item :: after).foldl visit start) key =
      read (visit (before.foldl visit start) item) key := by
  rw [List.foldl_append, List.foldl_cons, own.read_foldl_of_not_owns foreign]

/-- When no key has two owners, the order of the visits does not matter just when each item
makes of its keys what it would make of them as the first one. -/
theorem foldl_perm_iff (own : VisitsOwn visit read owns) {items : List Item}
    (disjoint : items.Pairwise fun first second => ∀ key, owns first key → ¬ owns second key)
    (start : State) :
    (∀ order : List Item, order.Perm items → ∀ key,
        read (order.foldl visit start) key = read (items.foldl visit start) key) ↔
      ∀ before item after, (before ++ item :: after).Perm items → ∀ key, owns item key →
        read (visit (before.foldl visit start) item) key = read (visit start item) key := by
  -- In any order, what follows on the owner of a key does not own it.
  have foreign : ∀ before item after, (before ++ item :: after).Perm items → ∀ key,
      owns item key → ∀ other ∈ after, ¬ owns other key := by
    intro before item after perm key owned other member
    have apart := (perm.pairwise_iff fun related key left right => related key right left).mpr
      disjoint
    rw [List.pairwise_append, List.pairwise_cons] at apart
    exact apart.2.1.1 other member key owned
  refine ⟨fun orderFree before item after perm key owned => ?_, fun alone order perm key => ?_⟩
  · have first : (item :: (before ++ after)).Perm items :=
      List.perm_middle.symm.trans perm
    rw [← own.read_foldl_of_owns before (foreign before item after perm key owned) start,
      orderFree _ perm, ← orderFree _ first]
    exact own.read_foldl_of_owns []
      (foreign [] item (before ++ after) first key owned) start
  · by_cases owned : ∃ item ∈ items, owns item key
    · obtain ⟨item, member, owner⟩ := owned
      have made : ∀ other : List Item, other.Perm items →
          read (other.foldl visit start) key = read (visit start item) key := by
        intro other otherPerm
        obtain ⟨before, after, rfl⟩ := List.append_of_mem (otherPerm.mem_iff.mpr member)
        rw [own.read_foldl_of_owns before (foreign before item after otherPerm key owner) start]
        exact alone before item after otherPerm key owner
      rw [made order perm, made items (List.Perm.refl _)]
    · have unowned : ∀ item ∈ items, ¬ owns item key :=
        fun item member owner => owned ⟨item, member, owner⟩
      rw [own.read_foldl_of_not_owns unowned,
        own.read_foldl_of_not_owns fun item member => unowned item (perm.mem_iff.mp member)]

end VisitsOwn

end SourceCapture
