/-
What a sequence of requests leaves behind. Every file of a text holds the rendering of a request
that was the first one with its hash, and other bytes than before are only in the files of
fragments that are said to be written. The invariant is carried from one request to the next.
-/

import Mathlib.Data.List.Forall2
import SourceCapture.Proofs.Fragments.Answers

namespace SourceCapture

/-- Whether a request is the first one in a sequence with the hash of its text. -/
def IsFirst (requests : List FragmentRequest) (request : FragmentRequest) : Prop :=
  requests.find? (fun other => fragmentHash other.text = fragmentHash request.text) = some request

namespace IsFirst

variable {requests : List FragmentRequest} {request : FragmentRequest}

theorem append (first : IsFirst requests request) (more : List FragmentRequest) :
    IsFirst (requests ++ more) request := by
  rw [IsFirst, List.find?_append, first]
  rfl

theorem concat (fresh : ∀ other ∈ requests, fragmentHash other.text ≠ fragmentHash request.text) :
    IsFirst (requests ++ [request]) request := by
  have before : requests.find?
      (fun other => fragmentHash other.text = fragmentHash request.text) = none := by
    rw [List.find?_eq_none]
    exact fun other member same => fresh other member (of_decide_eq_true same)
  rw [IsFirst, List.find?_append, before, List.find?_singleton, if_pos (decide_eq_true rfl)]
  rfl

end IsFirst

theorem exists_of_forall₂ {Left Right : Type} {Related : Left → Right → Prop} {lefts : List Left}
    {rights : List Right} (related : List.Forall₂ Related lefts rights) {right : Right}
    (member : right ∈ rights) : ∃ left ∈ lefts, Related left right := by
  induction related with
  | nil => cases member
  | cons first rest inductionHypothesis =>
    rcases List.mem_cons.mp member with rfl | later
    · exact ⟨_, List.mem_cons_self, first⟩
    · obtain ⟨left, inside, relates⟩ := inductionHypothesis later
      exact ⟨left, List.mem_cons_of_mem _ inside, relates⟩

namespace Emitter

/-- What an emitter without memory has done once it has answered some requests. -/
structure Emitted (emitter : Emitter) (store : FileStore) (requests : List FragmentRequest)
    (fragments : List Fragment) (state : Emitter × FileStore) : Prop where
  settings : ∃ emitted, state.1 = { emitter with emitted := emitted }
  grows : store.GrowsTo state.2
  answered : List.Forall₂
    (fun request fragment => fragment = emitter.unitOf request.text fragment.written)
    requests fragments
  known : ∀ hash, state.1.emitted.get? hash ≠ none ↔
    ∃ request ∈ requests, fragmentHash request.text = hash
  own : state.1.RemembersOwn
  held : ∀ request ∈ requests, ∃ place shown,
    state.2.place? (emitter.pathOf request.text) = some place ∧ IsFirst requests shown ∧
      state.2.place? (emitter.pathOf shown.text) = some place ∧
        state.2.bytesAt? place = some shown.render.toUTF8
  changed : ∀ place, state.2.bytesAt? place ≠ store.bytesAt? place → ∃ fragment ∈ fragments,
    fragment.written = true ∧ state.2.place? fragment.path = some place
  differs : '/' ∉ emitter.fragmentExtension.toList → ∀ fragment ∈ fragments,
    fragment.written = true → ∃ place, state.2.place? fragment.path = some place ∧
      state.2.bytesAt? place ≠ store.bytesAt? place

variable {emitter current : Emitter} {store now left : FileStore}
  {requests : List FragmentRequest} {fragments : List Fragment} {request : FragmentRequest}
  {fragment : Fragment}

theorem pathOf_congr {text other : String} (same : fragmentHash text = fragmentHash other) :
    emitter.pathOf text = emitter.pathOf other := by
  rw [pathOf, pathOf, same]

theorem emitted_nil (emitter : Emitter) (store : FileStore) :
    Emitted emitter store [] [] (emitter.forRun, store) where
  settings := ⟨.empty, rfl⟩
  grows := .refl store
  answered := .nil
  known hash := by
    refine iff_of_false (fun known => known rfl) ?_
    rintro ⟨request, member, -⟩
    cases member
  own := remembersOwn_forRun emitter
  held request member := nomatch member
  changed place differs := absurd rfl differs
  differs _ fragment member := nomatch member

namespace Emitted

/-- A request whose hash is known changes nothing. -/
theorem recalled {first : Fragment}
    (emitted : Emitted emitter store requests fragments (current, now))
    (known : current.emitted.get? (fragmentHash request.text) = some first) :
    Emitted emitter store (requests ++ [request]) (fragments ++ [{ first with written := false }])
      (current, now) where
  settings := emitted.settings
  grows := emitted.grows
  answered := by
    refine List.rel_append emitted.answered (.cons ?_ .nil)
    obtain ⟨table, same⟩ : ∃ table, current = { emitter with emitted := table } := emitted.settings
    rw [emitted.own _ first known, same]
    rfl
  known hash := by
    rw [emitted.known]
    constructor
    · rintro ⟨other, member, same⟩
      exact ⟨other, List.mem_append_left _ member, same⟩
    · rintro ⟨other, member, same⟩
      rcases List.mem_append.mp member with member | member
      · exact ⟨other, member, same⟩
      · rw [List.mem_singleton.mp member] at same
        rw [same] at known
        exact (emitted.known hash).mp fun unknown => nomatch unknown.symm.trans known
  own := emitted.own
  held other member := by
    have old : ∃ older ∈ requests, fragmentHash older.text = fragmentHash other.text := by
      rcases List.mem_append.mp member with member | member
      · exact ⟨other, member, rfl⟩
      · rw [List.mem_singleton.mp member]
        exact (emitted.known _).mp fun unknown => nomatch unknown.symm.trans known
    obtain ⟨older, inside, same⟩ := old
    obtain ⟨place, shown, here, isFirst, there, holds⟩ := emitted.held older inside
    rw [pathOf_congr same] at here
    exact ⟨place, shown, here, isFirst.append _, there, holds⟩
  changed place differs := by
    obtain ⟨fragment, member, written, here⟩ := emitted.changed place differs
    exact ⟨fragment, List.mem_append_left _ member, written, here⟩
  differs noSlash fragment member written := by
    rcases List.mem_append.mp member with member | member
    · exact emitted.differs noSlash fragment member written
    · rw [List.mem_singleton.mp member] at written
      cases written

theorem unseen (emitted : Emitted emitter store requests fragments (current, now))
    (fresh : current.emitted.get? (fragmentHash request.text) = none) :
    ∀ other ∈ requests, fragmentHash other.text ≠ fragmentHash request.text :=
  fun other member same => (emitted.known _).mpr ⟨other, member, same⟩ fresh

/-- The file of a text that is not known is not one of those that requests led to. -/
theorem apart {place : Place} (emitted : Emitted emitter store requests fragments (current, now))
    (noSlash : '/' ∉ emitter.fragmentExtension.toList)
    (fresh : current.emitted.get? (fragmentHash request.text) = none)
    (here : left.place? (emitter.pathOf request.text) = some place) :
    ∀ fragment ∈ fragments, ∀ other, left.place? fragment.path = some other → other ≠ place := by
  rintro fragment member other there rfl
  obtain ⟨older, inside, unit⟩ := exists_of_forall₂ emitted.answered member
  rw [unit] at there
  exact emitted.unseen fresh older inside (fragmentHash_eq_of_place? noSlash there here)

theorem untouched {place : Place}
    (emitted : Emitted emitter store requests fragments (current, now))
    (noSlash : '/' ∉ emitter.fragmentExtension.toList)
    (fresh : current.emitted.get? (fragmentHash request.text) = none) (grows : now.GrowsTo left)
    (here : left.place? (emitter.pathOf request.text) = some place) :
    now.bytesAt? place = store.bytesAt? place := by
  by_contra differs
  obtain ⟨fragment, member, -, there⟩ := emitted.changed place differs
  exact emitted.apart noSlash fresh here fragment member place (grows.place? there) rfl

section

variable {place : Place} {written : Bool}

/-- Every request has the file of a first one, also behind a request that fills another file. -/
theorem held_of_gains {other : FragmentRequest}
    (emitted : Emitted emitter store requests fragments (current, now))
    (fresh : current.emitted.get? (fragmentHash request.text) = none)
    (here : left.place? (emitter.pathOf request.text) = some place)
    (gains : now.Gains place request.render.toUTF8 written left)
    (member : other ∈ requests ++ [request]) :
    ∃ there shown, left.place? (emitter.pathOf other.text) = some there ∧
      IsFirst (requests ++ [request]) shown ∧
        left.place? (emitter.pathOf shown.text) = some there ∧
          left.bytesAt? there = some shown.render.toUTF8 := by
  have newest : IsFirst (requests ++ [request]) request := .concat (emitted.unseen fresh)
  rcases List.mem_append.mp member with member | member
  · obtain ⟨there, shown, its, isFirst, whose, bytes⟩ := emitted.held other member
    -- A slash in the extension can make the new file that of an older text as well.
    by_cases same : there = place
    · rw [same] at its
      exact ⟨place, request, gains.grows.place? its, newest, here, gains.bytesAt?_self⟩
    · exact ⟨there, shown, gains.grows.place? its, isFirst.append _, gains.grows.place? whose,
        (gains.bytesAt?_of_ne same).trans bytes⟩
  · rw [List.mem_singleton.mp member]
    exact ⟨place, request, here, newest, here, gains.bytesAt?_self⟩

theorem changed_of_gains {other : Place}
    (emitted : Emitted emitter store requests fragments (current, now))
    (here : left.place? (emitter.pathOf request.text) = some place)
    (gains : now.Gains place request.render.toUTF8 written left)
    (differs : left.bytesAt? other ≠ store.bytesAt? other) :
    ∃ fragment ∈ fragments ++ [emitter.unitOf request.text written],
      fragment.written = true ∧ left.place? fragment.path = some other := by
  by_cases filled : written = true ∧ other = place
  · obtain ⟨rfl, rfl⟩ := filled
    exact ⟨_, List.mem_concat_self, rfl, here⟩
  · have kept : left.bytesAt? other = now.bytesAt? other := by
      cases written with
      | false => exact gains.bytesAt?_of_not_written
      | true => exact gains.bytesAt?_of_ne fun same => filled ⟨rfl, same⟩
    rw [kept] at differs
    obtain ⟨fragment, member, wrote, there⟩ := emitted.changed other differs
    exact ⟨fragment, List.mem_append_left _ member, wrote, gains.grows.place? there⟩

theorem differs_of_gains (emitted : Emitted emitter store requests fragments (current, now))
    (noSlash : '/' ∉ emitter.fragmentExtension.toList)
    (fresh : current.emitted.get? (fragmentHash request.text) = none)
    (here : left.place? (emitter.pathOf request.text) = some place)
    (gains : now.Gains place request.render.toUTF8 written left)
    (member : fragment ∈ fragments ++ [emitter.unitOf request.text written])
    (wrote : fragment.written = true) :
    ∃ there, left.place? fragment.path = some there ∧
      left.bytesAt? there ≠ store.bytesAt? there := by
  rcases List.mem_append.mp member with member | member
  · obtain ⟨there, its, differs⟩ := emitted.differs noSlash fragment member wrote
    have itsNow := gains.grows.place? its
    refine ⟨there, itsNow, ?_⟩
    rw [gains.bytesAt?_of_ne (emitted.apart noSlash fresh here fragment member there itsNow)]
    exact differs
  · rw [List.mem_singleton.mp member] at wrote ⊢
    refine ⟨place, here, ?_⟩
    rw [gains.bytesAt?_self, ← emitted.untouched noSlash fresh gains.grows here]
    exact (gains.written_iff.mp wrote).symm

/-- A request whose hash is not known fills the file of its text. -/
theorem gained (emitted : Emitted emitter store requests fragments (current, now))
    (fresh : current.emitted.get? (fragmentHash request.text) = none)
    (here : left.place? (emitter.pathOf request.text) = some place)
    (gains : now.Gains place request.render.toUTF8 written left) :
    Emitted emitter store (requests ++ [request])
      (fragments ++ [emitter.unitOf request.text written])
      (current.remembering (emitter.unitOf request.text written), left) := by
  obtain ⟨table, rfl⟩ : ∃ table, current = { emitter with emitted := table } := emitted.settings
  constructor
  case settings => exact ⟨_, rfl⟩
  case grows => exact emitted.grows.trans gains.grows
  case answered => exact List.rel_append emitted.answered (.cons rfl .nil)
  case known =>
    intro hash
    show (table.insert (fragmentHash request.text) _).get? hash ≠ none ↔ _
    rw [Table.get?_insert]
    by_cases same : hash = fragmentHash request.text
    · rw [if_pos same, same]
      exact iff_of_true (Option.some_ne_none _) ⟨request, List.mem_concat_self, rfl⟩
    · rw [if_neg same, emitted.known]
      simp only [List.mem_append, List.mem_singleton, or_and_right, exists_or, exists_eq_left]
      exact (or_iff_left fun equal => same equal.symm).symm
  case own => exact emitted.own.remembering request.text written
  case held => exact fun other member => emitted.held_of_gains fresh here gains member
  case changed => exact fun other differs => emitted.changed_of_gains here gains differs
  case differs =>
    exact fun noSlash fragment member wrote =>
      emitted.differs_of_gains noSlash fresh here gains member wrote

end

/-- What a sequence of requests has done after one more. -/
theorem step {after : Emitter} (emitted : Emitted emitter store requests fragments (current, now))
    (answers : current.Answers now request fragment after left) :
    Emitted emitter store (requests ++ [request]) (fragments ++ [fragment]) (after, left) := by
  obtain ⟨table, settings⟩ := emitted.settings
  cases answers with
  | recalled known => exact emitted.recalled known
  | gained fresh here gains =>
    dsimp only at settings
    have unit (written) : current.unitOf request.text written = emitter.unitOf request.text written := by
      rw [settings]
      rfl
    have path : current.pathOf request.text = emitter.pathOf request.text := by
      rw [settings]
      rfl
    rw [path] at here
    rw [unit]
    exact emitted.gained fresh here gains

end Emitted

/-- What an emitter without memory has done after a sequence of requests that all succeed. -/
theorem emitted_of_mapM {state : Emitter × FileStore} (rooted : store.Rooted)
    (ran : (requests.mapM emit).run (emitter.forRun, store) = (.ok fragments, state)) :
    Emitted emitter store requests fragments state := by
  have preserved : ∀ done taken before request fragment after,
      Emitted emitter store done taken before →
      (emit request).run before = (.ok fragment, after) →
        Emitted emitter store (done ++ [request]) (taken ++ [fragment]) after := by
    intro done taken before request fragment after emitted answered
    exact emitted.step (answers_of_emit (emitted.grows.rooted rooted) answered)
  exact Work.holds_of_run_mapM preserved (emitted_nil emitter store) ran

end Emitter

end SourceCapture
