/-
The files in the folder of the fragments after a sequence of requests. Each of them holds what
was rendered for the first request with its hash, and a fragment is said to be written if it is
the first one with its hash and its file did not have these bytes already. Whether it had is asked
of the files as they were before the first request.
-/

import SourceCapture.Proofs.Fragments.SharedFiles

namespace SourceCapture

namespace Emitter

variable {emitter current : Emitter} {store now left : FileStore}
  {requests : List FragmentRequest} {fragments : List Fragment} {request : FragmentRequest}
  {fragment : Fragment} {state : Emitter × FileStore}

/-! ### Which fragments are written -/

/-- Whether it is rightly said of the fragment of a request that it was written or not: it was
written if no request before has its hash, and its file had other bytes before all requests. -/
def RightlyWritten (store : FileStore) (before : List FragmentRequest)
    (request : FragmentRequest) (fragment : Fragment) (now : FileStore) : Prop :=
  ∃ place, now.place? fragment.path = some place ∧
    (fragment.written = true ↔
      (∀ other ∈ before, fragmentHash other.text ≠ fragmentHash request.text) ∧
        store.bytesAt? place ≠ some request.render.toUTF8)

theorem RightlyWritten.mono {before : List FragmentRequest}
    (rightly : RightlyWritten store before request fragment now) (grows : now.GrowsTo left) :
    RightlyWritten store before request fragment left := by
  obtain ⟨place, here, written⟩ := rightly
  exact ⟨place, grows.place? here, written⟩

namespace Emitted

/-- A fragment that is returned again is not written: the request before with its hash had it. -/
theorem rightlyWritten_recalled {first : Fragment}
    (emitted : Emitted emitter store requests fragments (current, now))
    (known : current.emitted.get? (fragmentHash request.text) = some first) :
    RightlyWritten store requests request { first with written := false } now := by
  have older : ∃ other ∈ requests, fragmentHash other.text = fragmentHash request.text :=
    (emitted.known _).mp fun unknown => nomatch unknown.symm.trans known
  obtain ⟨other, member, same⟩ := older
  obtain ⟨place, _, here, -⟩ := emitted.held other member
  obtain ⟨table, settings⟩ := emitted.settings
  have unit := emitted.own _ first known
  rw [settings] at unit
  refine ⟨place, ?_, iff_of_false Bool.false_ne_true fun fresh => fresh.1 other member same⟩
  rw [pathOf_congr same] at here
  rw [unit]
  exact here

/-- A fragment whose hash is new is written if its file had other bytes before the requests, since
no request has led to that file yet. -/
theorem rightlyWritten_gained {place : Place} {written : Bool}
    (emitted : Emitted emitter store requests fragments (current, now))
    (noSlash : '/' ∉ emitter.fragmentExtension.toList)
    (fresh : current.emitted.get? (fragmentHash request.text) = none)
    (here : left.place? (emitter.pathOf request.text) = some place)
    (gains : now.Gains place request.render.toUTF8 written left) :
    RightlyWritten store requests request (emitter.unitOf request.text written) left := by
  refine ⟨place, here, ?_⟩
  rw [← emitted.untouched noSlash fresh gains.grows here]
  exact gains.written_iff.trans (iff_and_self.mpr fun _ => emitted.unseen fresh)

theorem rightlyWritten {after : Emitter}
    (emitted : Emitted emitter store requests fragments (current, now))
    (noSlash : '/' ∉ emitter.fragmentExtension.toList)
    (answers : current.Answers now request fragment after left) :
    RightlyWritten store requests request fragment left := by
  obtain ⟨table, settings⟩ := emitted.settings
  cases answers with
  | recalled known => exact emitted.rightlyWritten_recalled known
  | gained fresh here gains =>
    dsimp only at settings
    have path : current.pathOf request.text = emitter.pathOf request.text := by
      rw [settings]
      rfl
    rw [path] at here
    have rightly := emitted.rightlyWritten_gained noSlash fresh here gains
    rw [settings]
    exact rightly

end Emitted

/-- It is rightly said of every fragment of a sequence of requests that it was written or not. -/
theorem rightlyWritten_of_mapM (rooted : store.Rooted)
    (noSlash : '/' ∉ emitter.fragmentExtension.toList)
    (ran : (requests.mapM emit).run (emitter.forRun, store) = (.ok fragments, state))
    {index : Nat} (asked : requests[index]? = some request)
    (answered : fragments[index]? = some fragment) :
    RightlyWritten store (requests.take index) request fragment state.2 := by
  let Holds (done : List FragmentRequest) (taken : List Fragment) (state : Emitter × FileStore) :=
    Emitted emitter store done taken state ∧
      ∀ index request fragment, done[index]? = some request → taken[index]? = some fragment →
        RightlyWritten store (done.take index) request fragment state.2
  have preserved : ∀ done taken before request fragment after, Holds done taken before →
      (emit request).run before = (.ok fragment, after) →
        Holds (done ++ [request]) (taken ++ [fragment]) after := by
    rintro done taken before request fragment after ⟨emitted, rightly⟩ ran
    have answers := answers_of_emit (emitted.grows.rooted rooted) ran
    have further := emitted.step answers
    have lengths := emitted.answered.length_eq
    refine ⟨further, fun index other unit asked answered => ?_⟩
    rcases Nat.lt_trichotomy index done.length with earlier | rfl | later
    · rw [List.getElem?_append_left earlier] at asked
      rw [List.getElem?_append_left (lengths ▸ earlier)] at answered
      rw [List.take_append_of_le_length earlier.le]
      exact (rightly index other unit asked answered).mono answers.grows
    · rw [List.getElem?_concat_length] at asked
      rw [lengths, List.getElem?_concat_length] at answered
      cases asked
      cases answered
      rw [List.take_left]
      exact emitted.rightlyWritten noSlash answers
    · rw [List.getElem?_eq_none (by simp; omega)] at asked
      cases asked
  have start : Holds [] [] (emitter.forRun, store) :=
    ⟨emitted_nil emitter store, fun index request fragment asked => by simp at asked⟩
  exact (Work.holds_of_run_mapM preserved start ran).2 index request fragment asked answered

/-! ### The folder of the fragments -/

/-- The request that is shown in the file of a text after a sequence of requests: the first one
that has the hash of the text. -/
def shownFor? (requests : List FragmentRequest) (text : String) : Option FragmentRequest :=
  requests.find? fun other => fragmentHash other.text = fragmentHash text

/-- What is left by requests that an emitter without memory has answered. -/
structure Leaves (emitter : Emitter) (store : FileStore) (requests : List FragmentRequest)
    (fragments : List Fragment) (after : FileStore) : Prop where
  /-- The file of every hash holds what was rendered for the first request with it. -/
  shown : ∀ request ∈ requests, ∃ shown, shownFor? requests request.text = some shown ∧
    after.readBytes (emitter.outDir.join
      (fragmentHash request.text ++ "." ++ emitter.fragmentExtension)) = .ok shown.render.toUTF8
  /-- No other file has changed. -/
  untouched : ∀ place, (∀ request ∈ requests, after.place? (emitter.outDir.join
      (fragmentHash request.text ++ "." ++ emitter.fragmentExtension)) ≠ some place) →
    after.bytesAt? place = store.bytesAt? place
  answered : fragments.length = requests.length
  /-- The fragment of a request is named after its own text. It is said to be written if no
  request before has its hash and its file, as it was before all of them, held something else. -/
  named : ∀ index request, requests[index]? = some request → ∃ fragment place,
    fragments[index]? = some fragment ∧
    fragment.hash = fragmentHash request.text ∧
    fragment.path = emitter.outDir.join
      (fragmentHash request.text ++ "." ++ emitter.fragmentExtension) ∧
    fragment.artifact = fragmentHash request.text ++ "." ++ emitter.artifactExtension ∧
    after.place? fragment.path = some place ∧
    (fragment.written = true ↔
      (∀ other ∈ requests.take index, fragmentHash other.text ≠ fragmentHash request.text) ∧
        store.bytesAt? place ≠ some request.render.toUTF8)

/-- A sequence of requests that all succeed leaves the first rendering for every hash in the
output folder and nothing else, and its fragments say which files it had to write for that. -/
theorem leaves_of_requests (rooted : store.Rooted)
    (noSlash : '/' ∉ emitter.fragmentExtension.toList)
    (ran : (requests.mapM emit).run (emitter.forRun, store) = (.ok fragments, state)) :
    emitter.Leaves store requests fragments state.2 := by
  have emitted := emitted_of_mapM rooted ran
  have lengths := emitted.answered.length_eq
  refine ⟨fun request member => ?_, fun place elsewhere => ?_, lengths.symm,
    fun index request asked => ?_⟩
  · obtain ⟨place, shown, here, first, there, holds⟩ := emitted.held request member
    refine ⟨shown, ?_, (FileStore.readBytes_eq_ok_iff _ _).mpr ⟨place, here, holds⟩⟩
    rw [shownFor?, fragmentHash_eq_of_place? noSlash here there]
    exact first
  · by_contra differs
    obtain ⟨fragment, member, -, here⟩ := emitted.changed place differs
    obtain ⟨request, asked, unit⟩ := exists_of_forall₂ emitted.answered member
    rw [unit] at here
    exact elsewhere request asked here
  · obtain ⟨inside, rfl⟩ := List.getElem?_eq_some_iff.mp asked
    have answers : index < fragments.length := lengths ▸ inside
    have answered := List.getElem?_eq_getElem answers
    have unit := emitted.answered.get inside answers
    obtain ⟨place, here, written⟩ := rightlyWritten_of_mapM rooted noSlash ran asked answered
    rw [List.get_eq_getElem, List.get_eq_getElem] at unit
    generalize fragments[index] = fragment at answered unit here written
    refine ⟨fragment, place, answered, ?_, ?_, ?_, here, written⟩
    · rw [unit]
      rfl
    · rw [unit]
      rfl
    · rw [unit]
      rfl

/-- Three requests on an empty store, of which two have one text. -/
theorem leaves_of_sampleRequests : FileStore.Rooted {} ∧
    '/' ∉ sampleEmitter.fragmentExtension.toList ∧ ∃ fragments state,
      (sampleRequests.mapM emit).run (sampleEmitter.forRun, {}) = (.ok fragments, state) ∧
        sampleEmitter.Leaves {} sampleRequests fragments state.2 := by
  obtain ⟨fragments, state, ran⟩ := sampleRequests_succeed
  have noSlash : '/' ∉ sampleEmitter.fragmentExtension.toList := by decide
  exact ⟨rooted_empty, noSlash, fragments, state, ran,
    leaves_of_requests rooted_empty noSlash ran⟩

end Emitter

end SourceCapture
