/-
Which unit the file of a fragment holds. Requests with one text share a file, and it holds what
was rendered for the first of them: its imports, converters and types are not compared with
those of the later ones. So a later block gets its own unit, up to the location in the comment,
only where it agrees with the first block of its text.
-/

import Mathlib.Data.List.Find
import SourceCapture.Proofs.Fragments.Sequences

namespace SourceCapture

/-- Whether a request is the first one in a sequence with its text. -/
def IsFirstOfText (requests : List FragmentRequest) (request : FragmentRequest) : Prop :=
  requests.find? (·.text = request.text) = some request

/-- Whether texts of requests with one hash are one text. -/
def HashesTellApart (requests : List FragmentRequest) : Prop :=
  ∀ request ∈ requests, ∀ other ∈ requests,
    fragmentHash request.text = fragmentHash other.text → request.text = other.text

instance (requests : List FragmentRequest) : Decidable (HashesTellApart requests) :=
  inferInstanceAs (Decidable (∀ request ∈ requests, ∀ other ∈ requests, _ → _))

theorem IsFirst.isFirstOfText {requests : List FragmentRequest} {request : FragmentRequest}
    (apart : HashesTellApart requests) (first : IsFirst requests request) :
    IsFirstOfText requests request := by
  have member : request ∈ requests := List.mem_of_find?_eq_some first
  rw [IsFirstOfText, ← first]
  refine List.find?_congr fun other inside => decide_eq_decide.mpr ?_
  exact ⟨congrArg fragmentHash, apart other inside request member⟩

theorem FragmentRequest.exists_render_eq (request : FragmentRequest) :
    ∃ rest, request.render = request.importLines ++ rest := by
  refine ⟨"\n" ++ (request.caller ++ ("\n" ++ (request.entryPoint ++ ("\n" ++
    (request.text ++ "\n\x7d)"))))), ?_⟩
  simp only [render, String.append_assoc]

namespace Emitter

variable {emitter : Emitter} {store : FileStore} {requests : List FragmentRequest}
  {fragments : List Fragment} {state : Emitter × FileStore}

/-- After a sequence of requests, the file of every fragment holds what was rendered for the
first request with its text, and only requests with one text have one file. With a slash in the
extension, several texts can lead to one file, which then holds the unit of one of them. -/
theorem units_after_requests (rooted : store.Rooted) (apart : HashesTellApart requests)
    (ran : (requests.mapM emit).run (emitter.forRun, store) = (.ok fragments, state)) :
    requests.length = fragments.length ∧ ∀ answer ∈ requests.zip fragments,
      (∃ shown, IsFirstOfText requests shown ∧
        state.2.readBytes answer.2.path = .ok shown.render.toUTF8 ∧
          ('/' ∉ emitter.fragmentExtension.toList → shown.text = answer.1.text)) ∧
      ∀ other ∈ requests.zip fragments,
        answer.2.path = other.2.path ↔ answer.1.text = other.1.text := by
  have emitted := emitted_of_mapM rooted ran
  obtain ⟨lengths, units⟩ := List.forall₂_iff_zip.mp emitted.answered
  have pathOf_answer : ∀ answer ∈ requests.zip fragments,
      answer.2.path = emitter.pathOf answer.1.text := by
    intro answer member
    rw [units member]
    rfl
  refine ⟨lengths, fun answer member => ⟨?_, fun other otherMember => ?_⟩⟩
  · obtain ⟨inside, -⟩ := List.of_mem_zip member
    obtain ⟨place, shown, here, first, there, holds⟩ := emitted.held answer.1 inside
    refine ⟨shown, first.isFirstOfText apart, ?_, fun noSlash => ?_⟩
    · rw [pathOf_answer answer member]
      exact (FileStore.readBytes_eq_ok_iff _ _).mpr ⟨place, here, holds⟩
    · exact apart shown (List.mem_of_find?_eq_some first) answer.1 inside
        (fragmentHash_eq_of_place? noSlash there here)
  · rw [pathOf_answer answer member, pathOf_answer other otherMember]
    obtain ⟨inside, -⟩ := List.of_mem_zip member
    obtain ⟨otherInside, -⟩ := List.of_mem_zip otherMember
    constructor
    · intro same
      exact apart answer.1 inside other.1 otherInside (fragmentHash_eq_of_pathOf_eq same)
    · exact congrArg emitter.pathOf

/-! ### Two blocks that differ in their imports only -/

/-- A block that calls a function, which it has to import, on an argument. -/
def callRequest (text imported location : String) : FragmentRequest where
  text := text
  imports := [imported]
  converters := ⟨"show", "show"⟩
  parameterTypes := ["Int", "Int"]
  location := location

def sampleRequests : List FragmentRequest :=
  [callRequest "twice(it)" "p.twice" "A.kt:4", callRequest "twice(it)" "q.twice" "B.kt:4",
    callRequest "once(it)" "p.once" "B.kt:8"]

def sampleEmitter : Emitter where
  outDir := ⟨"/out"⟩

set_option maxRecDepth 10000 in
theorem sampleRequests_succeed :
    ∃ fragments state, (sampleRequests.mapM emit).run (sampleEmitter.forRun, {}) =
      (.ok fragments, state) := by
  have succeeds :
      ((sampleRequests.mapM emit).run (sampleEmitter.forRun, {})).1.toOption.isSome = true := by
    decide +kernel
  generalize (sampleRequests.mapM emit).run (sampleEmitter.forRun, {}) = outcome at succeeds
  obtain ⟨result, state⟩ := outcome
  cases result with
  | ok fragments => exact ⟨fragments, state, rfl⟩
  | error error => cases succeeds

set_option maxRecDepth 10000 in
theorem hashesTellApart_sampleRequests : HashesTellApart sampleRequests := by
  decide +kernel

theorem rooted_empty : FileStore.Rooted {} := ⟨.empty, rfl⟩

theorem render_ne_of_imports {text location otherLocation : String} :
    (callRequest text "p.twice" location).render ≠
      (callRequest text "q.twice" otherLocation).render := by
  obtain ⟨rest, first⟩ := (callRequest text "p.twice" location).exists_render_eq
  obtain ⟨otherRest, second⟩ := (callRequest text "q.twice" otherLocation).exists_render_eq
  have starts : (callRequest text "p.twice" location).importLines = "import p.twice" := rfl
  have otherStarts : (callRequest text "q.twice" otherLocation).importLines = "import q.twice" := rfl
  rw [first, second, starts, otherStarts]
  intro same
  have seventh := congrArg (fun unit => unit.toList[7]?) same
  rw [String.toList_append, String.toList_append, List.getElem?_append_left (by decide),
    List.getElem?_append_left (by decide)] at seventh
  exact absurd seventh (by decide)

/-- The file of two blocks with one text is imported for the first of them. -/
theorem sampleRequests_share_file : FileStore.Rooted {} ∧ HashesTellApart sampleRequests ∧
    ∃ fragments state,
      (sampleRequests.mapM emit).run (sampleEmitter.forRun, {}) = (.ok fragments, state) ∧
        sampleRequests.length = fragments.length ∧ ∀ answer ∈ sampleRequests.zip fragments,
          (∃ shown, IsFirstOfText sampleRequests shown ∧
            state.2.readBytes answer.2.path = .ok shown.render.toUTF8 ∧
              ('/' ∉ sampleEmitter.fragmentExtension.toList → shown.text = answer.1.text)) ∧
          ∀ other ∈ sampleRequests.zip fragments,
            answer.2.path = other.2.path ↔ answer.1.text = other.1.text := by
  obtain ⟨fragments, state, ran⟩ := sampleRequests_succeed
  exact ⟨rooted_empty, hashesTellApart_sampleRequests, fragments, state, ran,
    units_after_requests rooted_empty hashesTellApart_sampleRequests ran⟩

/-- It is not so that every file holds the unit of the request that it was returned for, not
even up to the location: the second block is compiled with the imports of the first one. -/
theorem not_every_request_has_own_unit :
    ¬ ∀ (emitter : Emitter) (store : FileStore) (requests : List FragmentRequest)
        (fragments : List Fragment) (state : Emitter × FileStore),
      store.Rooted → HashesTellApart requests →
        (requests.mapM emit).run (emitter.forRun, store) = (.ok fragments, state) →
          ∀ answer ∈ requests.zip fragments, ∃ location,
            state.2.readBytes answer.2.path =
              .ok ({ answer.1 with location := location } : FragmentRequest).render.toUTF8 := by
  intro claim
  obtain ⟨fragments, state, ran⟩ := sampleRequests_succeed
  have emitted := emitted_of_mapM rooted_empty ran
  have each := claim sampleEmitter {} sampleRequests fragments state rooted_empty
    hashesTellApart_sampleRequests ran
  obtain ⟨place, shown, here, first, there, holds⟩ :=
    emitted.held (callRequest "twice(it)" "q.twice" "B.kt:4") (by simp [sampleRequests])
  have sameHash : fragmentHash shown.text = fragmentHash "twice(it)" :=
    fragmentHash_eq_of_place? (by decide) there here
  have shownFirst : shown = callRequest "twice(it)" "p.twice" "A.kt:4" := by
    rw [IsFirst, sameHash, sampleRequests, List.find?_cons_of_pos (by simp [callRequest])] at first
    exact (Option.some.inj first).symm
  rw [shownFirst] at holds
  obtain ⟨lengths, units⟩ := List.forall₂_iff_zip.mp emitted.answered
  obtain ⟨fragment, second, third, rfl⟩ := List.length_eq_three.mp lengths.symm
  have member : (callRequest "twice(it)" "q.twice" "B.kt:4", second) ∈
      sampleRequests.zip [fragment, second, third] := by
    simp [sampleRequests]
  obtain ⟨location, held⟩ := each _ member
  have read := (FileStore.readBytes_eq_ok_iff _ _).mpr ⟨place, here, holds⟩
  rw [congrArg Fragment.path (units member)] at held
  have same := String.toByteArray_inj.mp (Except.ok.inj (read.symm.trans held))
  exact render_ne_of_imports same

end Emitter

end SourceCapture
