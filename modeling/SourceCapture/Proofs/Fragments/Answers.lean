/-
How an emitter answers a request. It knows the hash of the text, or it sees to it that the file
of the text holds the rendering of the request and remembers the fragment. Either way nothing
else changes in the files. A request that fails is not remembered and changes no file.
-/

import SourceCapture.Proofs.Fragments.Names
import SourceCapture.Proofs.Runs
import SourceCapture.Proofs.Tables

namespace SourceCapture

/-! ### The effect on the files -/

/-- Whether one file has got some bytes and no other file has changed. `written` says whether
it had other bytes before. -/
structure FileStore.Gains (before : FileStore) (place : Place) (bytes : ByteArray)
    (written : Bool) (after : FileStore) : Prop where
  grows : before.GrowsTo after
  bytesAt? : ∀ other,
    after.bytesAt? other = if other = place then some bytes else before.bytesAt? other
  written_iff : written = true ↔ before.bytesAt? place ≠ some bytes

namespace FileStore.Gains

variable {before after : FileStore} {place other : Place} {bytes : ByteArray} {written : Bool}

theorem bytesAt?_self (gains : before.Gains place bytes written after) :
    after.bytesAt? place = some bytes := by
  rw [gains.bytesAt?, if_pos rfl]

theorem bytesAt?_of_ne (gains : before.Gains place bytes written after)
    (differs : other ≠ place) : after.bytesAt? other = before.bytesAt? other := by
  rw [gains.bytesAt?, if_neg differs]

/-- A file that is not written held the right bytes before. -/
theorem bytesAt?_of_not_written (gains : before.Gains place bytes false after) :
    after.bytesAt? other = before.bytesAt? other := by
  by_cases same : other = place
  · have held : before.bytesAt? place = some bytes :=
      of_not_not fun differs => Bool.false_ne_true (gains.written_iff.mpr differs)
    rw [same, gains.bytesAt?_self, held]
  · exact gains.bytesAt?_of_ne same

end FileStore.Gains

theorem FileStore.AddsFolders.gains {before made after : FileStore} {place : Place}
    {bytes : ByteArray} {written : Bool} (adds : before.AddsFolders made)
    (gains : made.Gains place bytes written after) : before.Gains place bytes written after where
  grows := adds.grows.trans gains.grows
  bytesAt? other := by rw [gains.bytesAt?, adds.bytesAt?]
  written_iff := by rw [gains.written_iff, adds.bytesAt?]

namespace Emitter

variable {emitter after : Emitter} {store left : FileStore} {request : FragmentRequest}
  {fragment : Fragment} {error : CaptureError}

theorem run_makeOutDir (emitter : Emitter) (store : FileStore) :
    makeOutDir.run (emitter, store) =
      match store.makeFolders emitter.outDir with
      | (.ok (), made) => (.ok (), emitter, made)
      | (.error cause, made) => (.error (.write emitter.outDir cause), emitter, made) := by
  rw [makeOutDir, Work.run_bind, Work.run_get]
  dsimp only
  rw [Work.run_bind, Work.run_set]
  obtain ⟨result, made⟩ := store.makeFolders emitter.outDir
  cases result with
  | ok done => rfl
  | error cause => rfl

theorem run_writeIfChanged (emitter : Emitter) (store : FileStore) (path : Path)
    (bytes : ByteArray) [decidable : Decidable (store.readBytes path = .ok bytes)] :
    (writeIfChanged path bytes).run (emitter, store) =
      if store.readBytes path = .ok bytes then (.ok false, emitter, store)
      else match store.writeBytes path bytes with
        | .ok changed => (.ok true, emitter, changed)
        | .error cause => (.error (.write path cause), emitter, store) := by
  rw [writeIfChanged, Work.run_bind, Work.run_get]
  dsimp only
  revert decidable
  cases store.readBytes path with
  | error cause =>
    intro decidable
    rw [if_neg error_ne_ok]
    cases store.writeBytes path bytes with
    | ok changed => rfl
    | error cause => rfl
  | ok old =>
    intro decidable
    by_cases same : old.data = bytes.data
    · rw [if_pos (congrArg Except.ok (ByteArray.ext same))]
      dsimp only
      rw [if_pos same]
      rfl
    · rw [if_neg fun equal => same (congrArg ByteArray.data (Except.ok.inj equal))]
      dsimp only
      rw [if_neg same]
      cases store.writeBytes path bytes with
      | ok changed => rfl
      | error cause => rfl

/-- A file that is written if its bytes are others gains the bytes. -/
theorem gains_of_writeIfChanged {path : Path} {bytes : ByteArray} {written : Bool}
    (rooted : store.Rooted)
    (ran : (writeIfChanged path bytes).run (emitter, store) = (.ok written, after, left)) :
    ∃ place, left.place? path = some place ∧ store.Gains place bytes written left := by
  rw [run_writeIfChanged] at ran
  by_cases same : store.readBytes path = .ok bytes
  · rw [if_pos same] at ran
    cases ran
    obtain ⟨place, here, found⟩ := (FileStore.readBytes_eq_ok_iff path bytes).mp same
    refine ⟨place, here, .refl store, fun other => ?_, ?_⟩
    · split
      case isTrue equal => rw [equal, found]
      case isFalse => rfl
    · rw [found]
      exact iff_of_false Bool.false_ne_true fun differs => differs rfl
  · rw [if_neg same] at ran
    split at ran
    case h_1 changed wrote =>
      cases ran
      obtain ⟨grows, place, here, others, old⟩ := FileStore.writeBytes_spec rooted wrote
      refine ⟨place, here, grows, others, ?_⟩
      exact iff_of_true rfl fun found => same (old bytes found)
    case h_2 => cases ran

/-! ### The answers -/

/-- The fragment of a text. -/
def unitOf (emitter : Emitter) (text : String) (written : Bool) : Fragment :=
  emitter.fragmentOf (fragmentHash text) written

/-- The emitter that knows one more fragment. -/
def remembering (emitter : Emitter) (fragment : Fragment) : Emitter :=
  { emitter with emitted := emitter.emitted.insert fragment.hash fragment }

/-- How a request is answered. -/
inductive Answers (emitter : Emitter) (store : FileStore) (request : FragmentRequest) :
    Fragment → Emitter → FileStore → Prop where
  | recalled {first : Fragment}
      (known : emitter.emitted.get? (fragmentHash request.text) = some first) :
      Answers emitter store request { first with written := false } emitter store
  | gained {place : Place} {written : Bool} {left : FileStore}
      (fresh : emitter.emitted.get? (fragmentHash request.text) = none)
      (here : left.place? (emitter.pathOf request.text) = some place)
      (gains : store.Gains place request.render.toUTF8 written left) :
      Answers emitter store request (emitter.unitOf request.text written)
        (emitter.remembering (emitter.unitOf request.text written)) left

theorem Answers.grows (answers : emitter.Answers store request fragment after left) :
    store.GrowsTo left := by
  cases answers with
  | recalled known => exact .refl store
  | gained fresh here gains => exact gains.grows

theorem eq_of_run_writeIfChanged {path : Path} {bytes : ByteArray} {written : Bool}
    (ran : (writeIfChanged path bytes).run (emitter, store) = (.ok written, after, left)) :
    after = emitter := by
  rw [run_writeIfChanged] at ran
  split at ran
  · cases ran
    rfl
  · split at ran
    · cases ran
      rfl
    · cases ran

/-- A request that succeeds is answered from memory, or its file is seen to. -/
theorem known_or_wrote_of_emit
    (ran : (emit request).run (emitter, store) = (.ok fragment, after, left)) :
    (∃ first, emitter.emitted.get? (fragmentHash request.text) = some first ∧
      fragment = { first with written := false } ∧ after = emitter ∧ left = store) ∨
    (emitter.emitted.get? (fragmentHash request.text) = none ∧ ∃ made written,
      store.makeFolders emitter.outDir = (.ok (), made) ∧
      (writeIfChanged (emitter.pathOf request.text) request.render.toUTF8).run (emitter, made) =
        (.ok written, emitter, left) ∧
      fragment = emitter.unitOf request.text written ∧ after = emitter.remembering fragment) := by
  rw [emit, Work.run_bind, Work.run_get] at ran
  dsimp only at ran
  cases known : emitter.emitted.get? (fragmentHash request.text) with
  | some first =>
    rw [known] at ran
    cases ran
    exact Or.inl ⟨first, rfl, rfl, rfl, rfl⟩
  | none =>
    rw [known] at ran
    dsimp only at ran
    obtain ⟨_, ⟨current, made⟩, folder, ran⟩ := Work.run_bind_eq_ok_iff.mp ran
    obtain ⟨written, ⟨same, changed⟩, wrote, ran⟩ := Work.run_bind_eq_ok_iff.mp ran
    cases ran
    rw [run_makeOutDir] at folder
    split at folder
    case h_1 made' makes =>
      cases folder
      obtain rfl := eq_of_run_writeIfChanged wrote
      exact Or.inr ⟨rfl, made, written, makes, wrote, rfl, rfl⟩
    case h_2 => cases folder

theorem answers_of_emit (rooted : store.Rooted)
    (ran : (emit request).run (emitter, store) = (.ok fragment, after, left)) :
    emitter.Answers store request fragment after left := by
  rcases known_or_wrote_of_emit ran with
    ⟨first, known, rfl, rfl, rfl⟩ | ⟨fresh, made, written, makes, wrote, rfl, rfl⟩
  · exact .recalled known
  · have adds := FileStore.addsFolders_makeFolders rooted emitter.outDir
    rw [makes] at adds
    obtain ⟨place, here, gains⟩ := gains_of_writeIfChanged (adds.grows.rooted rooted) wrote
    exact .gained fresh here (adds.gains gains)

/-! ### The memory -/

/-- Whether all that an emitter remembers are fragments as it makes them with its settings. So it
is with a new emitter, and requests keep it so. -/
def RemembersOwn (emitter : Emitter) : Prop :=
  ∀ hash first, emitter.emitted.get? hash = some first →
    first = emitter.fragmentOf hash first.written

theorem remembersOwn_forRun (emitter : Emitter) : emitter.forRun.RemembersOwn :=
  fun _ _ known => nomatch known

theorem RemembersOwn.remembering (own : emitter.RemembersOwn) (text : String) (written : Bool) :
    (emitter.remembering (emitter.unitOf text written)).RemembersOwn := by
  intro hash first known
  change (emitter.emitted.insert (fragmentHash text) _).get? hash = some first at known
  rw [Table.get?_insert] at known
  by_cases same : hash = fragmentHash text
  · rw [if_pos same] at known
    rw [same, ← Option.some.inj known]
    rfl
  · rw [if_neg same] at known
    exact own hash first known

/-- An emitter that remembers its own fragments answers with the fragment of the text. -/
theorem RemembersOwn.emit (own : emitter.RemembersOwn)
    (ran : (emit request).run (emitter, store) = (.ok fragment, after, left)) :
    fragment = emitter.unitOf request.text fragment.written ∧ after.RemembersOwn ∧
      ∃ table, after = { emitter with emitted := table } := by
  rcases known_or_wrote_of_emit ran with
    ⟨first, known, rfl, rfl, -⟩ | ⟨-, made, written, -, -, rfl, rfl⟩
  · have unit := own _ first known
    refine ⟨?_, own, _, rfl⟩
    rw [unit]
    rfl
  · exact ⟨rfl, own.remembering request.text written, _, rfl⟩

/-! ### Requests that fail -/

/-- A request that fails may leave folders behind and nothing else. -/
theorem addsFolders_of_emit_error (rooted : store.Rooted)
    (ran : (emit request).run (emitter, store) = (.error error, after, left)) :
    after = emitter ∧ store.AddsFolders left := by
  rw [emit, Work.run_bind, Work.run_get] at ran
  dsimp only at ran
  cases known : emitter.emitted.get? (fragmentHash request.text) with
  | some first =>
    rw [known] at ran
    cases ran
  | none =>
    rw [known] at ran
    dsimp only at ran
    have adds := FileStore.addsFolders_makeFolders rooted emitter.outDir
    rw [Work.run_bind, run_makeOutDir] at ran
    generalize makes : store.makeFolders emitter.outDir = outcome at ran adds
    obtain ⟨result, made⟩ := outcome
    cases result with
    | error cause =>
      cases ran
      exact ⟨rfl, adds⟩
    | ok done =>
      dsimp only at ran
      rw [Work.run_bind, run_writeIfChanged] at ran
      split at ran
      case h_1 => cases ran
      case h_2 failure ended wrote =>
        cases ran
        split at wrote
        · cases wrote
        · split at wrote
          · cases wrote
          · cases wrote
            exact ⟨rfl, adds⟩

end Emitter

end SourceCapture
