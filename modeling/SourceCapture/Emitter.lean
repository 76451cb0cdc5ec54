/-
Writing fragments. Every fragment has a file named by the hash of its text, and a file that
already holds the right bytes is left alone. Within one run a text is written once: later
blocks with the same text share the file, which keeps the location of the first of them.
-/

import SourceCapture.Fragment

namespace SourceCapture

/-- Where and under which names fragments are written, and those of the run so far. -/
structure Emitter where
  outDir : Path
  fragmentExtension : String := "kt"
  artifactExtension : String := "js"
  emitted : Table String Fragment := .empty

namespace Emitter

/-- The same settings with nothing emitted yet. -/
def forRun (emitter : Emitter) : Emitter := { emitter with emitted := .empty }

/-- The fragment of a text that has this hash. -/
def fragmentOf (emitter : Emitter) (hash : String) (written : Bool) : Fragment where
  hash := hash
  path := emitter.outDir.join (hash ++ "." ++ emitter.fragmentExtension)
  artifact := hash ++ "." ++ emitter.artifactExtension
  written := written

end Emitter

/-- Work of an emitter on a store of files. What was written before a failure stays
written. -/
abbrev EmitterM := ExceptT CaptureError (StateM (Emitter × FileStore))

namespace Emitter

/-- Makes the folder of the fragments. -/
def makeOutDir : EmitterM Unit := do
  let (emitter, store) ← get
  let (result, made) := store.makeFolders emitter.outDir
  set (emitter, made)
  match result with
  | .ok () => pure ()
  | .error cause => throw (.write emitter.outDir cause)

/-- Gives a file these bytes, and says whether it had others before. -/
def writeIfChanged (path : Path) (bytes : ByteArray) : EmitterM Bool := do
  let (emitter, store) ← get
  match store.readBytes path with
  | .ok old => if old.data = bytes.data then return false
  | .error _ => pure ()
  match store.writeBytes path bytes with
  | .ok changed =>
    set (emitter, changed)
    return true
  | .error cause => throw (.write path cause)

/-- Emits the unit of a request, or finds that its text was emitted in this run. -/
def emit (request : FragmentRequest) : EmitterM Fragment := do
  let (emitter, _) ← get
  let hash := fragmentHash request.text
  match emitter.emitted.get? hash with
  | some first => return { first with written := false }
  | none =>
    makeOutDir
    let path := (emitter.fragmentOf hash false).path
    let written ← writeIfChanged path request.render.toUTF8
    let fragment := emitter.fragmentOf hash written
    modify fun (current, store) =>
      ({ current with emitted := current.emitted.insert hash fragment }, store)
    return fragment

end Emitter

/-! ### Runs with and without fragments -/

/-- The files of a run, and its emitter if the run writes fragments. -/
structure Emission where
  emitter? : Option Emitter
  store : FileStore

/-- Work that may emit fragments. -/
abbrev EmitM := ExceptT CaptureError (StateM Emission)

namespace Emission

/-- Emits the unit of a request, if the run writes fragments. -/
def emit? (request : FragmentRequest) : EmitM (Option Fragment) := do
  let emission ← get
  match emission.emitter? with
  | none => return none
  | some emitter =>
    let (result, after, store) := (Emitter.emit request).run (emitter, emission.store)
    set (Emission.mk (some after) store)
    match result with
    | .ok fragment => return some fragment
    | .error error => throw error

end Emission

end SourceCapture
