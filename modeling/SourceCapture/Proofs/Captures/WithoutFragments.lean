/-
The captures of a file with and without fragments. Work mirrors other work if it yields on its
own, without an emitter and whatever the files are, what the other work yields with one, unless
that fails to write. A request mirrors doing nothing, since it can only fail to write, so what
mirrors is closed under sequencing: fragments are added to captures, and decide nothing else.
-/

import SourceCapture.Proofs.Captures.Failures
import SourceCapture.Proofs.Captures.Ranges

namespace SourceCapture

/-- Whether an error is one of writing. -/
def CaptureError.IsWrite (error : CaptureError) : Prop := ∃ path cause, error = .write path cause

/-- A capture without what was emitted for it. -/
def Capture.withoutFragment (capture : Capture) : Capture :=
  { capture with source := { capture.source with artifact := "" }, fragment := none }

/-! ### Work that mirrors other work -/

/-- Whether work without an emitter changes no files and ends as other work with one does, with
what `bared` makes of its result, unless that fails to write. -/
def Mirrors {Result Bare : Type} (bared : Result → Bare) (bare : EmitM Bare)
    (work : EmitM Result) : Prop :=
  ∀ emission store, (∀ error, (work.run emission).1 = .error error → ¬ error.IsWrite) →
    bare.run ⟨none, store⟩ = ((work.run emission).1.map bared, ⟨none, store⟩)

namespace Mirrors

variable {Result Bare Next Then Element : Type} {bared : Result → Bare} {andThen : Next → Then}

theorem pure (bared : Result → Bare) (result : Result) :
    Mirrors bared (pure (bared result)) (pure result) :=
  fun _ _ _ => rfl

theorem liftExcept {result : Except CaptureError Result} {bare : Except CaptureError Bare}
    (same : bare = result.map bared) :
    Mirrors bared (liftExcept bare) (liftExcept result) := by
  intro emission store _
  rw [Capture.run_liftExcept, Capture.run_liftExcept, same]

theorem bind {work : EmitM Result} {bare : EmitM Bare} {next : Result → EmitM Next}
    {nextBare : Bare → EmitM Then} (first : Mirrors bared bare work)
    (second : ∀ result, Mirrors andThen (nextBare (bared result)) (next result)) :
    Mirrors andThen (bare >>= nextBare) (work >>= next) := by
  intro emission store writes
  have mirrored := first emission store
  rw [Work.run_bind] at writes
  rw [Work.run_bind, Work.run_bind]
  generalize work.run emission = outcome at mirrored writes
  obtain ⟨result, middle⟩ := outcome
  cases result with
  | error error =>
    have noWrite : ¬ error.IsWrite := writes error rfl
    rw [mirrored (by rintro _ ⟨⟩; exact noWrite)]
    rfl
  | ok value =>
    rw [mirrored fun _ raised => nomatch raised]
    exact second value middle store writes

theorem map {work : EmitM Result} {bare : EmitM Bare} {change : Result → Next}
    {changeBare : Bare → Then} (mirrors : Mirrors bared bare work)
    (same : ∀ result, changeBare (bared result) = andThen (change result)) :
    Mirrors andThen (changeBare <$> bare) (change <$> work) := by
  rw [map_eq_pure_bind, map_eq_pure_bind]
  refine mirrors.bind fun result => ?_
  rw [same]
  exact .pure andThen (change result)

theorem mapM {step : Element → EmitM Result} {bareStep : Element → EmitM Bare}
    (mirrors : ∀ item, Mirrors bared (bareStep item) (step item)) (items : List Element) :
    Mirrors (List.map bared) (items.mapM bareStep) (items.mapM step) := by
  induction items with
  | nil =>
    rw [List.mapM_nil, List.mapM_nil]
    exact .pure (List.map bared) []
  | cons item rest inductionHypothesis =>
    rw [List.mapM_cons, List.mapM_cons]
    refine (mirrors item).bind fun result => ?_
    exact inductionHypothesis.bind fun results => .pure (List.map bared) (result :: results)

/-! ### The captures of a file -/

/-- A request yields nothing that a run without an emitter could miss. -/
theorem emit? (request : FragmentRequest) :
    Mirrors (fun _ => none) (Emission.emit? request) (Emission.emit? request) := by
  intro emission store writes
  have only : RaisesOnly CaptureError.IsWrite (Emission.emit? request) :=
    Emission.emit?_raisesOnly (fun path cause => ⟨path, cause, rfl⟩) request
  have failed := only emission
  rw [Emission.run_emit? ⟨none, store⟩]
  generalize (Emission.emit? request).run emission = outcome at writes failed
  obtain ⟨result, ended⟩ := outcome
  cases result with
  | ok fragment? => rfl
  | error error => exact absurd (failed error rfl) (writes error rfl)

theorem block? (document : Document) (span : Option Span) (type : TypeRef) (owner : ClassHeader)
    (operand : Expr) :
    Mirrors (Option.map Capture.withoutFragment)
      (Capture.block? document span type owner operand)
      (Capture.block? document span type owner operand) := by
  have lifts {Found : Type} (result : Except CaptureError Found) :
      Mirrors id (SourceCapture.liftExcept result) (SourceCapture.liftExcept result) :=
    liftExcept (id_map result).symm
  rw [Capture.block?]
  refine (lifts _).bind fun converters => ?_
  cases span with
  | none => exact .pure (Option.map Capture.withoutFragment) none
  | some span =>
    refine (lifts _).bind fun block => (emit? _).bind fun fragment => ?_
    exact .pure (Option.map Capture.withoutFragment) (some (Capture.ofBlock owner block fragment))

theorem declaration? (document : Document) (declaration : Declaration) :
    Mirrors (Option.map Capture.withoutFragment)
      (SourceCapture.liftExcept (Capture.declaration? document declaration))
      (SourceCapture.liftExcept (Capture.declaration? document declaration)) := by
  refine liftExcept ?_
  cases taken : Capture.declaration? document declaration with
  | error error => rfl
  | ok found =>
    cases found with
    | none => rfl
    | some capture =>
      obtain ⟨span, excerpt, location, -, -, rfl⟩ := Capture.exists_of_declaration? taken
      rfl

theorem ofItem? (document : Document) (item : Item) :
    Mirrors (Option.map Capture.withoutFragment) (Capture.ofItem? document item)
      (Capture.ofItem? document item) := by
  obtain ⟨declared, -, same⟩ | ⟨span, type, owner, operand, -, same⟩ | same :=
    Capture.ofItem?_cases document item
  all_goals rw [same]
  · exact declaration? document declared
  · exact block? document span type owner operand
  · exact .pure (Option.map Capture.withoutFragment) none

theorem capturesOf (document : Document) (file : SourceFile) :
    Mirrors (List.map Capture.withoutFragment) (capturesOf document file)
      (capturesOf document file) := by
  rw [capturesOf_eq]
  refine (mapM (ofItem? document) file.items).map fun found => ?_
  induction found with
  | nil => rfl
  | cons capture rest inductionHypothesis =>
    cases capture with
    | none => exact inductionHypothesis
    | some capture => exact congrArg (capture.withoutFragment :: ·) inductionHypothesis

end Mirrors

/-- Emitting fragments decides nothing about the captures of a file. Unless it fails to write, a
pass with an emitter ends with the error with which one without an emitter ends, or both take the
same captures but for the fragments; and the pass without an emitter leaves all files alone. -/
theorem capturesOf_without_emitter {document : Document} {file : SourceFile} {emitter : Emitter}
    {store : FileStore} (noWriteError : ∀ path cause,
      ((capturesOf document file).run ⟨some emitter, store⟩).1 ≠ .error (.write path cause))
    (other : FileStore) :
    (capturesOf document file).run ⟨none, other⟩ =
      (((capturesOf document file).run ⟨some emitter, store⟩).1.map
        (List.map Capture.withoutFragment), ⟨none, other⟩) := by
  refine Mirrors.capturesOf document file ⟨some emitter, store⟩ other ?_
  rintro _ raised ⟨path, cause, rfl⟩
  exact noWriteError path cause raised

/-- A file with a block, for which a fragment is emitted, and a declaration. -/
theorem notedFile_without_emitter : ∃ captures after,
    (capturesOf notedDocument notedFile).run ⟨some notedEmitter.forRun, {}⟩ =
      (.ok captures, after) ∧
    (∀ path cause, ((capturesOf notedDocument notedFile).run
      ⟨some notedEmitter.forRun, {}⟩).1 ≠ .error (.write path cause)) ∧
    (capturesOf notedDocument notedFile).run ⟨none, {}⟩ =
      (.ok (captures.map Capture.withoutFragment), ⟨none, {}⟩) := by
  obtain ⟨captures, after, ran, -⟩ := run_notedFile
  change (capturesOf notedDocument notedFile).run ⟨some notedEmitter.forRun, {}⟩ = _ at ran
  have noWriteError : ∀ path cause, ((capturesOf notedDocument notedFile).run
      ⟨some notedEmitter.forRun, {}⟩).1 ≠ .error (.write path cause) := by
    rw [ran]
    exact fun _ _ => nofun
  refine ⟨captures, after, ran, noWriteError, ?_⟩
  rw [capturesOf_without_emitter noWriteError {}, ran]
  rfl

end SourceCapture
