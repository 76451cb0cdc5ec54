/-
Which errors end the work of the capture pass. Work that is done step by step is ended by the
errors of its steps. So writing fragments only fails with the errors of writing, and where
spans fit their files, no item ends the pass with an error about a span.
-/

import SourceCapture.Capture
import SourceCapture.Proofs.Excerpts
import SourceCapture.Proofs.Traversal

namespace SourceCapture

/-- Whether only allowed errors end some work, whatever state it starts in. -/
def RaisesOnly {State Result : Type} (allowed : CaptureError → Prop)
    (work : ExceptT CaptureError (StateM State) Result) : Prop :=
  ∀ state error, (work.run state).1 = .error error → allowed error

/-- Whether an error is not about a span that does not fit its file. -/
def CaptureError.SpansFit (error : CaptureError) : Prop := ∀ path cause, error ≠ .span path cause

/-! ### Steps -/

/-- Whether only allowed errors stand in place of a result. -/
def FailsOnly {Result : Type} (allowed : CaptureError → Prop)
    (result : Except CaptureError Result) : Prop :=
  ∀ error, result = .error error → allowed error

namespace FailsOnly

variable {Result Next : Type} {allowed : CaptureError → Prop}

theorem ok (result : Result) : FailsOnly allowed (.ok result) := fun _ same => nomatch same

theorem error {error : CaptureError} (fine : allowed error) :
    FailsOnly allowed (.error error : Except CaptureError Result) := by
  intro other same
  cases same
  exact fine

theorem bind {result : Except CaptureError Result} {next : Result → Except CaptureError Next}
    (first : FailsOnly allowed result)
    (rest : ∀ value, result = .ok value → FailsOnly allowed (next value)) :
    FailsOnly allowed (result >>= next) := by
  cases result with
  | ok value => exact rest value rfl
  | error failure => exact error (first failure rfl)

end FailsOnly

namespace RaisesOnly

variable {State Result Next : Type} {allowed : CaptureError → Prop}

theorem pure (result : Result) :
    RaisesOnly allowed (Pure.pure result : ExceptT CaptureError (StateM State) Result) :=
  fun _ _ raised => nomatch raised

theorem get : RaisesOnly allowed (MonadState.get : ExceptT CaptureError (StateM State) State) :=
  fun _ _ raised => nomatch raised

theorem set (state : State) :
    RaisesOnly allowed (MonadStateOf.set state : ExceptT CaptureError (StateM State) PUnit) :=
  fun _ _ raised => nomatch raised

theorem change (change : State → State) :
    RaisesOnly allowed (modify change : ExceptT CaptureError (StateM State) PUnit) :=
  fun _ _ raised => nomatch raised

theorem throw {error : CaptureError} (fine : allowed error) :
    RaisesOnly allowed (MonadExcept.throw error : ExceptT CaptureError (StateM State) Result) := by
  intro state other raised
  cases raised
  exact fine

/-- The errors of two steps are those of the first one and those of the second one after it. -/
theorem bind {work : ExceptT CaptureError (StateM State) Result}
    {next : Result → ExceptT CaptureError (StateM State) Next} (first : RaisesOnly allowed work)
    (rest : ∀ result, RaisesOnly allowed (next result)) : RaisesOnly allowed (work >>= next) := by
  intro state error raised
  have steps : (work >>= next).run state =
      ExceptT.bindCont next (work.run state).1 (work.run state).2 := rfl
  rw [steps] at raised
  cases ran : (work.run state).1 with
  | ok result =>
    rw [ran] at raised
    exact rest result _ error raised
  | error failure =>
    rw [ran] at raised
    cases raised
    exact first state _ ran

theorem lift {result : Except CaptureError Result} (only : FailsOnly allowed result) :
    RaisesOnly allowed (liftExcept result) := by
  cases result with
  | ok value => exact RaisesOnly.pure value
  | error error => exact RaisesOnly.throw (only error rfl)

end RaisesOnly

/-! ### Writing fragments -/

section

variable {allowed : CaptureError → Prop} (writes : ∀ path cause, allowed (.write path cause))

include writes

namespace Emitter

theorem makeOutDir_raisesOnly : RaisesOnly allowed makeOutDir := by
  rw [makeOutDir]
  refine RaisesOnly.bind RaisesOnly.get fun ⟨emitter, store⟩ => ?_
  refine RaisesOnly.bind (RaisesOnly.set _) fun _ => ?_
  split
  · exact RaisesOnly.pure ()
  · exact RaisesOnly.throw (writes _ _)

theorem writeIfChanged_raisesOnly (path : Path) (bytes : ByteArray) :
    RaisesOnly allowed (writeIfChanged path bytes) := by
  rw [writeIfChanged]
  refine RaisesOnly.bind RaisesOnly.get fun ⟨emitter, store⟩ => ?_
  have wrote : ∀ changed : FileStore, RaisesOnly allowed (do
      set (emitter, changed)
      return true : EmitterM Bool) :=
    fun changed => RaisesOnly.bind (RaisesOnly.set _) fun _ => RaisesOnly.pure true
  have failed : ∀ cause : FileError,
      RaisesOnly allowed (throw (.write path cause) : EmitterM Bool) :=
    fun cause => RaisesOnly.throw (writes path cause)
  dsimp only
  split
  · split
    · exact RaisesOnly.pure false
    · split
      · exact wrote _
      · exact failed _
  · split
    · exact wrote _
    · exact failed _

theorem emit_raisesOnly (request : FragmentRequest) : RaisesOnly allowed (emit request) := by
  rw [emit]
  refine RaisesOnly.bind RaisesOnly.get fun ⟨emitter, _⟩ => ?_
  dsimp only
  split
  · exact RaisesOnly.pure _
  · refine RaisesOnly.bind (makeOutDir_raisesOnly writes) fun _ => ?_
    refine RaisesOnly.bind (writeIfChanged_raisesOnly writes _ _) fun written => ?_
    exact RaisesOnly.bind (RaisesOnly.change _) fun _ => RaisesOnly.pure _

end Emitter

/-- Emitting a fragment only fails with an error of writing. -/
theorem Emission.emit?_raisesOnly (request : FragmentRequest) :
    RaisesOnly allowed (Emission.emit? request) := by
  rw [emit?]
  refine RaisesOnly.bind RaisesOnly.get fun emission => ?_
  cases emission.emitter? with
  | none => exact RaisesOnly.pure none
  | some emitter =>
    dsimp only
    have emitted := Emitter.emit_raisesOnly writes request (emitter, emission.store)
    refine RaisesOnly.bind (RaisesOnly.set _) fun _ => ?_
    split
    case h_1 => exact RaisesOnly.pure _
    case h_2 error raised => exact RaisesOnly.throw (emitted error raised)

end

/-! ### Converters -/

/-- The value of an argument that is asked for is that of one of the arguments. -/
theorem Annotation.exists_of_argument? {note : Annotation} {name : String} {position : Nat}
    {value : Const} (found : note.argument? name position = some value) :
    ∃ argument ∈ note.arguments, argument.value = value := by
  obtain ⟨argument, given, rfl⟩ := Option.map_eq_some_iff.mp found
  refine ⟨argument, ?_, rfl⟩
  rcases Option.or_eq_some_iff.mp given with named | ⟨-, unnamed⟩
  · exact List.mem_of_find?_eq_some named
  · exact (List.mem_filter.mp (List.mem_of_getElem? unnamed)).1

/-- Whether it is allowed to report the arguments of an annotation that have no value, while the
captures of a file are taken. -/
def Annotation.ReportsOnly (allowed : CaptureError → Prop) (document : Document)
    (note : Annotation) : Prop :=
  ∀ argument ∈ note.arguments, ∀ written span, argument.value = .nonConstant written span →
    allowed (.nonConstantArgument note.name written document.relativePath
      ((span.or note.span).getD ⟨0, 0⟩))

theorem Annotation.reportsOnly_spansFit (note : Annotation) (document : Document) :
    note.ReportsOnly CaptureError.SpansFit document :=
  fun _ _ _ _ _ _ _ => nofun

namespace Converters

variable {document : Document} {allowed : CaptureError → Prop}

theorem slot_failsOnly {note : Annotation} (reports : note.ReportsOnly allowed document)
    (parameter : String) (position : Nat) :
    FailsOnly allowed (slot document note parameter position) := by
  rw [slot]
  split
  case h_1 => exact FailsOnly.ok none
  case h_2 written span found =>
    obtain ⟨argument, member, value⟩ := Annotation.exists_of_argument? found
    exact FailsOnly.error (reports argument member written span value)
  case h_3 => exact FailsOnly.ok _

theorem override_failsOnly {annotations : List Annotation}
    (reports : ∀ note ∈ annotations, note.marks .converters = true →
      note.ReportsOnly allowed document) (inherited : Converters) :
    FailsOnly allowed (override document annotations inherited) := by
  rw [override]
  split
  case h_1 => exact FailsOnly.ok inherited
  case h_2 note found =>
    have marked : note.marks .converters = true := by simpa using List.find?_some found
    have only := reports note (List.mem_of_find?_eq_some found) marked
    refine FailsOnly.bind (slot_failsOnly only _ _) fun argument _ => ?_
    exact FailsOnly.bind (slot_failsOnly only _ _) fun result _ => FailsOnly.ok _

/-- Converters are refused for an argument of an annotation that names converters. -/
theorem ofCandidates_failsOnly {candidates : List (List Annotation)}
    (reports : ∀ annotations ∈ candidates, ∀ note ∈ annotations, note.marks .converters = true →
      note.ReportsOnly allowed document) :
    FailsOnly allowed (ofCandidates document candidates) := by
  induction candidates with
  | nil => exact FailsOnly.ok _
  | cons annotations others inductionHypothesis =>
    rw [List.forall_mem_cons] at reports
    exact FailsOnly.bind (inductionHypothesis reports.2) fun inherited _ =>
      override_failsOnly reports.1 inherited

end Converters

/-! ### Captures -/

/-- Building a location of a span that fits the text can only fail by a rule of locations. -/
theorem Document.location_failsOnly {document : Document} {span : Span}
    (fits : span.Fits document.content) :
    FailsOnly CaptureError.SpansFit (document.location span) := by
  obtain ⟨start, atStart⟩ := document.exists_position fits.start
  obtain ⟨stop, atStop⟩ := document.exists_position fits.stop
  rw [document.location_of_positions atStart atStop]
  cases Location.ofParts document.relativePath start stop with
  | ok location => exact FailsOnly.ok location
  | error cause => exact FailsOnly.error fun _ _ same => nomatch same

namespace Capture

variable {document : Document}

/-- Reading a lambda off its file only fails where its text has no location. -/
theorem readBlock_failsOnly {allowed : CaptureError → Prop} {span : Span}
    (fits : span.Fits document.content)
    (locates : ∀ place : Span, place.Fits document.content →
      FailsOnly allowed (document.location place))
    (type : TypeRef) (converters : Converters) (operand : Expr) :
    FailsOnly allowed (readBlock document span type converters operand) := by
  obtain ⟨inner, body, innerFits⟩ := document.exists_body fits
  obtain ⟨excerpt, cut, trimmedFits⟩ := document.exists_excerpt innerFits
  rw [readBlock, body]
  refine FailsOnly.bind (FailsOnly.ok inner) fun value same => ?_
  cases same
  rw [cut]
  refine FailsOnly.bind (FailsOnly.ok excerpt) fun value same => ?_
  cases same
  exact FailsOnly.bind (locates excerpt.trimmed trimmedFits) fun location _ => FailsOnly.ok _

/-- Whether a declaration, where it is to be captured, stops at or after its annotation. -/
def CutsWell (document : Document) (declaration : Declaration) : Prop :=
  ∀ note, declaration.annotations.filter (·.marks .captureSource) = [note] →
    ∀ annotated declared, note.span = some annotated → declaration.span = some declared →
      Span.Fits document.content ⟨annotated.stop, declared.stop⟩

theorem declaration?_failsOnly {declaration : Declaration}
    (cutsWell : CutsWell document declaration) :
    FailsOnly CaptureError.SpansFit (declaration? document declaration) := by
  rw [declaration?]
  split
  case h_1 note only =>
    split
    case h_1 annotated declared noteSpan span =>
      obtain ⟨excerpt, cut, trimmedFits⟩ :=
        document.exists_excerpt (cutsWell note only annotated declared noteSpan span)
      rw [cut]
      refine FailsOnly.bind (FailsOnly.ok excerpt) fun value same => ?_
      cases same
      exact FailsOnly.bind (Document.location_failsOnly trimmedFits) fun location _ =>
        FailsOnly.ok _
    case h_2 => exact FailsOnly.ok none
  case h_2 => exact FailsOnly.ok none

/-- Capturing a block fails where its converters are refused, where its text has no location, or
with an error of writing. -/
theorem block?_raisesOnly {allowed : CaptureError → Prop} {span : Option Span}
    {owner : ClassHeader} (known : FailsOnly allowed (Converters.ofInterface document owner))
    (fits : ∀ place, span = some place → place.Fits document.content)
    (locates : ∀ place : Span, place.Fits document.content →
      FailsOnly allowed (document.location place))
    (writes : ∀ path cause, allowed (.write path cause)) (type : TypeRef) (operand : Expr) :
    RaisesOnly allowed (block? document span type owner operand) := by
  rw [block?]
  refine RaisesOnly.bind (RaisesOnly.lift known) fun converters => ?_
  cases span with
  | none => exact RaisesOnly.pure none
  | some place =>
    have read := readBlock_failsOnly (fits place rfl) locates type converters operand
    refine RaisesOnly.bind (RaisesOnly.lift read) fun block => ?_
    refine RaisesOnly.bind (Emission.emit?_raisesOnly writes block.request) fun fragment => ?_
    exact RaisesOnly.pure _

/-- Whether an item has no span that the file cannot be cut at. -/
def ItemFits (document : Document) : Item → Prop
  | .declaration declaration => CutsWell document declaration
  | .expression expr => ∀ place, expr.span = some place → place.Fits document.content

theorem ofItem?_raisesOnly {item : Item} (fits : ItemFits document item) :
    RaisesOnly CaptureError.SpansFit (ofItem? document item) := by
  obtain ⟨declaration, rfl, same⟩ | ⟨span, type, owner, operand, rfl, same⟩ | same :=
    ofItem?_cases document item
  all_goals rw [same]
  · exact RaisesOnly.lift (declaration?_failsOnly fits)
  · have known : FailsOnly CaptureError.SpansFit (Converters.ofInterface document owner) :=
      Converters.ofCandidates_failsOnly fun _ _ note _ _ => note.reportsOnly_spansFit document
    exact block?_raisesOnly known fits (fun _ => Document.location_failsOnly)
      (fun _ _ _ _ => nofun) type operand
  · exact RaisesOnly.pure none

theorem record_raisesOnly {item : Item} (fits : ItemFits document item) (taken : List Capture) :
    RaisesOnly CaptureError.SpansFit ((record document item).run taken) := by
  rw [record, StateT.run_bind]
  have found : RaisesOnly CaptureError.SpansFit
      ((MonadLift.monadLift (ofItem? document item) : StateT (List Capture) EmitM _).run taken) :=
    RaisesOnly.bind (ofItem?_raisesOnly fits) fun _ => RaisesOnly.pure _
  refine RaisesOnly.bind found fun after => ?_
  obtain ⟨capture?, unchanged⟩ := after
  cases capture? with
  | none => exact RaisesOnly.pure _
  | some capture => exact RaisesOnly.pure _

theorem forM_record_raisesOnly {items : List Item} (fits : ∀ item ∈ items, ItemFits document item)
    (taken : List Capture) :
    RaisesOnly CaptureError.SpansFit ((forM items (record document)).run taken) := by
  induction items generalizing taken with
  | nil => exact RaisesOnly.pure _
  | cons item rest inductionHypothesis =>
    rw [List.forM_cons, StateT.run_bind]
    refine RaisesOnly.bind (record_raisesOnly (fits item List.mem_cons_self) taken) fun after => ?_
    exact inductionHypothesis (fun other member => fits other (List.mem_cons_of_mem _ member)) _

end Capture

/-- A file in which every item fits is captured without an error about a span. -/
theorem capturesOf_raisesOnly {document : Document} {file : SourceFile}
    (fits : ∀ item ∈ file.items, Capture.ItemFits document item) :
    RaisesOnly CaptureError.SpansFit (capturesOf document file) := by
  rw [capturesOf, SourceFile.walk_eq_forM]
  exact RaisesOnly.bind (Capture.forM_record_raisesOnly fits []) fun _ => RaisesOnly.pure _

end SourceCapture
