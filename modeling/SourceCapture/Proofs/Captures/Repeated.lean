/-
The captures of files that are taken a second time, from the files that the first pass over them
has left. Work replays if it yields the same again, but for the fragments, of which none is
written, and leaves the files as they are. A request replays because the file of every text still
holds what was put there for the first request with it, so what work replays is closed under
sequencing.
-/

import SourceCapture.Proofs.Captures.Attempts
import SourceCapture.Proofs.Fragments.OutputFolder

namespace SourceCapture

/-! ### What a second run yields -/

/-- The table with other values. -/
def Table.mapValues {Key Value Other : Type} (table : Table Key Value) (change : Value → Other) :
    Table Key Other :=
  ⟨table.entries.map fun entry => (entry.1, change entry.2)⟩

/-- A fragment whose file did not have to be written. -/
def Fragment.unchanged (fragment : Fragment) : Fragment := { fragment with written := false }

/-- A capture whose fragment did not have to be written. -/
def Capture.unchanged (capture : Capture) : Capture :=
  { capture with fragment := capture.fragment.map Fragment.unchanged }

/-- The captures of a file when no fragment had to be written. -/
def FileCaptures.unchanged (file : FileCaptures) : FileCaptures :=
  { file with captures := file.captures.map Capture.unchanged }

/-- The report when no fragment had to be written. -/
def Report.unchanged (report : Report) : Report :=
  { report with
    files := report.files.map FileCaptures.unchanged
    fragmentsWritten := 0
    fragmentsUnchanged := report.captures.countP (·.fragment.isSome) }

/-- The emitter that has found the same fragments without writing any. -/
def Emitter.unchanged (emitter : Emitter) : Emitter :=
  { emitter with emitted := emitter.emitted.mapValues Fragment.unchanged }

/-- A second run when it has come as far, on a store of files. -/
def Emission.again (emission : Emission) (store : FileStore) : Emission :=
  ⟨emission.emitter?.map Emitter.unchanged, store⟩

namespace Table

variable {Key Value Other : Type} [DecidableEq Key]

theorem get?_mapValues (table : Table Key Value) (change : Value → Other) (key : Key) :
    (table.mapValues change).get? key = (table.get? key).map change := by
  rw [get?, get?, mapValues]
  generalize table.entries = entries
  induction entries with
  | nil => rfl
  | cons entry rest inductionHypothesis =>
    rw [List.map_cons, find?, find?, inductionHypothesis]
    split
    · rfl
    · rfl

theorem mapValues_insert (table : Table Key Value) (change : Value → Other) (key : Key)
    (value : Value) :
    (table.insert key value).mapValues change = (table.mapValues change).insert key (change value) := by
  rw [insert, insert, mapValues, mapValues]
  generalize table.entries = entries
  refine congrArg Table.mk ?_
  induction entries with
  | nil => rfl
  | cons entry rest inductionHypothesis =>
    rw [List.map_cons, put, put]
    split
    · rfl
    · rw [List.map_cons]
      exact congrArg _ inductionHypothesis

end Table

/-! ### Requests -/

namespace Emitter

variable {emitter after : Emitter} {store left later : FileStore} {request : FragmentRequest}
  {fragment : Fragment}

theorem run_emit_of_known {first : Fragment}
    (known : emitter.emitted.get? (fragmentHash request.text) = some first) :
    (emit request).run (emitter, store) = (.ok first.unchanged, emitter, store) := by
  rw [emit, Work.run_bind, Work.run_get]
  dsimp only
  rw [known]
  rfl

theorem run_emit_of_held (fresh : emitter.emitted.get? (fragmentHash request.text) = none)
    (folder : store.makeFolders emitter.outDir = (.ok (), store))
    (held : store.readBytes (emitter.pathOf request.text) = .ok request.render.toUTF8) :
    (emit request).run (emitter, store) =
      (.ok (emitter.unitOf request.text false),
        emitter.remembering (emitter.unitOf request.text false), store) := by
  rw [emit, Work.run_bind, Work.run_get]
  dsimp only
  rw [fresh]
  dsimp only
  rw [Work.run_bind, run_makeOutDir, folder]
  dsimp only
  rw [Work.run_bind]
  have same := run_writeIfChanged emitter store (emitter.pathOf request.text) request.render.toUTF8
  rw [if_pos held] at same
  rw [pathOf] at same
  rw [same]
  rfl

theorem unchanged_remembering (emitter : Emitter) (fragment : Fragment) :
    (emitter.remembering fragment).unchanged = emitter.unchanged.remembering fragment.unchanged := by
  rw [remembering, remembering, unchanged, Table.mapValues_insert]
  rfl

/-- Whether a store has grown from another and still has the bytes in the file of every text that
an emitter knows. -/
structure KeptIn (emitter : Emitter) (store later : FileStore) : Prop where
  grows : store.GrowsTo later
  held : ∀ text bytes, emitter.emitted.get? (fragmentHash text) ≠ none →
    store.readBytes (emitter.pathOf text) = .ok bytes →
      later.readBytes (emitter.pathOf text) = .ok bytes

theorem KeptIn.refl (emitter : Emitter) (store : FileStore) : emitter.KeptIn store store :=
  ⟨.refl store, fun _ _ _ held => held⟩

/-- What a request has put in the file of its text stays there if it is kept, and so does what the
files of the texts before it hold. -/
theorem KeptIn.of_gained {place : Place} {written : Bool}
    (noSlash : '/' ∉ emitter.fragmentExtension.toList)
    (fresh : emitter.emitted.get? (fragmentHash request.text) = none)
    (here : left.place? (emitter.pathOf request.text) = some place)
    (gains : store.Gains place request.render.toUTF8 written left)
    (kept : (emitter.remembering (emitter.unitOf request.text written)).KeptIn left later) :
    emitter.KeptIn store later ∧
      later.readBytes (emitter.pathOf request.text) = .ok request.render.toUTF8 := by
  have known : ∀ text, (emitter.remembering (emitter.unitOf request.text written)).emitted.get?
      (fragmentHash text) ≠ none ↔ fragmentHash text = fragmentHash request.text ∨
        emitter.emitted.get? (fragmentHash text) ≠ none := by
    intro text
    show (emitter.emitted.insert (fragmentHash request.text) _).get? _ ≠ none ↔ _
    rw [Table.get?_insert]
    by_cases same : fragmentHash text = fragmentHash request.text
    · rw [if_pos same]
      exact iff_of_true (Option.some_ne_none _) (Or.inl same)
    · rw [if_neg same]
      exact (or_iff_right same).symm
  refine ⟨⟨gains.grows.trans kept.grows, fun text bytes knows held => ?_⟩, ?_⟩
  · refine kept.held text bytes ((known text).mpr (Or.inr knows)) ?_
    obtain ⟨other, there, found⟩ := (FileStore.readBytes_eq_ok_iff _ _).mp held
    have thereNow := gains.grows.place? there
    refine (FileStore.readBytes_eq_ok_iff _ _).mpr ⟨other, thereNow, ?_⟩
    have apart : other ≠ place := by
      rintro rfl
      rw [fragmentHash_eq_of_place? noSlash thereNow here] at knows
      exact knows fresh
    rw [gains.bytesAt?_of_ne apart, found]
  · refine kept.held request.text _ ((known request.text).mpr (Or.inl rfl)) ?_
    exact (FileStore.readBytes_eq_ok_iff _ _).mpr ⟨place, here, gains.bytesAt?_self⟩

/-- The folder of an emitter is there once a file is in it. -/
theorem isFolder_outDir {place : Place} (rooted : store.Rooted)
    (absolute : emitter.outDir.isAbsolute = true)
    (noSlash : '/' ∉ emitter.fragmentExtension.toList) {text : String}
    (here : store.place? (emitter.pathOf text) = some place) :
    store.isFolder emitter.outDir = true := by
  obtain ⟨around, folder, rfl⟩ := FileStore.place?_of_join rooted
    (Path.text_ne_of_isAbsolute absolute) (isEntryName_fragmentHash text noSlash) here
  obtain ⟨inner, located⟩ := (FileStore.place?_eq_some_iff _).mp here
  obtain ⟨entry, locatedFolder⟩ := (FileStore.place?_eq_some_iff _).mp folder
  obtain ⟨entries, there⟩ :=
    store.hasFolder_of_entryAt?_append (FileStore.entryAt?_of_locate located)
  rw [FileStore.entryAt?_of_locate locatedFolder] at there
  cases there
  exact (FileStore.isFolder_iff_locate _).mpr ⟨around, entries, locatedFolder⟩

/-- A request that is made again of the files that it and later ones have left writes nothing. -/
theorem emit_again (rooted : store.Rooted) (absolute : emitter.outDir.isAbsolute = true)
    (noSlash : '/' ∉ emitter.fragmentExtension.toList)
    (ran : (emit request).run (emitter, store) = (.ok fragment, after, left))
    (kept : after.KeptIn left later) :
    emitter.KeptIn store later ∧ (emit request).run (emitter.unchanged, later) =
      (.ok fragment.unchanged, after.unchanged, later) := by
  cases answers_of_emit rooted ran with
  | @recalled first known =>
    refine ⟨kept, run_emit_of_known ?_⟩
    show (emitter.emitted.mapValues Fragment.unchanged).get? _ = _
    rw [Table.get?_mapValues, known]
    rfl
  | gained fresh here gains =>
    obtain ⟨keptBefore, held⟩ := kept.of_gained noSlash fresh here gains
    have rootedLater := kept.grows.rooted (gains.grows.rooted rooted)
    have folder := FileStore.makeFolders_of_isFolder rootedLater absolute
      (isFolder_outDir rootedLater absolute noSlash (kept.grows.place? here))
    refine ⟨keptBefore, ?_⟩
    rw [unchanged_remembering]
    refine run_emit_of_held ?_ folder held
    show (emitter.emitted.mapValues Fragment.unchanged).get? _ = none
    rw [Table.get?_mapValues, fresh]
    rfl

end Emitter

/-! ### Work that replays -/

/-- Whether a run has files and, if it writes fragments, puts them into a folder by an absolute
path. -/
structure Emission.Sound (emission : Emission) : Prop where
  rooted : emission.store.Rooted
  absolute : ∀ emitter, emission.emitter? = some emitter → emitter.outDir.isAbsolute = true
  noSlash : ∀ emitter, emission.emitter? = some emitter →
    '/' ∉ emitter.fragmentExtension.toList

/-- Whether a store has grown from that of a run and still has the fragments of the run. -/
structure Emission.KeptIn (emission : Emission) (store : FileStore) : Prop where
  grows : emission.store.GrowsTo store
  held : ∀ emitter, emission.emitter? = some emitter → emitter.KeptIn emission.store store

/-- Whether work that has succeeded succeeds again on a store which still has its fragments,
changes nothing there and yields what it has yielded before, as `again` says it. -/
def Replays {Result Again : Type} (again : Result → Again) (work : EmitM Result)
    (repeated : EmitM Again) : Prop :=
  ∀ emission result ended, emission.Sound → work.run emission = (.ok result, ended) →
    ended.Sound ∧ ∀ store, ended.KeptIn store →
      emission.KeptIn store ∧
        repeated.run (emission.again store) = (.ok (again result), ended.again store)

namespace Replays

variable {Result Again Next Then Element : Type} {again : Result → Again}

theorem pure (again : Result → Again) (result : Result) :
    Replays again (pure result) (pure (again result)) := by
  rintro emission _ _ sound ⟨⟩
  exact ⟨sound, fun store kept => ⟨kept, rfl⟩⟩

theorem liftExcept (result : Except CaptureError Result) :
    Replays id (liftExcept result) (liftExcept result) := by
  intro emission value ended sound ran
  rw [Capture.run_liftExcept] at ran
  cases ran
  refine ⟨sound, fun store kept => ⟨kept, ?_⟩⟩
  rw [Capture.run_liftExcept]
  rfl

theorem bind {work : EmitM Result} {repeated : EmitM Again} {next : Result → EmitM Next}
    {nextRepeated : Again → EmitM Then} {andThen : Next → Then}
    (first : Replays again work repeated)
    (second : ∀ result, Replays andThen (next result) (nextRepeated (again result))) :
    Replays andThen (work >>= next) (repeated >>= nextRepeated) := by
  intro emission value ended sound ran
  obtain ⟨result, middle, done, ran⟩ := Work.run_bind_eq_ok_iff.mp ran
  obtain ⟨soundMiddle, replay⟩ := first emission result middle sound done
  obtain ⟨soundEnded, replayRest⟩ := second result middle value ended soundMiddle ran
  refine ⟨soundEnded, fun store kept => ?_⟩
  obtain ⟨keptMiddle, repeats⟩ := replayRest store kept
  obtain ⟨keptBefore, repeatsFirst⟩ := replay store keptMiddle
  exact ⟨keptBefore, Work.run_bind_eq_ok_iff.mpr ⟨_, _, repeatsFirst, repeats⟩⟩

theorem map {work : EmitM Result} {repeated : EmitM Again} {change : Result → Next}
    {changeAgain : Again → Then} {andThen : Next → Then} (replays : Replays again work repeated)
    (same : ∀ result, changeAgain (again result) = andThen (change result)) :
    Replays andThen (change <$> work) (changeAgain <$> repeated) := by
  rw [map_eq_pure_bind, map_eq_pure_bind]
  refine replays.bind fun result => ?_
  rw [same]
  exact .pure andThen (change result)

theorem mapM {step : Element → EmitM Result} {repeated : Element → EmitM Again}
    (items : List Element)
    (replays : ∀ item ∈ items, Replays again (step item) (repeated item)) :
    Replays (List.map again) (items.mapM step) (items.mapM repeated) := by
  induction items with
  | nil =>
    rw [List.mapM_nil, List.mapM_nil]
    exact .pure (List.map again) []
  | cons item rest inductionHypothesis =>
    rw [List.mapM_cons, List.mapM_cons]
    refine (replays item List.mem_cons_self).bind fun result => ?_
    have others := inductionHypothesis fun other member => replays other (List.mem_cons_of_mem _ member)
    exact others.bind fun results => .pure (List.map again) (result :: results)

theorem foldlM {step : Result → Element → EmitM Result}
    {repeated : Again → Element → EmitM Again} (items : List Element)
    (replays : ∀ result, ∀ item ∈ items, Replays again (step result item)
      (repeated (again result) item)) (start : Result) :
    Replays again (items.foldlM step start) (items.foldlM repeated (again start)) := by
  induction items generalizing start with
  | nil =>
    rw [List.foldlM_nil, List.foldlM_nil]
    exact .pure again start
  | cons item rest inductionHypothesis =>
    rw [List.foldlM_cons, List.foldlM_cons]
    refine (replays start item List.mem_cons_self).bind fun result => ?_
    exact inductionHypothesis (fun other item member => replays other item
      (List.mem_cons_of_mem _ member)) result

/-! ### A pass over files -/

theorem emit? (request : FragmentRequest) :
    Replays (Option.map Fragment.unchanged) (Emission.emit? request) (Emission.emit? request) := by
  rintro ⟨emitter?, before⟩ fragment? ended sound ran
  rw [Emission.run_emit?] at ran
  cases emitter? with
  | none =>
    cases ran
    exact ⟨sound, fun store kept => ⟨kept, Emission.run_emit? _ request⟩⟩
  | some emitter =>
    dsimp only at ran
    split at ran
    case h_2 => cases ran
    case h_1 fragment left answered =>
      cases ran
      obtain ⟨after, left⟩ := left
      obtain ⟨table, rfl⟩ := Emitter.settings_of_emit answered
      have absolute := sound.absolute emitter rfl
      have noSlash := sound.noSlash emitter rfl
      have grows := (Emitter.answers_of_emit sound.rooted answered).grows
      refine ⟨⟨grows.rooted sound.rooted, ?_, ?_⟩, fun store kept => ?_⟩
      · rintro _ ⟨⟩
        exact absolute
      · rintro _ ⟨⟩
        exact noSlash
      obtain ⟨keptBefore, repeats⟩ :=
        Emitter.emit_again sound.rooted absolute noSlash answered (kept.held _ rfl)
      refine ⟨⟨keptBefore.grows, ?_⟩, ?_⟩
      · rintro _ ⟨⟩
        exact keptBefore
      · rw [Emission.run_emit?, Emission.again]
        dsimp only
        rw [Option.map_some]
        dsimp only
        rw [repeats]
        rfl

theorem block? (document : Document) (span : Option Span) (type : TypeRef) (owner : ClassHeader)
    (operand : Expr) :
    Replays (Option.map Capture.unchanged) (Capture.block? document span type owner operand)
      (Capture.block? document span type owner operand) := by
  rw [Capture.block?]
  refine (liftExcept _).bind fun converters => ?_
  cases span with
  | none => exact .pure (Option.map Capture.unchanged) none
  | some span =>
    refine (liftExcept _).bind fun block => (emit? _).bind fun fragment => ?_
    have capture : Capture.ofBlock owner block (fragment.map Fragment.unchanged) =
        (Capture.ofBlock owner block fragment).unchanged := by
      cases fragment with
      | none => rfl
      | some fragment => rfl
    show Replays _ _ (Pure.pure (some (Capture.ofBlock owner block (fragment.map Fragment.unchanged))))
    rw [capture]
    exact .pure (Option.map Capture.unchanged) (some (Capture.ofBlock owner block fragment))

theorem declaration? (document : Document) (declaration : Declaration) :
    Replays (Option.map Capture.unchanged)
      (SourceCapture.liftExcept (Capture.declaration? document declaration))
      (SourceCapture.liftExcept (Capture.declaration? document declaration)) := by
  intro emission found ended sound ran
  rw [Capture.run_liftExcept] at ran
  obtain ⟨taken, rfl⟩ := Prod.mk.inj ran
  refine ⟨sound, fun store kept => ⟨kept, ?_⟩⟩
  rw [Capture.run_liftExcept, taken]
  cases found with
  | none => rfl
  | some capture =>
    obtain ⟨span, excerpt, location, -, -, rfl⟩ := Capture.exists_of_declaration? taken
    rfl

theorem ofItem? (document : Document) (item : Item) :
    Replays (Option.map Capture.unchanged) (Capture.ofItem? document item)
      (Capture.ofItem? document item) := by
  obtain ⟨declared, -, same⟩ | ⟨span, type, owner, operand, -, same⟩ | same :=
    Capture.ofItem?_cases document item
  all_goals rw [same]
  · exact declaration? document declared
  · exact block? document span type owner operand
  · exact .pure (Option.map Capture.unchanged) none

theorem captures (markers : MarkerNames) (symbols : SymbolTable) (file : ParsedFile) :
    Replays FileCaptures.unchanged (file.captures markers symbols)
      (file.captures markers symbols) := by
  rw [ParsedFile.captures_eq]
  refine (mapM _ fun attempt _ => ofItem? attempt.document attempt.item).map fun found => ?_
  refine congrArg (FileCaptures.mk file.document.path file.document.relativePath) ?_
  induction found with
  | nil => rfl
  | cons capture rest inductionHypothesis =>
    cases capture with
    | none => exact inductionHypothesis
    | some capture => exact congrArg (capture.unchanged :: ·) inductionHypothesis

end Replays

/-! ### The report -/

namespace Report

theorem captures_addFile (report : Report) (file : FileCaptures) :
    (report.addFile file).captures = report.captures ++ file.captures := by
  rw [captures, captures, addFile]
  dsimp only
  split
  case isTrue empty => rw [List.isEmpty_iff.mp empty, List.append_nil]
  case isFalse => rw [List.flatMap_append, List.flatMap_singleton]

/-- The fragments of captures that are said to be unchanged. -/
theorem filterMap_fragment_unchanged (captures : List Capture) :
    (captures.map Capture.unchanged).filterMap (·.fragment) =
      (captures.filterMap (·.fragment)).map Fragment.unchanged := by
  rw [List.filterMap_map, List.map_filterMap]
  rfl

theorem unchanged_addFile (report : Report) (file : FileCaptures) :
    report.unchanged.addFile file.unchanged = (report.addFile file).unchanged := by
  have fragments := filterMap_fragment_unchanged file.captures
  have written : (file.unchanged.captures.filterMap (·.fragment)).countP (·.written) = 0 := by
    show ((file.captures.map Capture.unchanged).filterMap _).countP _ = 0
    rw [fragments, List.countP_map]
    exact List.countP_eq_zero.mpr fun fragment _ => Bool.false_ne_true
  have unwritten : (file.unchanged.captures.filterMap (·.fragment)).countP (!·.written) =
      file.captures.countP (·.fragment.isSome) := by
    show ((file.captures.map Capture.unchanged).filterMap _).countP _ = _
    rw [fragments, List.countP_map, ← List.length_filterMap_eq_countP]
    exact List.countP_eq_length.mpr fun fragment _ => rfl
  have total : (report.addFile file).captures.countP (·.fragment.isSome) =
      report.captures.countP (·.fragment.isSome) + file.captures.countP (·.fragment.isSome) := by
    rw [captures_addFile, List.countP_append]
  have files : (if file.unchanged.captures.isEmpty then report.unchanged.files
      else report.unchanged.files ++ [file.unchanged]) =
      (report.addFile file).files.map FileCaptures.unchanged := by
    show (if (file.captures.map Capture.unchanged).isEmpty then _ else _) = _
    rw [List.isEmpty_map, addFile]
    dsimp only
    split
    · rfl
    · rw [List.map_append, List.map_singleton]
      rfl
  rw [addFile, written, unwritten, files]
  show Report.mk _ _ _ (report.captures.countP _ + _) = _
  rw [← total]
  rfl

end Report

/-- A report on files replays as the report in which no fragment had to be written. -/
theorem Replays.reportOf (markers : MarkerNames) (files : List ParsedFile) :
    Replays Report.unchanged (reportOf markers files) (reportOf markers files) := by
  rw [SourceCapture.reportOf]
  refine foldlM files (fun report file _ => ?_) ({} : Report)
  exact (captures markers _ file).map fun found => Report.unchanged_addFile report found

end SourceCapture
