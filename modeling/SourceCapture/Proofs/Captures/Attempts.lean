/-
The capture pass as a sequence of attempts, one for every item of a file in the order in which
the items are met. An attempt yields a capture or nothing, and at most one request to the emitter
is made by it. So a run over files is ended by the first attempt that fails, and what it emitted
until then is what a sequence of requests emits.
-/

import Mathlib.Data.List.ReduceOption
import SourceCapture.Extraction
import SourceCapture.Proofs.Runs
import SourceCapture.Proofs.Traversal

namespace SourceCapture

/-! ### The captures of one file -/

namespace Capture

theorem run_record (document : Document) (item : Item) (taken : List Capture) :
    (record document item).run taken =
      (fun found => ((), taken ++ found.toList)) <$> ofItem? document item := by
  rw [record, StateT.run_bind, map_eq_pure_bind]
  show (ofItem? document item >>= fun found => pure (found, taken)) >>= _ = _
  rw [bind_assoc]
  refine bind_congr fun found => ?_
  rw [pure_bind]
  cases found with
  | none =>
    rw [Option.toList_none, List.append_nil]
    rfl
  | some capture => rfl

theorem run_forM_record (document : Document) (items : List Item) (taken : List Capture) :
    (forM items (record document)).run taken =
      (fun found => ((), taken ++ found.reduceOption)) <$> items.mapM (ofItem? document) := by
  induction items generalizing taken with
  | nil =>
    rw [List.forM_nil, List.mapM_nil, map_pure, List.reduceOption_nil, List.append_nil]
    rfl
  | cons item rest inductionHypothesis =>
    rw [List.forM_cons, StateT.run_bind, run_record, bind_map_left, List.mapM_cons, map_bind]
    refine bind_congr fun found => ?_
    rw [inductionHypothesis, map_bind, map_eq_pure_bind]
    refine bind_congr fun others => ?_
    rw [map_pure, List.append_assoc]
    cases found with
    | none => rfl
    | some capture => rfl

end Capture

/-- The captures of a file are what the attempts at its items yield. -/
theorem capturesOf_eq (document : Document) (file : SourceFile) :
    capturesOf document file =
      List.reduceOption <$> file.items.mapM (Capture.ofItem? document) := by
  rw [capturesOf, SourceFile.walk_eq_forM, Capture.run_forM_record, bind_map_left,
    map_eq_pure_bind]
  refine bind_congr fun found => ?_
  rw [List.nil_append]

/-! ### The captures of all files -/

/-- An item that the pass meets, with the file it is in. -/
structure Attempt where
  document : Document
  item : Item

/-- What an attempt does. -/
def Attempt.run (attempt : Attempt) : EmitM (Option Capture) :=
  Capture.ofItem? attempt.document attempt.item

/-- The attempts at the items of a file. -/
def ParsedFile.attempts (markers : MarkerNames) (symbols : SymbolTable) (file : ParsedFile) :
    List Attempt :=
  (file.lower symbols markers).items.map (Attempt.mk file.document)

/-- The attempts of a run over files, in order. -/
def attemptsOf (markers : MarkerNames) (files : List ParsedFile) : List Attempt :=
  files.flatMap (ParsedFile.attempts markers (symbolsOf markers files))

theorem ParsedFile.captures_eq (markers : MarkerNames) (symbols : SymbolTable)
    (file : ParsedFile) :
    file.captures markers symbols =
      (fun found => ⟨file.document.path, file.document.relativePath, found.reduceOption⟩) <$>
        (file.attempts markers symbols).mapM Attempt.run := by
  rw [captures, capturesOf_eq, attempts, List.mapM_map, bind_map_left, map_eq_pure_bind]
  rfl

/-- But for the report, a run over files is the sequence of its attempts. -/
theorem map_reportOf (markers : MarkerNames) (files : List ParsedFile) :
    (fun _ => ()) <$> reportOf markers files =
      (fun _ => ()) <$> (attemptsOf markers files).mapM Attempt.run := by
  rw [reportOf, attemptsOf]
  generalize symbolsOf markers files = symbols
  generalize ({} : Report) = report
  induction files generalizing report with
  | nil => rfl
  | cons file rest inductionHypothesis =>
    rw [List.foldlM_cons, List.flatMap_cons, List.mapM_append, map_bind, map_bind,
      ParsedFile.captures_eq, bind_map_left, bind_map_left]
    refine bind_congr fun found => ?_
    rw [inductionHypothesis, map_bind, map_eq_pure_bind]
    refine bind_congr fun others => ?_
    rw [map_pure]

theorem run_reportOf_eq_error_iff {markers : MarkerNames} {files : List ParsedFile}
    {emission ended : Emission} {error : CaptureError} :
    (reportOf markers files).run emission = (.error error, ended) ↔
      ((attemptsOf markers files).mapM Attempt.run).run emission = (.error error, ended) :=
  calc
    _ ↔ ((fun _ => ()) <$> reportOf markers files).run emission = (.error error, ended) :=
      Work.run_map_eq_error_iff.symm
    _ ↔ ((fun _ => ()) <$> (attemptsOf markers files).mapM Attempt.run).run emission =
        (.error error, ended) := by
      rw [map_reportOf]
    _ ↔ _ := Work.run_map_eq_error_iff

/-! ### What an attempt does to the files -/

namespace Emission

variable {emission after : Emission} {request : FragmentRequest} {fragment? : Option Fragment}
  {error : CaptureError}

theorem run_emit? (emission : Emission) (request : FragmentRequest) :
    (emit? request).run emission =
      match emission.emitter? with
      | none => (.ok none, emission)
      | some emitter =>
        match (Emitter.emit request).run (emitter, emission.store) with
        | (.ok fragment, left) => (.ok (some fragment), ⟨some left.1, left.2⟩)
        | (.error error, left) => (.error error, ⟨some left.1, left.2⟩) := by
  rw [emit?, Work.run_bind, Work.run_get]
  dsimp only
  cases emission.emitter? with
  | none => rfl
  | some emitter =>
    dsimp only
    obtain ⟨result, left⟩ := (Emitter.emit request).run (emitter, emission.store)
    cases result with
    | ok fragment => rfl
    | error error => rfl

end Emission

namespace Capture

/-- What an attempt that succeeds yields. -/
inductive Yields (document : Document) : Item → Emission → Option Capture → Emission → Prop where
  | nothing (item : Item) (emission : Emission) : Yields document item emission none emission
  | declaration {declaration : Declaration} {capture : Capture} {emission : Emission}
      (taken : declaration? document declaration = .ok (some capture)) :
      Yields document (.declaration declaration) emission (some capture) emission
  | block {span : Span} {type : TypeRef} {owner : ClassHeader} {operand : Expr}
      {converters : Converters} {block : Block} {fragment? : Option Fragment}
      {emission after : Emission}
      (read : readBlock document span type converters operand = .ok block)
      (emits : (Emission.emit? block.request).run emission = (.ok fragment?, after)) :
      Yields document (.expression (.conversion (some span) type owner operand)) emission
        (some (ofBlock owner block fragment?)) after

variable {document : Document} {item : Item} {emission after : Emission}
  {found : Option Capture} {error : CaptureError}

theorem run_liftExcept {Result : Type} (result : Except CaptureError Result)
    (emission : Emission) : (liftExcept result).run emission = (result, emission) := by
  cases result with
  | ok result => rfl
  | error error => rfl

theorem run_liftExcept_bind {Result Next : Type} (result : Except CaptureError Result)
    (next : Result → EmitM Next) (emission : Emission) :
    (liftExcept result >>= next).run emission =
      match result with
      | .ok value => (next value).run emission
      | .error error => (.error error, emission) := by
  rw [Work.run_bind, run_liftExcept]
  cases result with
  | ok result => rfl
  | error error => rfl

theorem yields_of_block? {span : Option Span} {type : TypeRef} {owner : ClassHeader}
    {operand : Expr}
    (ran : (block? document span type owner operand).run emission = (.ok found, after)) :
    Yields document (.expression (.conversion span type owner operand)) emission found after := by
  rw [block?, run_liftExcept_bind] at ran
  split at ran
  case h_2 => cases ran
  case h_1 converters known =>
    cases span with
    | none =>
      cases ran
      exact .nothing _ _
    | some span =>
      dsimp only at ran
      rw [run_liftExcept_bind] at ran
      split at ran
      case h_2 => cases ran
      case h_1 block read =>
        obtain ⟨fragment?, left, emits, ran⟩ := Work.run_bind_eq_ok_iff.mp ran
        cases ran
        exact .block read emits

/-- What an attempt that succeeds has done. -/
theorem yields_of_ofItem? (ran : (ofItem? document item).run emission = (.ok found, after)) :
    Yields document item emission found after := by
  obtain ⟨declaration, rfl, same⟩ | ⟨span, type, owner, operand, rfl, same⟩ | same :=
    ofItem?_cases document item
  all_goals rw [same] at ran
  · rw [run_liftExcept] at ran
    obtain ⟨taken, rfl⟩ := Prod.mk.inj ran
    cases found with
    | none => exact .nothing _ _
    | some capture => exact .declaration taken
  · exact yields_of_block? ran
  · cases ran
    exact .nothing _ _

theorem failed_of_block? {span : Option Span} {type : TypeRef} {owner : ClassHeader}
    {operand : Expr}
    (ran : (block? document span type owner operand).run emission = (.error error, after)) :
    after = emission ∨
      ∃ request, (Emission.emit? request).run emission = (.error error, after) := by
  rw [block?, run_liftExcept_bind] at ran
  split at ran
  case h_2 => exact Or.inl (Prod.mk.inj ran).2.symm
  case h_1 converters known =>
    cases span with
    | none => cases ran
    | some span =>
      dsimp only at ran
      rw [run_liftExcept_bind] at ran
      split at ran
      case h_2 => exact Or.inl (Prod.mk.inj ran).2.symm
      case h_1 block read =>
        rcases Work.run_bind_eq_error_iff.mp ran with failed | ⟨fragment?, left, emits, ran⟩
        · exact Or.inr ⟨block.request, failed⟩
        · cases ran

/-- An attempt that fails without a request has changed nothing. -/
theorem failed_of_ofItem? (ran : (ofItem? document item).run emission = (.error error, after)) :
    after = emission ∨
      ∃ request, (Emission.emit? request).run emission = (.error error, after) := by
  obtain ⟨declaration, -, same⟩ | ⟨span, type, owner, operand, -, same⟩ | same :=
    ofItem?_cases document item
  all_goals rw [same] at ran
  · rw [run_liftExcept] at ran
    exact Or.inl (Prod.mk.inj ran).2.symm
  · exact failed_of_block? ran
  · cases ran

/-! ### What captures are made of -/

/-- A captured declaration is cut out of its file. -/
theorem exists_of_declaration? {declaration : Declaration} {capture : Capture}
    (taken : declaration? document declaration = .ok (some capture)) :
    ∃ span excerpt location, document.excerpt span = .ok excerpt ∧
      document.location excerpt.trimmed = .ok location ∧
        capture = {
          kind := .declaration
          subject := declaration.fqn
          source := ⟨location, String.ofList excerpt.text, ""⟩ } := by
  rw [declaration?] at taken
  split at taken
  case h_2 => cases taken
  case h_1 note =>
    split at taken
    case h_2 => cases taken
    case h_1 annotated declared _ _ =>
      obtain ⟨excerpt, cut, taken⟩ := bind_eq_ok_iff.mp taken
      obtain ⟨location, placed, taken⟩ := bind_eq_ok_iff.mp taken
      cases taken
      exact ⟨_, excerpt, location, cut, placed, rfl⟩

/-- A captured block is cut out of its file. -/
theorem exists_of_readBlock {span : Span} {type : TypeRef} {converters : Converters}
    {operand : Expr} {block : Block}
    (read : readBlock document span type converters operand = .ok block) :
    ∃ inner excerpt, document.excerpt inner = .ok excerpt ∧
      document.location excerpt.trimmed = .ok block.location ∧
        block.request.text = String.ofList excerpt.text := by
  obtain ⟨inner, -, read⟩ := bind_eq_ok_iff.mp read
  obtain ⟨excerpt, cut, read⟩ := bind_eq_ok_iff.mp read
  obtain ⟨location, placed, read⟩ := bind_eq_ok_iff.mp read
  cases read
  exact ⟨inner, excerpt, cut, placed, rfl⟩

/-- Where a capture of a successful pass over a file comes from. -/
theorem exists_yields_of_mem {file : SourceFile} {captures : List Capture} {capture : Capture}
    {Holds : Emission → Prop}
    (preserved : ∀ item before found after, Holds before →
      Yields document item before found after → Holds after)
    (holds : Holds emission) (ran : (capturesOf document file).run emission = (.ok captures, after))
    (member : capture ∈ captures) :
    ∃ item ∈ file.items, ∃ before left, Holds before ∧
      Yields document item before (some capture) left := by
  rw [capturesOf_eq] at ran
  obtain ⟨found, attempts, rfl⟩ := Work.run_map_eq_ok_iff.mp ran
  rw [List.reduceOption_mem_iff] at member
  have step : ∀ before item found after, Holds before →
      (ofItem? document item).run before = (.ok found, after) → Holds after :=
    fun before item found after here ran =>
      preserved item before found after here (yields_of_ofItem? ran)
  obtain ⟨item, inside, before, left, here, ran⟩ := Work.exists_step_of_mem step holds attempts member
  exact ⟨item, inside, before, left, here, yields_of_ofItem? ran⟩

end Capture

/-- An attempt at a declaration without a mark does nothing. -/
theorem Attempt.run_declaration_of_plain {document : Document} {declaration : Declaration}
    {emission : Emission}
    (plain : declaration.annotations.filter (·.marks .captureSource) = []) :
    (Attempt.mk document (.declaration declaration)).run.run emission = (.ok none, emission) := by
  rw [Attempt.run, Capture.ofItem?, Capture.run_liftExcept, Capture.declaration?]
  dsimp only
  rw [plain]

/-! ### Whole runs -/

theorem filesProcessed_of_reportOf {markers : MarkerNames} {files : List ParsedFile}
    {emission ended : Emission} {report : Report}
    (ran : (reportOf markers files).run emission = (.ok report, ended)) :
    report.filesProcessed = files.length := by
  let Holds (done : List ParsedFile) (report : Report) (_ : Emission) : Prop :=
    report.filesProcessed = done.length
  have preserved : ∀ done report before file next after, Holds done report before →
      (report.addFile <$> ParsedFile.captures markers (symbolsOf markers files) file).run before =
        (.ok next, after) → Holds (done ++ [file]) next after := by
    intro done report before file next after counted ran
    obtain ⟨captured, -, rfl⟩ := Work.run_map_eq_ok_iff.mp ran
    show report.filesProcessed + 1 = (done ++ [file]).length
    rw [counted, List.length_append, List.length_singleton]
  have start : Holds [] {} emission := rfl
  exact Work.holds_of_run_foldlM preserved start ran

namespace Extraction

variable {extraction : Extraction} {store after : FileStore} {report : Report}

theorem run_eq_ok_iff : extraction.run store = (.ok report, after) ↔
    ∃ files ended, extraction.parsedFiles store = .ok files ∧ ended.store = after ∧
      (reportOf extraction.markers files).run ⟨extraction.emitter?.map Emitter.forRun, store⟩ =
        (.ok report, ended) := by
  rw [run]
  cases extraction.parsedFiles store with
  | error cause =>
    exact iff_of_false (fun failed => nomatch failed) fun ⟨_, _, failed, _⟩ => nomatch failed
  | ok files =>
    dsimp only
    generalize ran : (reportOf extraction.markers files).run
      ⟨extraction.emitter?.map Emitter.forRun, store⟩ = outcome
    obtain ⟨result, ended⟩ := outcome
    constructor
    · intro yields
      obtain ⟨reported, left⟩ := Prod.mk.inj yields
      rw [mapError_eq_ok_iff.mp reported] at ran
      exact ⟨files, ended, rfl, left, ran⟩
    · rintro ⟨_, last, ⟨⟩, rfl, again⟩
      cases ran.symm.trans again
      rfl

/-- What a run does to the files is what its attempts do. -/
theorem exists_attempts_of_run (ran : extraction.run store = (.ok report, after)) :
    ∃ files taken ended, ((attemptsOf extraction.markers files).mapM Attempt.run).run
      ⟨extraction.emitter?.map Emitter.forRun, store⟩ = (.ok taken, ended) ∧ ended.store = after := by
  obtain ⟨files, ended, -, left, ran⟩ := run_eq_ok_iff.mp ran
  have attempts : ((fun _ => ()) <$> (attemptsOf extraction.markers files).mapM Attempt.run).run
      ⟨extraction.emitter?.map Emitter.forRun, store⟩ = (.ok (), ended) := by
    rw [← map_reportOf]
    exact Work.run_map_eq_ok_iff.mpr ⟨report, ran, rfl⟩
  obtain ⟨taken, attempts, -⟩ := Work.run_map_eq_ok_iff.mp attempts
  exact ⟨files, taken, ended, attempts, left⟩

/-- The report counts the source files. -/
theorem filesProcessed_of_run {entries : List SourceEntry}
    (found : extraction.sourceEntries store = .ok entries)
    (ran : extraction.run store = (.ok report, after)) :
    report.filesProcessed = entries.length := by
  obtain ⟨files, ended, parsed, -, ran⟩ := run_eq_ok_iff.mp ran
  rw [parsedFiles, found] at parsed
  rw [filesProcessed_of_reportOf ran]
  exact length_of_mapM_ok parsed

end Extraction

end SourceCapture
