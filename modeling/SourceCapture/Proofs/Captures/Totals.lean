/-
What the numbers of a report count. The report is filled file by file from what the pass takes of
each, so its totals are those of all files together. Which fragments are written is asked of the
files as they were before the run: the requests for all blocks are one sequence, in which the first
request with each hash decides. For that every hash needs a file of its own, which it has as long
as the extension has no slash.
-/

import Mathlib.Data.Finset.Card
import SourceCapture.Proofs.Captures.LeftOutput
import SourceCapture.Proofs.Captures.SampleRuns
import SourceCapture.Proofs.Captures.WithoutFragments
import SourceCapture.Proofs.Fragments.Directory

namespace SourceCapture

/-! ### A report on the captures of files -/

namespace FileCaptures

/-- The captures of a file without what was emitted for them. -/
def withoutFragments (file : FileCaptures) : FileCaptures :=
  { file with captures := file.captures.map Capture.withoutFragment }

/-- The fragments of the captures of a file. -/
def fragments (file : FileCaptures) : List Fragment := file.captures.filterMap (·.fragment)

/-- The requests for the fragments of the captured blocks of a file. -/
def requests (file : FileCaptures) : List FragmentRequest :=
  file.captures.filterMap (·.request? (file.path.fileName?.getD file.relativePath))

theorem length_requests (file : FileCaptures) :
    file.requests.length = file.captures.countP (·.kind = .block) := by
  rw [requests, List.length_filterMap_eq_countP]
  refine List.countP_congr fun capture _ => ?_
  rw [Capture.request?]
  cases capture.kind <;> simp

theorem length_flatMap_requests (taken : List FileCaptures) :
    (taken.flatMap requests).length = (taken.flatMap (·.captures)).countP (·.kind = .block) := by
  induction taken with
  | nil => rfl
  | cons file rest inductionHypothesis =>
    rw [List.flatMap_cons, List.flatMap_cons, List.length_append, List.countP_append,
      length_requests, inductionHypothesis]

theorem requests_of_captures_nil (file : FileCaptures) (empty : file.captures = []) :
    file.requests = [] := by
  rw [requests, empty, List.filterMap_nil]

/-- Captures that have nothing to take off have no fragments. -/
theorem fragments_eq_nil_of_withoutFragments {file : FileCaptures}
    (bare : file.withoutFragments = file) : file.fragments = [] := by
  rw [← bare, fragments, withoutFragments, List.filterMap_map]
  exact List.filterMap_eq_nil_iff.mpr fun _ _ => rfl

end FileCaptures

namespace Report

/-- The requests for the fragments of the blocks in a report. -/
def requests (report : Report) : List FragmentRequest := report.files.flatMap (·.requests)

theorem countP_written_add_unwritten (fragments : List Fragment) :
    fragments.countP (·.written) + fragments.countP (!·.written) = fragments.length := by
  rw [List.length_eq_countP_add_countP (·.written)]
  simp

theorem foldl_addFile (taken : List FileCaptures) (report : Report) :
    taken.foldl addFile report = {
      files := report.files ++ taken.filter (!·.captures.isEmpty)
      filesProcessed := report.filesProcessed + taken.length
      fragmentsWritten :=
        report.fragmentsWritten + (taken.flatMap (·.fragments)).countP (·.written)
      fragmentsUnchanged :=
        report.fragmentsUnchanged + (taken.flatMap (·.fragments)).countP (!·.written) } := by
  induction taken generalizing report with
  | nil => rw [List.foldl_nil, List.filter_nil, List.append_nil]; rfl
  | cons file rest inductionHypothesis =>
    rw [List.foldl_cons, inductionHypothesis, addFile, List.flatMap_cons, List.countP_append,
      List.countP_append, List.length_cons, List.filter_cons]
    dsimp only
    congr 1
    · cases file.captures.isEmpty with
      | true => rfl
      | false =>
        rw [if_neg Bool.false_ne_true, List.append_assoc]
        rfl
    · omega
    · exact Nat.add_assoc _ _ _
    · exact Nat.add_assoc _ _ _

/-- What is counted by passing over the captures of all files is found in the files that are
reported. -/
theorem flatMap_filter_captures {Part : Type} (part : FileCaptures → List Part)
    (taken : List FileCaptures) (nothing : ∀ file, file.captures = [] → part file = []) :
    (taken.filter (!·.captures.isEmpty)).flatMap part = taken.flatMap part := by
  induction taken with
  | nil => rfl
  | cons file rest inductionHypothesis =>
    rw [List.filter_cons, List.flatMap_cons, ← inductionHypothesis]
    split
    · rw [List.flatMap_cons]
    case isFalse empty =>
      have isEmpty : file.captures = [] := by simpa using empty
      rw [nothing file isEmpty, List.nil_append]

end Report

theorem reportOf_eq (markers : MarkerNames) (files : List ParsedFile) :
    reportOf markers files = (fun taken => taken.foldl Report.addFile {}) <$>
      files.mapM (ParsedFile.captures markers (symbolsOf markers files)) := by
  rw [reportOf]
  generalize symbolsOf markers files = symbols
  generalize ({} : Report) = report
  induction files generalizing report with
  | nil => rw [List.foldlM_nil, List.mapM_nil, map_pure, List.foldl_nil]
  | cons file rest inductionHypothesis =>
    rw [List.foldlM_cons, List.mapM_cons, map_bind, bind_map_left]
    refine bind_congr fun captured => ?_
    rw [inductionHypothesis, map_bind, map_eq_pure_bind]
    refine bind_congr fun others => ?_
    rw [map_pure, List.foldl_cons]

/-! ### The captures of files with and without fragments -/

theorem Mirrors.captures (markers : MarkerNames) (symbols : SymbolTable) (file : ParsedFile) :
    Mirrors FileCaptures.withoutFragments (file.captures markers symbols)
      (file.captures markers symbols) := by
  rw [ParsedFile.captures]
  exact (Mirrors.capturesOf _ _).bind fun captures => .pure FileCaptures.withoutFragments
    ⟨file.document.path, file.document.relativePath, captures⟩

/-- Whether some captures are those of a file, but for the fragments: a pass over the file that
emits nothing takes the same. -/
def ParsedFile.Takes (markers : MarkerNames) (symbols : SymbolTable) (file : ParsedFile)
    (captured : FileCaptures) : Prop :=
  ∀ store, (file.captures markers symbols).run ⟨none, store⟩ =
    (.ok captured.withoutFragments, ⟨none, store⟩)

section

variable {markers : MarkerNames} {symbols : SymbolTable} {files : List ParsedFile}
  {taken : List FileCaptures} {emission ended : Emission}

theorem takes_of_run_mapM
    (ran : (files.mapM (ParsedFile.captures markers symbols)).run emission = (.ok taken, ended)) :
    List.Forall₂ (ParsedFile.Takes markers symbols) files taken := by
  induction files generalizing emission taken with
  | nil =>
    cases ran
    exact .nil
  | cons file rest inductionHypothesis =>
    obtain ⟨captured, middle, others, first, later, rfl⟩ := Work.run_mapM_cons_eq_ok_iff.mp ran
    refine .cons (fun store => ?_) (inductionHypothesis later)
    have noWrite : ∀ error, ((file.captures markers symbols).run emission).1 = .error error →
        ¬ error.IsWrite := by
      rw [first]
      exact fun _ => nofun
    rw [Mirrors.captures markers symbols file emission store noWrite, first]
    rfl

/-- Without an emitter there are no fragments. -/
theorem fragments_of_run_mapM {store : FileStore}
    (ran : (files.mapM (ParsedFile.captures markers symbols)).run ⟨none, store⟩ =
      (.ok taken, ended)) : taken.flatMap (·.fragments) = [] := by
  induction files generalizing taken with
  | nil =>
    cases ran
    rfl
  | cons file rest inductionHypothesis =>
    have takes := takes_of_run_mapM ran
    obtain ⟨captured, middle, others, first, later, rfl⟩ := Work.run_mapM_cons_eq_ok_iff.mp ran
    have bare := (List.forall₂_cons.mp takes).1 store
    rw [first] at bare
    obtain ⟨same, rfl⟩ := Prod.mk.inj bare
    rw [List.flatMap_cons, inductionHypothesis later, List.append_nil]
    exact FileCaptures.fragments_eq_nil_of_withoutFragments (Except.ok.inj same).symm

/-- The requests of one file, read off its captures. -/
theorem requestsOf_attempts {file : ParsedFile} {found : List (Option Capture)}
    (same : found.length = (file.attempts markers symbols).length) :
    requestsOf (file.attempts markers symbols) found =
      FileCaptures.requests
        ⟨file.document.path, file.document.relativePath, found.reduceOption⟩ := by
  rw [ParsedFile.attempts] at same ⊢
  generalize (file.lower symbols markers).items = items at same ⊢
  rw [List.length_map] at same
  show _ = found.reduceOption.filterMap (·.request? file.document.fileName)
  induction items generalizing found with
  | nil =>
    rw [List.eq_nil_of_length_eq_zero same]
    rfl
  | cons item rest inductionHypothesis =>
    cases found with
    | nil => cases same
    | cons capture others =>
      have further := inductionHypothesis (Nat.succ.inj same)
      rw [List.map_cons]
      cases capture with
      | none =>
        rw [requestsOf_cons_none rfl, further, List.reduceOption_cons_of_none]
      | some capture =>
        rw [List.reduceOption_cons_of_some, List.filterMap_cons, ← further]
        have asks : (some capture).bind (·.request? file.document.fileName) =
            capture.request? file.document.fileName := rfl
        cases request? : capture.request? file.document.fileName with
        | none => rw [requestsOf_cons_none (asks.trans request?)]
        | some request => rw [requestsOf_cons_some (asks.trans request?)]

/-- What the passes over files emit is what the requests for their blocks emit. -/
theorem run_requests_of_run_mapM {emitter : Emitter} {store : FileStore}
    (ran : (files.mapM (ParsedFile.captures markers symbols)).run ⟨some emitter, store⟩ =
      (.ok taken, ended)) :
    ∃ left : Emitter × FileStore,
      ((taken.flatMap (·.requests)).mapM Emitter.emit).run (emitter, store) =
        (.ok (taken.flatMap (·.fragments)), left) ∧ ended = ⟨some left.1, left.2⟩ := by
  induction files generalizing emitter store taken with
  | nil =>
    cases ran
    exact ⟨(emitter, store), rfl, rfl⟩
  | cons file rest inductionHypothesis =>
    obtain ⟨captured, middle, others, first, later, rfl⟩ := Work.run_mapM_cons_eq_ok_iff.mp ran
    rw [ParsedFile.captures_eq] at first
    obtain ⟨found, attempts, rfl⟩ := Work.run_map_eq_ok_iff.mp first
    obtain ⟨left, answered, rfl⟩ := run_requestsOf attempts
    obtain ⟨last, further, rfl⟩ := inductionHypothesis later
    refine ⟨last, ?_, rfl⟩
    rw [requestsOf_attempts (Work.length_of_run_mapM attempts)] at answered
    have fragments : fragmentsOf found = FileCaptures.fragments
        ⟨file.document.path, file.document.relativePath, found.reduceOption⟩ := by
      rw [fragmentsOf, FileCaptures.fragments, List.reduceOption, List.filterMap_filterMap]
      rfl
    rw [fragments] at answered
    exact Work.run_mapM_append_eq_ok answered further

end

/-! ### Fragments whose files had to be written -/

/-- Whether the file of a hash was absent or had other bytes before some requests than the first
request with that hash has put there. -/
def Emitter.WasStale (emitter : Emitter) (store after : FileStore)
    (requests : List FragmentRequest) (hash : String) : Prop :=
  ∃ request place, requests.find? (fun other => fragmentHash other.text = hash) = some request ∧
    after.place? (emitter.fragmentOf hash false).path = some place ∧
      store.bytesAt? place ≠ some request.render.toUTF8

/-- Whether no request before has the hash, and the first of the requests that has it meets a
condition. -/
def MeetsFirst (Meets : FragmentRequest → Prop) (before requests : List FragmentRequest)
    (hash : String) : Prop :=
  (∀ other ∈ before, fragmentHash other.text ≠ hash) ∧
    ∃ request, requests.find? (fun other => fragmentHash other.text = hash) = some request ∧
      Meets request

section

variable {Meets : FragmentRequest → Prop} {before requests rest : List FragmentRequest}
  {request : FragmentRequest} {hash : String}

theorem not_meetsFirst_nil : ¬MeetsFirst Meets before [] hash := by
  rintro ⟨-, request, ⟨⟩, -⟩

theorem not_meetsFirst_of_mem (member : request ∈ before) :
    ¬MeetsFirst Meets before requests (fragmentHash request.text) :=
  fun meets => meets.1 request member rfl

theorem meetsFirst_cons_self :
    MeetsFirst Meets before (request :: rest) (fragmentHash request.text) ↔
      (∀ other ∈ before, fragmentHash other.text ≠ fragmentHash request.text) ∧
        Meets request := by
  have found : (request :: rest).find?
      (fun other => fragmentHash other.text = fragmentHash request.text) = some request :=
    List.find?_cons_of_pos (decide_eq_true rfl)
  simp only [MeetsFirst, found, Option.some.injEq, exists_eq_left']

theorem meetsFirst_cons_of_ne (differs : hash ≠ fragmentHash request.text) :
    MeetsFirst Meets before (request :: rest) hash ↔
      MeetsFirst Meets (before ++ [request]) rest hash := by
  rw [MeetsFirst, MeetsFirst, List.find?_cons_of_neg (by simpa using differs.symm),
    List.forall_mem_append, List.forall_mem_singleton, and_iff_left differs.symm]

/-- If a fragment is written just when its request is the first one with its hash and a condition
holds of that request, then as many are written as there are hashes whose first request meets the
condition. The requests `before` have been made already. -/
theorem exists_card_eq_countP (Meets : FragmentRequest → Prop) (before : List FragmentRequest)
    {fragments : List Fragment} (same : fragments.length = requests.length)
    (written : ∀ index request fragment, requests[index]? = some request →
      fragments[index]? = some fragment → (fragment.written = true ↔
        (∀ other ∈ before ++ requests.take index,
          fragmentHash other.text ≠ fragmentHash request.text) ∧ Meets request)) :
    ∃ hashes : Finset String, (∀ hash, hash ∈ hashes ↔ MeetsFirst Meets before requests hash) ∧
      fragments.countP (·.written) = hashes.card := by
  induction requests generalizing before fragments with
  | nil =>
    rw [List.eq_nil_of_length_eq_zero same]
    exact ⟨∅, fun hash => iff_of_false (Finset.notMem_empty hash) not_meetsFirst_nil, rfl⟩
  | cons request rest inductionHypothesis =>
    cases fragments with
    | nil => cases same
    | cons fragment others =>
      have here : fragment.written = true ↔
          MeetsFirst Meets before (request :: rest) (fragmentHash request.text) := by
        rw [written 0 request fragment rfl rfl, List.take_zero, List.append_nil,
          meetsFirst_cons_self]
      obtain ⟨hashes, counted, card⟩ := inductionHypothesis (before ++ [request])
        (Nat.succ.inj same) fun index other unit asked answered => by
          rw [List.append_assoc, List.singleton_append, ← List.take_succ_cons]
          exact written (index + 1) other unit asked answered
      have fresh : fragmentHash request.text ∉ hashes := fun member =>
        not_meetsFirst_of_mem List.mem_concat_self ((counted _).mp member)
      cases wrote : fragment.written with
      | true =>
        refine ⟨insert (fragmentHash request.text) hashes, fun hash => ?_, ?_⟩
        · rw [Finset.mem_insert]
          by_cases equal : hash = fragmentHash request.text
          · rw [equal]
            exact iff_of_true (Or.inl rfl) (here.mp wrote)
          · rw [or_iff_right equal, counted, meetsFirst_cons_of_ne equal]
        · rw [List.countP_cons_of_pos wrote, Finset.card_insert_of_notMem fresh, card]
      | false =>
        refine ⟨hashes, fun hash => ?_, ?_⟩
        · by_cases equal : hash = fragmentHash request.text
          · rw [equal]
            refine iff_of_false fresh fun meets => ?_
            rw [here.mpr meets] at wrote
            cases wrote
          · rw [counted, meetsFirst_cons_of_ne equal]
        · rw [List.countP_cons_of_neg (by rw [wrote]; exact Bool.false_ne_true), card]

end

namespace Emitter

/-- The file of the first request with a hash had other bytes before just if the file of the hash
was stale. -/
theorem wasStale_iff {emitter : Emitter} {store after : FileStore}
    {requests : List FragmentRequest} {hash : String} :
    emitter.WasStale store after requests hash ↔ ∃ request,
      requests.find? (fun other => fragmentHash other.text = hash) = some request ∧
        ∃ place, after.place? (emitter.pathOf request.text) = some place ∧
          store.bytesAt? place ≠ some request.render.toUTF8 := by
  refine exists_congr fun request => ?_
  rw [exists_and_left]
  refine and_congr_right fun first => ?_
  have same : fragmentHash request.text = hash := by simpa using List.find?_some first
  rw [pathOf, same]

/-- As many fragments are written as there are hashes whose files were stale. -/
theorem exists_card_wasStale {emitter : Emitter} {store : FileStore}
    {requests : List FragmentRequest} {fragments : List Fragment} {state : Emitter × FileStore}
    (rooted : store.Rooted) (noSlash : '/' ∉ emitter.fragmentExtension.toList)
    (ran : (requests.mapM emit).run (emitter.forRun, store) = (.ok fragments, state)) :
    ∃ hashes : Finset String,
      (∀ hash, hash ∈ hashes ↔ emitter.WasStale store state.2 requests hash) ∧
        fragments.countP (·.written) = hashes.card := by
  have emitted := emitted_of_mapM rooted ran
  have lengths := emitted.answered.length_eq
  obtain ⟨hashes, counted, card⟩ := exists_card_eq_countP
    (fun request => ∃ place, state.2.place? (emitter.pathOf request.text) = some place ∧
      store.bytesAt? place ≠ some request.render.toUTF8) [] lengths.symm
    fun index request fragment asked answered => by
      obtain ⟨inside, rfl⟩ := List.getElem?_eq_some_iff.mp asked
      obtain ⟨answers, rfl⟩ := List.getElem?_eq_some_iff.mp answered
      have unit := emitted.answered.get inside answers
      obtain ⟨place, here, written⟩ := rightlyWritten_of_mapM rooted noSlash ran asked answered
      rw [List.get_eq_getElem, List.get_eq_getElem] at unit
      have path : fragments[index].path = emitter.pathOf requests[index].text := by
        rw [unit]
        rfl
      rw [path] at here
      rw [List.nil_append, written, here]
      simp only [Option.some.injEq, exists_eq_left']
  refine ⟨hashes, fun hash => ?_, card⟩
  rw [counted, MeetsFirst, wasStale_iff]
  exact and_iff_right fun _ member => nomatch member

end Emitter

/-! ### The totals of a run -/

/-- Whether the numbers of a report are the totals of a run, in which `taken` are the captures of
the source files. -/
structure Report.Tallies (report : Report) (extraction : Extraction) (store : FileStore)
    (entries : List SourceEntry) (taken : List FileCaptures) : Prop where
  found : extraction.sourceEntries store = .ok entries
  captured : ∃ files, entries.mapM (extraction.readEntry store) = .ok files ∧
    List.Forall₂ (ParsedFile.Takes extraction.markers (symbolsOf extraction.markers files))
      files taken
  processed : report.filesProcessed = entries.length
  files : report.files = taken.filter (!·.captures.isEmpty)
  total : report.captureCount = (taken.flatMap (·.captures)).length
  fragments : report.fragmentsWritten + report.fragmentsUnchanged =
    if extraction.emitter?.isSome then
      (taken.flatMap (·.captures)).countP (·.kind = .block)
    else 0

/-- The report of a run that succeeds counts the source files, lists those of them with captures
in order, and counts the captures. If fragments are emitted, there is one for every block, and as
many are written as there are hashes among them whose files were absent or had other bytes. -/
theorem tallies_of_run {extraction : Extraction} {store after : FileStore} {report : Report}
    (rooted : store.Rooted) (ran : extraction.run store = (.ok report, after)) :
    (∃ entries taken, report.Tallies extraction store entries taken) ∧
      ∀ emitter, extraction.emitter? = some emitter → '/' ∉ emitter.fragmentExtension.toList →
        ∃ hashes : Finset String,
          (∀ hash, hash ∈ hashes ↔ emitter.WasStale store after report.requests hash) ∧
            report.fragmentsWritten = hashes.card := by
  obtain ⟨files, ended, parsed, rfl, reported⟩ := Extraction.run_eq_ok_iff.mp ran
  obtain ⟨entries, found, readAll⟩ := bind_eq_ok_iff.mp parsed
  rw [reportOf_eq] at reported
  obtain ⟨taken, passes, rfl⟩ := Work.run_map_eq_ok_iff.mp reported
  rw [Report.foldl_addFile]
  simp only [List.nil_append, Nat.zero_add]
  refine ⟨⟨entries, taken, found, ⟨files, readAll, takes_of_run_mapM passes⟩, ?_, rfl, ?_, ?_⟩, ?_⟩
  · show taken.length = entries.length
    rw [Work.length_of_run_mapM passes, length_of_mapM_ok readAll]
  · rw [Report.captureCount, Report.captures,
      Report.flatMap_filter_captures _ _ fun _ empty => empty]
  · show (taken.flatMap (·.fragments)).countP _ + (taken.flatMap (·.fragments)).countP _ = _
    rw [Report.countP_written_add_unwritten]
    cases uses : extraction.emitter? with
    | none =>
      rw [uses] at passes
      rw [fragments_of_run_mapM passes]
      rfl
    | some emitter =>
      rw [uses] at passes
      obtain ⟨left, answered, -⟩ := run_requests_of_run_mapM passes
      rw [Work.length_of_run_mapM answered, FileCaptures.length_flatMap_requests]
      rfl
  · intro emitter uses noSlash
    rw [uses] at passes
    obtain ⟨left, answered, rfl⟩ := run_requests_of_run_mapM passes
    rw [Report.requests, Report.flatMap_filter_captures _ _ FileCaptures.requests_of_captures_nil]
    exact Emitter.exists_card_wasStale rooted noSlash answered

/-! ### A script with three blocks -/

/-- A run over a single file yields what the attempts at its items yield. -/
theorem Extraction.run_of_attempts {extraction : Extraction} {store : FileStore}
    {file : ParsedFile} {taken : List (Option Capture)} {ended : Emission}
    (parsed : extraction.parsedFiles store = .ok [file])
    (ran : ((file.attempts extraction.markers (symbolsOf extraction.markers [file])).mapM
      Attempt.run).run ⟨extraction.emitter?.map Emitter.forRun, store⟩ = (.ok taken, ended)) :
    extraction.run store = (.ok (({} : Report).addFile
      ⟨file.document.path, file.document.relativePath, taken.reduceOption⟩), ended.store) := by
  refine run_eq_ok_iff.mpr ⟨[file], ended, parsed, rfl, ?_⟩
  rw [reportOf_eq]
  refine Work.run_map_eq_ok_iff.mpr ⟨[_], ?_, rfl⟩
  refine Work.run_mapM_cons_eq_ok_iff.mpr ⟨_, ended, [], ?_, rfl, rfl⟩
  rw [ParsedFile.captures_eq]
  exact Work.run_map_eq_ok_iff.mpr ⟨taken, ran, rfl⟩

theorem Extraction.parsedFiles_singleton {extraction : Extraction} {store : FileStore}
    {pattern : String} {path : Path} {frontend : Frontend} {file : ParsedFile}
    (patterns : extraction.patterns = [(pattern, frontend)])
    (found : store.search pattern.toList = .ok [path])
    (included : extraction.leavesOut path = false)
    (read : extraction.readEntry store ⟨path, frontend⟩ = .ok file) :
    extraction.parsedFiles store = .ok [file] := by
  have entries : extraction.sourceEntries store = .ok [⟨path, frontend⟩] := by
    refine bind_eq_ok_iff.mpr ⟨[[⟨path, frontend⟩]], ?_, ?_⟩
    · rw [patterns, List.mapM_cons, List.mapM_nil, matching, found]
      rfl
    · dsimp only
      rw [List.flatten_singleton, List.filter_cons_of_pos (by rw [included]; rfl), List.filter_nil,
        List.mergeSort_singleton]
      rfl
  refine bind_eq_ok_iff.mpr ⟨_, entries, ?_⟩
  rw [List.mapM_cons, List.mapM_nil, read]
  rfl

/-- Three blocks, of which the first and the last have the same text. -/
def blocksContent : List Char :=
  ["import com.github.tarcv.kotbridge.*\n", "fun interface A : Capturable<A>\n",
    "A \x7b 1 \x7d\n", "A \x7b 2 \x7d\n", "A \x7b 1 \x7d\n"].flatMap String.toList

def blocksTree : Tree :=
  .branch "source_file" 0 92 [
    .wholeLibraryImport 0, .capturableInterface 36 36 [], .blockCall 68, .blockCall 76,
    .blockCall 84]

def blocksFile : ParsedFile where
  document := .ofFile scriptPath (Text.normalizeNewlines blocksContent) ⟨"/p"⟩
  root := blocksTree

def blocksSite : Site := blocksFile.site (symbolsOf {} [blocksFile]) {}

def blocksOwner : ClassHeader :=
  (blocksSite.functionalInterface? "A").getD ⟨"", "", .plain, [], [], []⟩

/-- The attempts at the blocks of the script. -/
def blocksAttempts : List Attempt :=
  ([70, 78, 86].flatMap fun start => [
    Item.expression (.blockConversion "A" blocksOwner start),
    Item.expression (.lambda (some ⟨start, start + 5⟩) [])]).map (Attempt.mk blocksFile.document)

set_option maxRecDepth 10000 in
theorem expr?_blockCall_blocksSite : ∀ start ∈ [68, 76, 84], blocksSite.expr? (.blockCall start) =
    some (.blockConversion "A" blocksOwner (start + 2)) := by
  have called : (∀ start ∈ [68, 76, 84],
      Tree.identifierName blocksSite.content (.leaf "identifier" start (start + 1)) = "A") ∧
        FileScope.looksLikeClass "A" = true ∧ blocksSite.resolveClass "A" = "A" ∧
          (blocksSite.functionalInterface? "A").isSome = true := by
    decide +kernel
  obtain ⟨named, isClass, resolved, isKnown⟩ := called
  have known : blocksSite.functionalInterface? "A" = some blocksOwner := by
    obtain ⟨owner, found⟩ := Option.isSome_iff_exists.mp isKnown
    rw [blocksOwner, found]
    rfl
  exact fun start place => Site.expr?_blockCall (named start place) isClass resolved known

set_option maxRecDepth 10000 in
theorem attempts_blocksFile : ∃ header : ClassHeader,
    header.annotations.filter (·.marks .captureSource) = [] ∧
      blocksFile.attempts {} (symbolsOf {} [blocksFile]) =
        ⟨blocksFile.document, .declaration (.classLike header (some ⟨36, 67⟩) [] [])⟩ ::
          blocksAttempts := by
  have unmarked : (ClassHeader.ofTree? blocksSite (.capturableInterface 36 36 [])).map
      (fun written => (blocksSite.knownHeader written).annotations.filter
        (·.marks .captureSource)) = some [] := by
    decide +kernel
  obtain ⟨header, plain, declared⟩ := Site.declaration?_capturableInterface unmarked rfl rfl
  have declarations : (SourceFile.ofTree blocksSite blocksTree).declarations =
      [.classLike header (some ⟨36, 67⟩) [] []] := by
    show [_].filterMap blocksSite.declaration? = _
    rw [List.filterMap_cons_some declared]
    rfl
  have converted := expr?_blockCall_blocksSite
  have statements : (SourceFile.ofTree blocksSite blocksTree).statements =
      [.blockConversion "A" blocksOwner 70, .blockConversion "A" blocksOwner 78,
        .blockConversion "A" blocksOwner 86] := by
    show [_, _, _].filterMap blocksSite.expr? = _
    rw [List.filterMap_cons_some (converted 68 (by decide)),
      List.filterMap_cons_some (converted 76 (by decide)),
      List.filterMap_cons_some (converted 84 (by decide))]
    rfl
  refine ⟨header, plain, ?_⟩
  show (itemsOfDeclarations (SourceFile.ofTree blocksSite blocksTree).declarations ++
    itemsOfExprs (SourceFile.ofTree blocksSite blocksTree).statements).map _ = _
  rw [declarations, statements]
  rfl

/-- The request for the block on a line of the script. -/
def blocksRequest (text : String) (line : Nat) : FragmentRequest :=
  ⟨text, [], {}, [], s!"A.kts:{line}"⟩

/-- A run over the script, with other files beside it. -/
structure BlocksRun where
  fragmentExtension : String
  others : List (Place × FileEntry)

namespace BlocksRun

def emitter (run : BlocksRun) : Emitter where
  outDir := ⟨"/out"⟩
  fragmentExtension := run.fragmentExtension

def extraction (run : BlocksRun) : Extraction where
  projectDir := ⟨"/p"⟩
  emitter? := some run.emitter
  sourceRoots := ["src"]
  exclusions := []
  markers := {}
  frontends := [⟨["kts"], fun _ => blocksTree⟩]

/-- The files before the run. -/
def store (run : BlocksRun) : FileStore where
  root := run.others.foldl (fun root other => root.put other.1 other.2)
    (FileEntry.emptyFolder.put ["p", "src", "A.kts"] (.file (String.ofList blocksContent).toUTF8))

/-- What the attempts at the blocks of the script yield. -/
def outcome (run : BlocksRun) : Except CaptureError (List (Option Capture)) × Emission :=
  (blocksAttempts.mapM Attempt.run).run ⟨some run.emitter.forRun, run.store⟩

def report (taken : List (Option Capture)) : Report :=
  ({} : Report).addFile
    ⟨blocksFile.document.path, blocksFile.document.relativePath, taken.reduceOption⟩

variable {run : BlocksRun} {taken : List (Option Capture)} {ended : Emission}

set_option maxRecDepth 10000 in
theorem run_eq (found : run.store.search "/p/src/**/*.kts".toList = .ok [scriptPath])
    (text : run.store.readText scriptPath = .ok (String.ofList blocksContent))
    (ran : run.outcome = (.ok taken, ended)) :
    run.extraction.run run.store = (.ok (report taken), ended.store) := by
  have pattern : (Path.join ⟨"/p"⟩ "src").text ++ "/**/*." ++ "kts" = "/p/src/**/*.kts" := by
    decide
  have patterns : run.extraction.patterns =
      [("/p/src/**/*.kts", ⟨["kts"], fun _ => blocksTree⟩)] := by
    rw [← pattern]
    rfl
  have read : run.extraction.readEntry run.store ⟨scriptPath, ⟨["kts"], fun _ => blocksTree⟩⟩ =
      .ok blocksFile := by
    rw [Extraction.readEntry, text]
    dsimp only
    rw [String.toList_ofList]
    rfl
  obtain ⟨header, plain, attempts⟩ := attempts_blocksFile
  have attempted : ((blocksFile.attempts {} (symbolsOf {} [blocksFile])).mapM Attempt.run).run
      ⟨some run.emitter.forRun, run.store⟩ = (.ok (none :: taken), ended) := by
    rw [attempts]
    exact Work.run_mapM_cons_eq_ok_iff.mpr
      ⟨none, _, taken, Attempt.run_declaration_of_plain plain, ran, rfl⟩
  have whole := Extraction.run_of_attempts
    (Extraction.parsedFiles_singleton patterns found rfl read) attempted
  exact whole

/-- Whether the script is what is found, the requests for its blocks are answered, and that many
of their files are written. -/
def Writes (run : BlocksRun) (count : Nat) : Prop :=
  run.store.search "/p/src/**/*.kts".toList = .ok [scriptPath] ∧
    run.store.readText scriptPath = .ok (String.ofList blocksContent) ∧
      run.outcome.1.toOption.any (fun taken =>
        (report taken).requests =
            [blocksRequest "1" 3, blocksRequest "2" 4, blocksRequest "1" 5] ∧
          (report taken).fragmentsWritten = count ∧
            (report taken).fragmentsUnchanged = 3 - count) = true

instance (run : BlocksRun) (count : Nat) : Decidable (run.Writes count) :=
  inferInstanceAs (Decidable (_ ∧ _ ∧ _))

theorem Writes.exists_run {count : Nat} (writes : run.Writes count) : ∃ report,
    run.extraction.run run.store = (.ok report, run.outcome.2.store) ∧
      report.requests = [blocksRequest "1" 3, blocksRequest "2" 4, blocksRequest "1" 5] ∧
        report.fragmentsWritten = count ∧ report.fragmentsUnchanged = 3 - count := by
  obtain ⟨found, text, outcome⟩ := writes
  cases ran : run.outcome with
  | mk result ended =>
    rw [ran] at outcome
    cases result with
    | error error => cases outcome
    | ok taken => exact ⟨report taken, run_eq found text ran, of_decide_eq_true outcome⟩

/-- The file of the second block is there. -/
def plain : BlocksRun where
  fragmentExtension := "kt"
  others := [(["out", fragmentHash "2" ++ ".kt"], .file (blocksRequest "2" 4).render.toUTF8)]

/-- The files of both texts are one, and hold what is put there for the second block. -/
def slashes : BlocksRun where
  fragmentExtension := "/../x"
  others := [(["out", fragmentHash "1" ++ "."], .emptyFolder),
    (["out", fragmentHash "2" ++ "."], .emptyFolder),
    (["out", "x"], .file (blocksRequest "2" 4).render.toUTF8)]

theorem plain_tallies : plain.store.Rooted ∧ ∃ report after,
    plain.extraction.run plain.store = (.ok report, after) ∧
      report.fragmentsWritten = 1 ∧ report.fragmentsUnchanged = 2 ∧
      (∃ entries taken, report.Tallies plain.extraction plain.store entries taken) ∧
      ∃ hashes : Finset String,
        (∀ hash, hash ∈ hashes ↔
          plain.emitter.WasStale plain.store after report.requests hash) ∧
        report.fragmentsWritten = hashes.card := by
  have writes : plain.Writes 1 := by decide +kernel
  obtain ⟨report, ran, -, written, unchanged⟩ := writes.exists_run
  have rooted : plain.store.Rooted := ⟨_, rfl⟩
  obtain ⟨tallies, stale⟩ := tallies_of_run rooted ran
  exact ⟨rooted, report, _, ran, written, unchanged, tallies, stale _ rfl (by decide)⟩

end BlocksRun

/-- It is not so that for every extension as many fragments are written as there are hashes whose
files were stale: where all hashes lead to one file, the blocks write it in turns. -/
theorem fragmentsWritten_ne_card_wasStale :
    ¬ ∀ (extraction : Extraction) (emitter : Emitter) (store after : FileStore) (report : Report),
      store.Rooted → extraction.emitter? = some emitter →
      extraction.run store = (.ok report, after) → ∃ hashes : Finset String,
        (∀ hash, hash ∈ hashes ↔ emitter.WasStale store after report.requests hash) ∧
          report.fragmentsWritten = hashes.card := by
  intro claim
  have checked : BlocksRun.slashes.Writes 2 ∧
      BlocksRun.slashes.outcome.2.store.place?
        (BlocksRun.slashes.emitter.fragmentOf (fragmentHash "2") false).path = some ["out", "x"] ∧
      BlocksRun.slashes.store.bytesAt? ["out", "x"] =
        some (blocksRequest "2" 4).render.toUTF8 := by
    decide +kernel
  obtain ⟨writes, place, bytes⟩ := checked
  obtain ⟨report, ran, requests, written, -⟩ := writes.exists_run
  obtain ⟨hashes, stale, card⟩ := claim _ _ _ _ report ⟨_, rfl⟩ rfl ran
  have one : hashes ⊆ {fragmentHash "1"} := by
    intro hash member
    rw [Finset.mem_singleton]
    obtain ⟨request, found, first, there, differs⟩ := (stale hash).mp member
    rw [requests] at first
    by_contra other
    -- What is put there for the second block was there before.
    have second : request = blocksRequest "2" 4 := by
      rw [List.find?_cons_of_neg (by simpa [blocksRequest] using Ne.symm other)] at first
      by_cases same : fragmentHash "2" = hash
      · rw [List.find?_cons_of_pos (by simpa [blocksRequest] using same)] at first
        exact (Option.some.inj first).symm
      · rw [List.find?_cons_of_neg (by simpa [blocksRequest] using same),
          List.find?_cons_of_neg (by simpa [blocksRequest] using Ne.symm other)] at first
        cases first
    have same : fragmentHash "2" = hash := by
      simpa [second, blocksRequest] using List.find?_some first
    rw [← same, place] at there
    rw [← Option.some.inj there, second] at differs
    exact differs bytes
  have few := Finset.card_le_card one
  rw [Finset.card_singleton, ← card, written] at few
  omega

end SourceCapture
