/-
What a run that fails leaves in the folder for fragments. The fragments of the captures taken
before the failure are written while the pass goes on, and nothing takes them back. So the
folder is as it was just when none of these captures had its fragment written.
-/

import SourceCapture.Proofs.Captures.Attempts
import SourceCapture.Proofs.Fragments.Sequences
import SourceCapture.Proofs.Lowering.SampleCalls

namespace SourceCapture

/-! ### Attempts as requests -/

/-- The fragments of the captures that were taken. -/
def fragmentsOf (taken : List (Option Capture)) : List Fragment :=
  taken.filterMap fun found => found.bind (·.fragment)

theorem fragmentsOf_cons_none {found : Option Capture} {taken : List (Option Capture)}
    (without : found.bind (·.fragment) = none) : fragmentsOf (found :: taken) = fragmentsOf taken :=
  List.filterMap_cons_none without

theorem Capture.fragment_of_declaration? {document : Document} {declaration : Declaration}
    {capture : Capture} (taken : declaration? document declaration = .ok (some capture)) :
    capture.fragment = none := by
  obtain ⟨span, excerpt, location, -, -, rfl⟩ := exists_of_declaration? taken
  rfl

/-- The request for the fragment of a block that was captured in a file of that name. -/
def Capture.request? (fileName : String) (capture : Capture) : Option FragmentRequest :=
  match capture.kind with
  | .declaration => none
  | .block => some {
      text := capture.source.text
      imports := capture.imports
      converters := capture.converters.getD {}
      parameterTypes := capture.parameterTypes
      location := s!"{fileName}:{capture.source.location.start.line}" }

theorem Capture.request?_of_declaration? {document : Document} {declaration : Declaration}
    {capture : Capture} (taken : declaration? document declaration = .ok (some capture))
    (fileName : String) : capture.request? fileName = none := by
  obtain ⟨span, excerpt, location, -, -, rfl⟩ := exists_of_declaration? taken
  rfl

/-- The request for a block can be read off its capture. -/
theorem Capture.request?_ofBlock {document : Document} {span : Span} {type : TypeRef}
    {converters : Converters} {operand : Expr} {block : Block}
    (read : readBlock document span type converters operand = .ok block) (owner : ClassHeader)
    (fragment? : Option Fragment) :
    (ofBlock owner block fragment?).request? document.fileName = some block.request := by
  obtain ⟨inner, -, read⟩ := bind_eq_ok_iff.mp read
  obtain ⟨excerpt, -, read⟩ := bind_eq_ok_iff.mp read
  obtain ⟨location, -, read⟩ := bind_eq_ok_iff.mp read
  cases read
  rfl

/-- The requests of attempts with what they have taken. -/
def requestsOf (attempts : List Attempt) (taken : List (Option Capture)) : List FragmentRequest :=
  (attempts.zip taken).filterMap fun (attempt, found) =>
    found.bind (·.request? attempt.document.fileName)

theorem requestsOf_cons_none {document : Document} {item : Item} {attempts : List Attempt}
    {found : Option Capture} {taken : List (Option Capture)}
    (without : found.bind (·.request? document.fileName) = none) :
    requestsOf (⟨document, item⟩ :: attempts) (found :: taken) = requestsOf attempts taken :=
  List.filterMap_cons_none without

theorem requestsOf_cons_some {document : Document} {item : Item} {attempts : List Attempt}
    {found : Option Capture} {taken : List (Option Capture)} {request : FragmentRequest}
    (asks : found.bind (·.request? document.fileName) = some request) :
    requestsOf (⟨document, item⟩ :: attempts) (found :: taken) =
      request :: requestsOf attempts taken :=
  List.filterMap_cons_some asks

/-- What attempts that succeed emit is what their requests emit. -/
theorem run_requestsOf {attempts : List Attempt} {taken : List (Option Capture)}
    {emitter : Emitter} {store : FileStore} {after : Emission}
    (ran : (attempts.mapM Attempt.run).run ⟨some emitter, store⟩ = (.ok taken, after)) :
    ∃ left : Emitter × FileStore,
      ((requestsOf attempts taken).mapM Emitter.emit).run (emitter, store) =
        (.ok (fragmentsOf taken), left) ∧ after = ⟨some left.1, left.2⟩ := by
  induction attempts generalizing emitter store taken with
  | nil =>
    cases ran
    exact ⟨(emitter, store), rfl, rfl⟩
  | cons attempt attempts inductionHypothesis =>
    obtain ⟨found, middle, others, first, rest, rfl⟩ := Work.run_mapM_cons_eq_ok_iff.mp ran
    have yields := Capture.yields_of_ofItem? first
    obtain ⟨document, item⟩ := attempt
    dsimp only at yields
    cases yields with
    | nothing =>
      rw [fragmentsOf_cons_none rfl, requestsOf_cons_none rfl]
      exact inductionHypothesis rest
    | @declaration _ capture _ known =>
      have without : (some capture).bind (·.fragment) = none :=
        Capture.fragment_of_declaration? known
      have silent : (some capture).bind (·.request? document.fileName) = none :=
        Capture.request?_of_declaration? known _
      rw [fragmentsOf_cons_none without, requestsOf_cons_none silent]
      exact inductionHypothesis rest
    | @block span type owner operand _ block fragment? _ _ read emits =>
      have asks : (some (Capture.ofBlock owner block fragment?)).bind
          (·.request? document.fileName) = some block.request :=
        Capture.request?_ofBlock read owner fragment?
      rw [Emission.run_emit?] at emits
      dsimp only at emits
      split at emits
      case h_2 => cases emits
      case h_1 fragment left answered =>
        cases emits
        obtain ⟨last, further, rfl⟩ := inductionHypothesis rest
        refine ⟨last, ?_, rfl⟩
        rw [requestsOf_cons_some asks]
        exact Work.run_mapM_cons_eq_ok_iff.mpr ⟨fragment, left, _, answered, further, rfl⟩

theorem exists_requests_of_attempts {attempts : List Attempt} {taken : List (Option Capture)}
    {emitter : Emitter} {store : FileStore} {after : Emission}
    (ran : (attempts.mapM Attempt.run).run ⟨some emitter, store⟩ = (.ok taken, after)) :
    ∃ (requests : List FragmentRequest) (left : Emitter × FileStore),
      (requests.mapM Emitter.emit).run (emitter, store) = (.ok (fragmentsOf taken), left) ∧
        after = ⟨some left.1, left.2⟩ :=
  ⟨requestsOf attempts taken, run_requestsOf ran⟩

/-! ### Runs that fail -/

/-- Whether the files below the folder to which a path leads are the same in two stores. -/
def SameBelow (folder : Path) (before after : FileStore) : Prop :=
  ∀ place, before.place? folder = some place ∨ after.place? folder = some place →
    ∀ inner, after.bytesAt? (place ++ inner) = before.bytesAt? (place ++ inner)

/-- Whether the files of an emitter are right in its folder. -/
structure Emitter.WritesInside (emitter : Emitter) : Prop where
  named : emitter.outDir.text ≠ ""
  noSlash : '/' ∉ emitter.fragmentExtension.toList

namespace Emitter

variable {emitter : Emitter} {store after : FileStore} {requests : List FragmentRequest}
  {fragments : List Fragment} {left : Emitter × FileStore}

/-- After requests that succeed and some more folders, the folder of an emitter is as it was
just when no fragment was written. -/
theorem Emitted.sameBelow_iff (rooted : store.Rooted) (inside : emitter.WritesInside)
    (emitted : Emitted emitter store requests fragments left) (adds : left.2.AddsFolders after) :
    SameBelow emitter.outDir store after ↔ ∀ fragment ∈ fragments, fragment.written = false := by
  constructor
  · intro same fragment member
    refine Bool.eq_false_iff.mpr fun written => ?_
    obtain ⟨place, here, differs⟩ := emitted.differs inside.noSlash fragment member written
    obtain ⟨request, -, unit⟩ := exists_of_forall₂ emitted.answered member
    have there := adds.grows.place? here
    rw [unit] at there
    have rootedAfter := adds.grows.rooted (emitted.grows.rooted rooted)
    obtain ⟨around, folder, rfl⟩ := FileStore.place?_of_join rootedAfter inside.named
      (isEntryName_fragmentHash request.text inside.noSlash) there
    refine differs ?_
    rw [← adds.bytesAt?]
    exact same around (Or.inr folder) _
  · intro unwritten place _ inner
    rw [adds.bytesAt?]
    refine of_not_not fun differs => ?_
    obtain ⟨fragment, member, written, -⟩ := emitted.changed _ differs
    rw [unwritten fragment member] at written
    cases written

end Emitter

namespace Extraction

variable {extraction : Extraction} {store after : FileStore} {error : CaptureError}

/-- Finding and reading the files never fails with an error about a capture. -/
theorem parsedFiles_ne_capture : extraction.parsedFiles store ≠ .error (.capture error) := by
  intro failed
  rcases bind_eq_error_iff.mp failed with failed | ⟨entries, -, failed⟩
  · rcases bind_eq_error_iff.mp failed with failed | ⟨found, -, ⟨⟩⟩
    obtain ⟨pattern, -, failed⟩ := exists_of_mapM_error failed
    rw [matching] at failed
    split at failed
    · cases failed
    · cases failed
    · cases failed
  · obtain ⟨entry, -, failed⟩ := exists_of_mapM_error failed
    rw [readEntry] at failed
    split at failed
    · cases failed
    · cases failed

/-- A run fails at a capture if its attempts do. -/
theorem run_eq_error_iff : extraction.run store = (.error (.capture error), after) ↔
    ∃ files ended, extraction.parsedFiles store = .ok files ∧ ended.store = after ∧
      ((attemptsOf extraction.markers files).mapM Attempt.run).run
        ⟨extraction.emitter?.map Emitter.forRun, store⟩ = (.error error, ended) := by
  rw [run]
  constructor
  · intro failed
    split at failed
    case h_1 cause parsed =>
      cases failed
      exact absurd parsed parsedFiles_ne_capture
    case h_2 files parsed =>
      generalize ran : (reportOf extraction.markers files).run
        ⟨extraction.emitter?.map Emitter.forRun, store⟩ = outcome at failed
      obtain ⟨result, ended⟩ := outcome
      obtain ⟨raised, stopped⟩ := Prod.mk.inj failed
      cases result with
      | ok report => cases raised
      | error cause =>
        cases raised
        exact ⟨files, ended, parsed, stopped, run_reportOf_eq_error_iff.mp ran⟩
  · rintro ⟨files, ended, parsed, rfl, ran⟩
    rw [parsed]
    dsimp only
    rw [run_reportOf_eq_error_iff.mpr ran]
    rfl

end Extraction

/-- A run that fails at a capture leaves the folder for fragments as it was just when none of
the captures that were taken before had its fragment written. -/
theorem failedRun_sameBelow_iff {extraction : Extraction} {emitter : Emitter}
    {store after : FileStore} {error : CaptureError} (rooted : store.Rooted)
    (uses : extraction.emitter? = some emitter) (inside : emitter.WritesInside)
    (failed : extraction.run store = (.error (.capture error), after)) :
    ∃ files before attempt later taken middle ended,
      extraction.parsedFiles store = .ok files ∧
      attemptsOf extraction.markers files = before ++ attempt :: later ∧
      (before.mapM Attempt.run).run ⟨some emitter.forRun, store⟩ = (.ok taken, middle) ∧
      attempt.run.run middle = (.error error, ended) ∧ ended.store = after ∧
      (SameBelow emitter.outDir store after ↔
        ∀ fragment ∈ fragmentsOf taken, fragment.written = false) := by
  obtain ⟨files, ended, parsed, stopped, ran⟩ := Extraction.run_eq_error_iff.mp failed
  rw [uses, Option.map_some] at ran
  obtain ⟨before, attempt, later, taken, middle, split, succeeded, raised⟩ :=
    Work.run_mapM_eq_error ran
  refine ⟨files, before, attempt, later, taken, middle, ended, parsed, split, succeeded, raised,
    stopped, ?_⟩
  obtain ⟨requests, left, answered, rfl⟩ := exists_requests_of_attempts succeeded
  have emitted := Emitter.emitted_of_mapM rooted answered
  refine emitted.sameBelow_iff rooted inside ?_
  -- The attempt that failed has made folders at most.
  rcases Capture.failed_of_ofItem? raised with rfl | ⟨request, unanswered⟩
  · rw [← stopped]
    exact .refl _
  · rw [Emission.run_emit?] at unanswered
    dsimp only at unanswered
    split at unanswered
    case h_1 => cases unanswered
    case h_2 last refused =>
      cases unanswered
      rw [← stopped]
      exact (Emitter.addsFolders_of_emit_error (emitted.grows.rooted rooted) refused).2

/-! ### A run that ends half way -/

def halfwayContent : List Char :=
  ["import com.github.tarcv.kotbridge.*\n", "fun interface A : Capturable<A>\n",
    "@Converters(f) fun interface B : Capturable<B>\n", "A \x7b 1 \x7d\n",
    "B \x7b 2 \x7d\n"].flatMap String.toList

def halfwayTree : Tree :=
  .branch "source_file" 0 131 [
    .wholeLibraryImport 0, .capturableInterface 36 36 [],
    .capturableInterface 68 83 [.convertersNote 68], .blockCall 115, .blockCall 123]

def halfwayFrontend : Frontend where
  extensions := ["kts"]
  parse _ := halfwayTree

def halfwayEmitter : Emitter where
  outDir := ⟨"/out"⟩

def halfwayExtraction : Extraction where
  projectDir := ⟨"/p"⟩
  emitter? := some halfwayEmitter
  sourceRoots := ["src"]
  exclusions := []
  markers := {}
  frontends := [halfwayFrontend]

def halfwayStore : FileStore where
  root := FileEntry.emptyFolder.put ["p", "src", "A.kts"] (.file (String.ofList halfwayContent).toUTF8)

def halfwayFile : ParsedFile where
  document := .ofFile ⟨"/p/src/A.kts"⟩ (Text.normalizeNewlines halfwayContent) ⟨"/p"⟩
  root := halfwayTree

def halfwaySite : Site := halfwayFile.site (symbolsOf {} [halfwayFile]) {}

/-- The interface of a name as it is known in the script. -/
def halfwayOwner (name : String) : ClassHeader :=
  (halfwaySite.functionalInterface? name).getD ⟨"", "", .plain, [], [], []⟩

/-- The conversion that a call in the script stands for. -/
def halfwayConversion (name : String) (start : Nat) : Expr :=
  .conversion (some ⟨start, start + 5⟩)
    (.of name ((halfwayOwner name).typeParameters.map fun _ => TypeRef.unknown) false)
    (halfwayOwner name) (.lambda (some ⟨start, start + 5⟩) [])

set_option maxRecDepth 10000 in
theorem parsedFiles_halfway : halfwayExtraction.parsedFiles halfwayStore = .ok [halfwayFile] := by
  have pattern :
      (halfwayExtraction.projectDir.join "src").text ++ "/**/*." ++ "kts" = "/p/src/**/*.kts" := by
    decide
  have patterns : halfwayExtraction.patterns = [("/p/src/**/*.kts", halfwayFrontend)] := by
    rw [← pattern]
    rfl
  have found : halfwayStore.search "/p/src/**/*.kts".toList = .ok [⟨"/p/src/A.kts"⟩] := by
    decide +kernel
  have text : halfwayStore.readText ⟨"/p/src/A.kts"⟩ = .ok (String.ofList halfwayContent) := by
    decide +kernel
  have entries : halfwayExtraction.sourceEntries halfwayStore =
      .ok [⟨⟨"/p/src/A.kts"⟩, halfwayFrontend⟩] := by
    refine bind_eq_ok_iff.mpr ⟨[[⟨⟨"/p/src/A.kts"⟩, halfwayFrontend⟩]], ?_, ?_⟩
    · rw [patterns, List.mapM_cons, List.mapM_nil, Extraction.matching, found]
      rfl
    · dsimp only
      rw [List.flatten_singleton, List.filter_cons_of_pos rfl, List.filter_nil,
        List.mergeSort_singleton]
      rfl
  refine bind_eq_ok_iff.mpr ⟨_, entries, ?_⟩
  have entry : halfwayExtraction.readEntry halfwayStore ⟨⟨"/p/src/A.kts"⟩, halfwayFrontend⟩ =
      .ok halfwayFile := by
    rw [Extraction.readEntry, text]
    dsimp only
    rw [String.toList_ofList]
    rfl
  rw [List.mapM_cons, List.mapM_nil, entry]
  rfl

/-- A call in the script is converted to the interface of its name. -/
theorem expr?_halfway {name : String} {start : Nat}
    (named : Tree.identifierName halfwaySite.content (.leaf "identifier" start (start + 1)) = name)
    (isClass : FileScope.looksLikeClass name = true)
    (resolved : halfwaySite.resolveClass name = name)
    (known : (halfwaySite.functionalInterface? name).isSome = true) :
    halfwaySite.expr? (.blockCall start) = some (halfwayConversion name (start + 2)) := by
  have owner : halfwaySite.functionalInterface? name = some (halfwayOwner name) := by
    obtain ⟨owner, found⟩ := Option.isSome_iff_exists.mp known
    rw [halfwayOwner, found]
    rfl
  exact Site.expr?_blockCall named isClass resolved owner

/-- The blocks that are met in the script. -/
def halfwayBlocks : List Item := [
  .expression (halfwayConversion "A" 117), .expression (.lambda (some ⟨117, 122⟩) []),
  .expression (halfwayConversion "B" 125), .expression (.lambda (some ⟨125, 130⟩) [])]

set_option maxRecDepth 10000 in
theorem items_halfway : ∃ first second : ClassHeader,
    first.annotations.filter (·.marks .captureSource) = [] ∧
      second.annotations.filter (·.marks .captureSource) = [] ∧
        (halfwayFile.lower (symbolsOf {} [halfwayFile]) {}).items =
          .declaration (.classLike first (some ⟨36, 67⟩) [] []) ::
            .declaration (.classLike second (some ⟨68, 114⟩) [] []) :: halfwayBlocks := by
  have unmarked : (ClassHeader.ofTree? halfwaySite (.capturableInterface 36 36 [])).map
        (fun written => (halfwaySite.knownHeader written).annotations.filter
          (·.marks .captureSource)) = some [] ∧
      (ClassHeader.ofTree? halfwaySite
        (.capturableInterface 68 83 [.convertersNote 68])).map
        (fun written => (halfwaySite.knownHeader written).annotations.filter
          (·.marks .captureSource)) = some [] := by
    decide +kernel
  have named : (Tree.identifierName halfwaySite.content (.leaf "identifier" 115 116) = "A" ∧
      FileScope.looksLikeClass "A" = true ∧ halfwaySite.resolveClass "A" = "A" ∧
        (halfwaySite.functionalInterface? "A").isSome = true) ∧
      Tree.identifierName halfwaySite.content (.leaf "identifier" 123 124) = "B" ∧
        FileScope.looksLikeClass "B" = true ∧ halfwaySite.resolveClass "B" = "B" ∧
          (halfwaySite.functionalInterface? "B").isSome = true := by
    decide +kernel
  obtain ⟨⟨callA, classA, resolvedA, knownA⟩, callB, classB, resolvedB, knownB⟩ := named
  obtain ⟨first, firstPlain, firstDeclared⟩ :=
    Site.declaration?_capturableInterface unmarked.1 rfl rfl
  obtain ⟨second, secondPlain, secondDeclared⟩ :=
    Site.declaration?_capturableInterface unmarked.2 rfl rfl
  refine ⟨first, second, firstPlain, secondPlain, ?_⟩
  have declarations : (SourceFile.ofTree halfwaySite halfwayTree).declarations =
      [.classLike first (some ⟨36, 67⟩) [] [], .classLike second (some ⟨68, 114⟩) [] []] := by
    show [_, _].filterMap halfwaySite.declaration? = _
    rw [List.filterMap_cons_some firstDeclared, List.filterMap_cons_some secondDeclared]
    rfl
  have statements : (SourceFile.ofTree halfwaySite halfwayTree).statements =
      [halfwayConversion "A" 117, halfwayConversion "B" 125] := by
    show [_, _].filterMap halfwaySite.expr? = _
    rw [List.filterMap_cons_some (expr?_halfway callA classA resolvedA knownA),
      List.filterMap_cons_some (expr?_halfway callB classB resolvedB knownB)]
    rfl
  show itemsOfDeclarations (SourceFile.ofTree halfwaySite halfwayTree).declarations ++
    itemsOfExprs (SourceFile.ofTree halfwaySite halfwayTree).statements = _
  rw [declarations, statements]
  rfl

set_option maxRecDepth 10000 in
/-- The fragment of the first block is there when the run ends at the second one. -/
theorem run_halfway : ∃ error after,
    halfwayExtraction.run halfwayStore = (.error (.capture error), after) ∧
      after.place? ⟨"/out"⟩ = some ["out"] ∧
        (after.bytesAt? ["out", fragmentHash "1" ++ ".kt"]).isSome = true := by
  have checked : (match ((halfwayBlocks.map (Attempt.mk halfwayFile.document)).mapM
        Attempt.run).run ⟨some halfwayEmitter.forRun, halfwayStore⟩ with
      | (.error _, ended) => decide (ended.store.place? ⟨"/out"⟩ = some ["out"]) &&
          (ended.store.bytesAt? ["out", fragmentHash "1" ++ ".kt"]).isSome
      | _ => false) = true := by
    decide +kernel
  generalize ran : ((halfwayBlocks.map (Attempt.mk halfwayFile.document)).mapM
    Attempt.run).run ⟨some halfwayEmitter.forRun, halfwayStore⟩ = outcome at checked
  obtain ⟨result, ended⟩ := outcome
  cases result with
  | ok taken => cases checked
  | error error =>
    rw [Bool.and_eq_true, decide_eq_true_iff] at checked
    obtain ⟨first, second, firstPlain, secondPlain, items⟩ := items_halfway
    refine ⟨error, ended.store, Extraction.run_eq_error_iff.mpr ?_, checked⟩
    refine ⟨[halfwayFile], ended, parsedFiles_halfway, rfl, ?_⟩
    have attempts : attemptsOf halfwayExtraction.markers [halfwayFile] =
        (halfwayFile.lower (symbolsOf {} [halfwayFile]) {}).items.map
          (Attempt.mk halfwayFile.document) := by
      rw [attemptsOf, List.flatMap_singleton]
      rfl
    rw [attempts, items, List.map_cons, List.map_cons]
    refine Work.run_mapM_cons_eq_error (Attempt.run_declaration_of_plain firstPlain) ?_
    exact Work.run_mapM_cons_eq_error (Attempt.run_declaration_of_plain secondPlain) ran

theorem rooted_halfwayStore : halfwayStore.Rooted := ⟨_, rfl⟩

theorem halfwayRun_sameBelow_iff :
    halfwayStore.Rooted ∧ halfwayExtraction.emitter? = some halfwayEmitter ∧
      halfwayEmitter.WritesInside ∧ ∃ error after,
        halfwayExtraction.run halfwayStore = (.error (.capture error), after) ∧
        ∃ files before attempt later taken middle ended,
          halfwayExtraction.parsedFiles halfwayStore = .ok files ∧
          attemptsOf halfwayExtraction.markers files = before ++ attempt :: later ∧
          (before.mapM Attempt.run).run ⟨some halfwayEmitter.forRun, halfwayStore⟩ =
            (.ok taken, middle) ∧
          attempt.run.run middle = (.error error, ended) ∧ ended.store = after ∧
          (SameBelow halfwayEmitter.outDir halfwayStore after ↔
            ∀ fragment ∈ fragmentsOf taken, fragment.written = false) := by
  obtain ⟨error, after, failed, -⟩ := run_halfway
  have inside : halfwayEmitter.WritesInside := ⟨by decide, by decide⟩
  exact ⟨rooted_halfwayStore, rfl, inside, error, after, failed,
    failedRun_sameBelow_iff rooted_halfwayStore rfl inside failed⟩

/-- It is not so that the folder for fragments is as it was whenever a run fails at a capture:
the fragment of the first block stays. -/
theorem failedRun_leaves_fragment :
    ¬ ∀ (extraction : Extraction) (emitter : Emitter) (store after : FileStore)
        (error : CaptureError), store.Rooted → extraction.emitter? = some emitter →
      extraction.run store = (.error (.capture error), after) →
        SameBelow emitter.outDir store after := by
  intro claim
  obtain ⟨error, after, failed, folder, left⟩ := run_halfway
  have same := claim halfwayExtraction halfwayEmitter halfwayStore after error
    rooted_halfwayStore rfl failed ["out"] (Or.inr folder) [fragmentHash "1" ++ ".kt"]
  have nothing : halfwayStore.bytesAt? ["out", fragmentHash "1" ++ ".kt"] = none := rfl
  rw [List.singleton_append, nothing] at same
  rw [same] at left
  cases left

end SourceCapture
