/-
Where an argument stands that a run refuses. The annotations of an interface are read in the file
that declares it and kept with its class, and an argument of theirs without a value is only refused
when a block for the interface is met, which can be in another file. The text and the place that
are reported are those of the argument in the file that declares the class, while the file that is
reported is the one with the block. So they belong together just when that file has the same text
at that place.
-/

import SourceCapture.Proofs.Captures.LeftOutput
import SourceCapture.Proofs.Captures.OwnAnnotations

namespace SourceCapture

/-- The text that stands at a place of a file, without white space at its ends. Nothing stands at a
place that does not fit the file. -/
def Document.shown (document : Document) (place : Span) : List Char :=
  Text.trim ((Text.slice? document.content place).getD [])

/-- Whether a class of a file has an annotation with an argument of that text and place. -/
def ParsedFile.WritesArgument (file : ParsedFile) (written : String) (place : Span) : Prop :=
  ∃ node ∈ file.root.nodes, node.isClassLike = true ∧
    ∃ note ∈ (node.modifiers file.document.content).annotations,
      ∃ list, note.find? ["value_arguments"] = some list ∧
        ∃ argument ∈ WrittenArgument.listOfTree list, argument.value.span = place ∧
          String.ofList (argument.value.trimmedText file.document.content) = written

/-- Whether an error is about an argument that one of the files writes, if it is about an argument
at all, and names the file of a document. -/
def CaptureError.RefersTo (files : List ParsedFile) (document : Document) : CaptureError → Prop
  | .nonConstantArgument _ written file place =>
    file = document.relativePath ∧ ∃ declaring ∈ files, declaring.WritesArgument written place
  | _ => True

/-- What a file writes at a place is what stands there. -/
theorem ParsedFile.WritesArgument.shown {file : ParsedFile} {written : String} {place : Span}
    (writes : file.WritesArgument written place) :
    file.document.shown place = written.toList := by
  obtain ⟨node, -, -, note, -, list, -, argument, -, rfl, rfl⟩ := writes
  rw [String.toList_ofList]
  rfl

/-! ### The annotations of known interfaces -/

theorem ClassHeader.IsReadFrom.supertypes {content : List Char} {node : Tree} {known : ClassHeader}
    (read : known.IsReadFrom content node) :
    ∀ supertype ∈ known.supertypes, supertype.annotations = [] := by
  obtain ⟨-, place, -, -, read⟩ := read
  rw [ofTree?] at read
  obtain ⟨name, -, rfl⟩ := Option.map_eq_some_iff.mp read
  intro supertype member
  obtain ⟨tree, -, rfl⟩ := List.mem_map.mp member
  rfl

/-- An argument without a value is reported with its own text and place. -/
theorem ClassHeader.IsReadFrom.writesArgument {file : ParsedFile} {node : Tree}
    {known : ClassHeader} (below : node ∈ file.root.nodes)
    (read : known.IsReadFrom file.document.content node) {note : Annotation}
    (noted : note ∈ known.annotations) {argument : AnnotationArgument}
    (given : argument ∈ note.arguments) {written : String} {span : Option Span}
    (unknown : argument.value = .nonConstant written span) :
    ∃ place, span = some place ∧ file.WritesArgument written place := by
  obtain ⟨classLike, place, content, knows, read⟩ := read
  rw [Site.annotations_of_classHeader read, Annotation.listOfTree, content] at noted
  obtain ⟨noteTree, noteMember, rfl⟩ := List.mem_map.mp noted
  unfold Annotation.ofTree Annotation.argumentsAt at given
  dsimp only at given
  split at given
  case h_1 list found =>
    obtain ⟨writtenArgument, member, rfl⟩ := List.mem_map.mp given
    obtain ⟨rfl, rfl⟩ := Site.evaluate_eq_nonConstant knows unknown
    refine ⟨_, rfl, node, below, classLike, noteTree, noteMember, list, found, writtenArgument,
      member, rfl, ?_⟩
    rw [content]
  case h_2 => cases given

namespace SymbolTable

variable {symbols : SymbolTable} {fqn : String} {owner : ClassHeader}

/-- The annotations that an interface names converters with are those of classes. -/
theorem exists_class_of_mem_candidates (found : symbols.resolvedClass? fqn = some owner)
    (bare : ∀ fqn known, symbols.class? fqn = some known →
      ∀ supertype ∈ known.supertypes, supertype.annotations = [])
    {annotations : List Annotation}
    (candidate : annotations ∈ owner.annotations :: owner.supertypes.map (·.annotations))
    {note : Annotation} (member : note ∈ annotations) :
    ∃ fqn known, symbols.class? fqn = some known ∧ note ∈ known.annotations := by
  obtain ⟨header, known, rfl⟩ := Option.map_eq_some_iff.mp found
  rcases List.mem_cons.mp candidate with rfl | inherited
  · exact ⟨fqn, header, known, member⟩
  · obtain ⟨seen, seenMember, rfl⟩ := List.mem_map.mp inherited
    obtain ⟨supertype, listed, rfl⟩ := List.mem_map.mp seenMember
    have none := bare fqn header known supertype listed
    rw [annotateSupertype, none, List.isEmpty_nil, if_pos rfl] at member
    split at member
    case h_1 declared there => exact ⟨_, declared, there, member⟩
    case h_2 =>
      rw [none] at member
      cases member

end SymbolTable

/-! ### Refusals -/

theorem FailsOnly.mapError {Error Result : Type} {allowed : CaptureError → Prop}
    {wrap : Error → CaptureError} (fine : ∀ cause, allowed (wrap cause))
    (result : Except Error Result) : FailsOnly allowed (result.mapError wrap) := by
  cases result with
  | ok value => exact FailsOnly.ok value
  | error cause => exact FailsOnly.error (fine cause)

namespace Capture

variable {files : List ParsedFile} {document : Document}

theorem location_refersTo (span : Span) :
    FailsOnly (CaptureError.RefersTo files document) (document.location span) := by
  rw [Document.location]
  refine FailsOnly.bind (FailsOnly.mapError (fun _ => trivial) _) fun start _ => ?_
  refine FailsOnly.bind (FailsOnly.mapError (fun _ => trivial) _) fun stop _ => ?_
  exact FailsOnly.mapError (fun _ => trivial) _

theorem readBlock_refersTo (span : Span) (type : TypeRef) (converters : Converters)
    (operand : Expr) :
    FailsOnly (CaptureError.RefersTo files document)
      (readBlock document span type converters operand) := by
  rw [readBlock]
  refine FailsOnly.bind (FailsOnly.mapError (fun _ => trivial) _) fun inner _ => ?_
  refine FailsOnly.bind (FailsOnly.mapError (fun _ => trivial) _) fun excerpt _ => ?_
  exact FailsOnly.bind (location_refersTo _) fun location _ => FailsOnly.ok _

theorem declaration?_refersTo (declaration : Declaration) :
    FailsOnly (CaptureError.RefersTo files document) (declaration? document declaration) := by
  rw [declaration?]
  split
  · split
    · refine FailsOnly.bind (FailsOnly.mapError (fun _ => trivial) _) fun excerpt _ => ?_
      exact FailsOnly.bind (location_refersTo _) fun location _ => FailsOnly.ok _
    · exact FailsOnly.ok none
  · exact FailsOnly.ok none

theorem block?_refersTo {markers : MarkerNames} {span : Option Span} {type : TypeRef}
    {owner : ClassHeader} {operand : Expr} {fqn : String}
    (known : (symbolsOf markers files).resolvedClass? fqn = some owner) :
    RaisesOnly (CaptureError.RefersTo files document)
      (block? document span type owner operand) := by
  have bare : ∀ fqn known, (symbolsOf markers files).class? fqn = some known →
      ∀ supertype ∈ known.supertypes, supertype.annotations = [] := by
    intro fqn known found
    obtain ⟨_, _, _, _, read⟩ := exists_source_of_class? found
    exact read.supertypes
  have converters : FailsOnly (CaptureError.RefersTo files document)
      (Converters.ofInterface document owner) := by
    refine Converters.ofCandidates_failsOnly fun annotations candidate note member _ => ?_
    obtain ⟨fqn, declared, found, noted⟩ :=
      SymbolTable.exists_class_of_mem_candidates known bare candidate member
    obtain ⟨declaring, inRun, node, below, read⟩ := exists_source_of_class? found
    intro argument given written span unknown
    obtain ⟨place, rfl, writes⟩ := read.writesArgument below noted given unknown
    exact ⟨rfl, declaring, inRun, writes⟩
  rw [block?]
  refine RaisesOnly.bind (RaisesOnly.lift converters) fun converters => ?_
  cases span with
  | none => exact RaisesOnly.pure none
  | some place =>
    refine RaisesOnly.bind (RaisesOnly.lift (readBlock_refersTo place type converters operand))
      fun block => ?_
    have emits : RaisesOnly (CaptureError.RefersTo files document)
        (Emission.emit? block.request) := Emission.emit?_raisesOnly (fun _ _ => trivial) _
    exact RaisesOnly.bind emits fun fragment => RaisesOnly.pure _

/-- What is refused while an item is captured is an argument that one of the files writes. -/
theorem ofItem?_refersTo {markers : MarkerNames} {item : Item}
    (known : item.HasKnownOwner (symbolsOf markers files)) :
    RaisesOnly (CaptureError.RefersTo files document) (ofItem? document item) := by
  obtain ⟨declaration, rfl, same⟩ | ⟨span, type, owner, operand, rfl, same⟩ | same :=
    ofItem?_cases document item
  all_goals rw [same]
  · exact RaisesOnly.lift (declaration?_refersTo declaration)
  · obtain ⟨fqn, found⟩ := known
    exact block?_refersTo found
  · exact RaisesOnly.pure none

end Capture

/-! ### Runs that refuse an argument -/

/-- A run that refuses an argument does so while it captures a file, and reports that file. The
text is what stands at the place in a file that declares a class with that argument, so the report
is right just when the same stands there in the file that is captured. -/
theorem refusedArgument_shown_iff {extraction : Extraction} {store after : FileStore}
    {name written file : String} {place : Span}
    (failed : extraction.run store =
      (.error (.capture (.nonConstantArgument name written file place)), after)) :
    ∃ files before attempt later middle ended, extraction.parsedFiles store = .ok files ∧
      attemptsOf extraction.markers files = before ++ attempt :: later ∧
      attempt.run.run middle = (.error (.nonConstantArgument name written file place), ended) ∧
      ∃ captured ∈ files, attempt.document = captured.document ∧
        captured.document.relativePath = file ∧
        ∃ declaring ∈ files, declaring.WritesArgument written place ∧
          declaring.document.shown place = written.toList ∧
          (captured.document.shown place = written.toList ↔
            captured.document.shown place = declaring.document.shown place) := by
  obtain ⟨files, ended, parsed, -, ran⟩ := Extraction.run_eq_error_iff.mp failed
  obtain ⟨before, attempt, later, taken, middle, split, -, raised⟩ := Work.run_mapM_eq_error ran
  have member : attempt ∈ attemptsOf extraction.markers files := by
    rw [split]
    exact List.mem_append_right _ List.mem_cons_self
  obtain ⟨captured, inRun, attempted⟩ := List.mem_flatMap.mp member
  obtain ⟨item, lowered, rfl⟩ := List.mem_map.mp attempted
  have known : item.HasKnownOwner (symbolsOf extraction.markers files) :=
    (SourceFile.lowered_of_mem_items _ _ item lowered).knownOwner
  obtain ⟨rfl, declaring, declared, writes⟩ :=
    Capture.ofItem?_refersTo known middle _ (congrArg Prod.fst raised)
  refine ⟨files, before, _, later, middle, ended, parsed, split, raised, captured, inRun, rfl, rfl,
    declaring, declared, writes, writes.shown, ?_⟩
  rw [writes.shown]

/-! ### A block for an interface of another file -/

def interfaceContent : List Char :=
  ["import com.github.tarcv.kotbridge.*\n",
    "@Converters(f) fun interface B : Capturable<B>\n"].flatMap String.toList

def interfaceTree : Tree :=
  .branch "source_file" 0 83
    [.wholeLibraryImport 0, .capturableInterface 36 51 [.convertersNote 36]]

def elsewhereContent : List Char :=
  ["// The interface of the block is elsewhere.\n", "B \x7b 2 \x7d\n"].flatMap String.toList

def elsewhereTree : Tree :=
  .branch "source_file" 0 52 [.leaf "line_comment" 0 43, .blockCall 44]

def elsewhereFrontend : Frontend where
  extensions := ["kts"]
  parse content := if content.head? = some 'i' then interfaceTree else elsewhereTree

def elsewhereExtraction : Extraction where
  projectDir := ⟨"/p"⟩
  emitter? := none
  sourceRoots := ["api", "src"]
  exclusions := []
  markers := {}
  frontends := [elsewhereFrontend]

def interfacePath : Path := ⟨"/p/api/A.kts"⟩

def elsewherePath : Path := ⟨"/p/src/B.kts"⟩

def elsewhereStore : FileStore where
  root := (FileEntry.emptyFolder.put ["p", "api", "A.kts"]
    (.file (String.ofList interfaceContent).toUTF8)).put ["p", "src", "B.kts"]
      (.file (String.ofList elsewhereContent).toUTF8)

def interfaceFile : ParsedFile where
  document := .ofFile interfacePath (Text.normalizeNewlines interfaceContent) ⟨"/p"⟩
  root := interfaceTree

def elsewhereFile : ParsedFile where
  document := .ofFile elsewherePath (Text.normalizeNewlines elsewhereContent) ⟨"/p"⟩
  root := elsewhereTree

/-- The entries of both files in order. -/
def elsewhereEntries : List SourceEntry :=
  [⟨interfacePath, elsewhereFrontend⟩, ⟨elsewherePath, elsewhereFrontend⟩]

set_option maxRecDepth 10000 in
theorem sourceEntries_elsewhere :
    elsewhereExtraction.sourceEntries elsewhereStore = .ok elsewhereEntries := by
  have patterns : elsewhereExtraction.patterns =
      [("/p/api/**/*.kts", elsewhereFrontend), ("/p/src/**/*.kts", elsewhereFrontend)] := by
    have api : (elsewhereExtraction.projectDir.join "api").text ++ "/**/*." ++ "kts" =
      "/p/api/**/*.kts" := by decide
    have src : (elsewhereExtraction.projectDir.join "src").text ++ "/**/*." ++ "kts" =
      "/p/src/**/*.kts" := by decide
    rw [← api, ← src]
    rfl
  have found : elsewhereStore.search "/p/api/**/*.kts".toList = .ok [interfacePath] ∧
      elsewhereStore.search "/p/src/**/*.kts".toList = .ok [elsewherePath] := by
    decide +kernel
  have order : interfacePath.compare elsewherePath ≠ .gt ∧
      elsewherePath.sameAs interfacePath = false := by
    decide +kernel
  have inOrder : elsewhereEntries.Pairwise (SourceEntry.isBefore · ·) :=
    List.pairwise_pair.mpr (decide_eq_true order.1)
  refine bind_eq_ok_iff.mpr ⟨[[⟨interfacePath, elsewhereFrontend⟩],
    [⟨elsewherePath, elsewhereFrontend⟩]], ?_, ?_⟩
  · rw [patterns, List.mapM_cons, List.mapM_cons, List.mapM_nil, Extraction.matching, found.1,
      Extraction.matching, found.2]
    rfl
  · show Except.ok (SourceEntry.withoutRepeats none
      (elsewhereEntries.mergeSort SourceEntry.isBefore)) = _
    have apart : SourceEntry.withoutRepeats none elsewhereEntries = elsewhereEntries := by
      show _ :: (if elsewherePath.sameAs interfacePath then _ else _) = _
      rw [order.2]
      rfl
    rw [List.mergeSort_of_pairwise inOrder, apart]

set_option maxRecDepth 10000 in
theorem parsedFiles_elsewhere :
    elsewhereExtraction.parsedFiles elsewhereStore = .ok [interfaceFile, elsewhereFile] := by
  have texts : elsewhereStore.readText interfacePath = .ok (String.ofList interfaceContent) ∧
      elsewhereStore.readText elsewherePath = .ok (String.ofList elsewhereContent) := by
    decide +kernel
  refine bind_eq_ok_iff.mpr ⟨_, sourceEntries_elsewhere, ?_⟩
  have interfaceEntry : elsewhereExtraction.readEntry elsewhereStore
      ⟨interfacePath, elsewhereFrontend⟩ = .ok interfaceFile := by
    rw [Extraction.readEntry, texts.1]
    dsimp only
    rw [String.toList_ofList]
    rfl
  have blockEntry : elsewhereExtraction.readEntry elsewhereStore
      ⟨elsewherePath, elsewhereFrontend⟩ = .ok elsewhereFile := by
    rw [Extraction.readEntry, texts.2]
    dsimp only
    rw [String.toList_ofList]
    rfl
  rw [elsewhereEntries, List.mapM_cons, List.mapM_cons, List.mapM_nil, interfaceEntry, blockEntry]
  rfl

def elsewhereSymbols : SymbolTable := symbolsOf {} [interfaceFile, elsewhereFile]

/-- The interface as it is known in the other file. -/
def elsewhereOwner : ClassHeader :=
  ((elsewhereFile.site elsewhereSymbols {}).functionalInterface? "B").getD
    ⟨"", "", .plain, [], [], []⟩

/-- The attempts at the block of the other file. -/
def elsewhereAttempts : List Attempt :=
  [.expression (.blockConversion "B" elsewhereOwner 46),
    .expression (.lambda (some ⟨46, 51⟩) [])].map (Attempt.mk elsewhereFile.document)

set_option maxRecDepth 10000 in
theorem declarations_interfaceTree : ∃ header : ClassHeader,
    header.annotations.filter (·.marks .captureSource) = [] ∧
      (SourceFile.ofTree (interfaceFile.site elsewhereSymbols {}) interfaceTree).declarations =
        [.classLike header (some ⟨36, 82⟩) [] []] := by
  have unmarked : (ClassHeader.ofTree? (interfaceFile.site elsewhereSymbols {})
      (.capturableInterface 36 51 [.convertersNote 36])).map (fun written =>
        ((interfaceFile.site elsewhereSymbols {}).knownHeader written).annotations.filter
          (·.marks .captureSource)) = some [] := by
    decide +kernel
  obtain ⟨header, plain, declared⟩ := Site.declaration?_capturableInterface unmarked rfl rfl
  refine ⟨header, plain, ?_⟩
  show [_].filterMap _ = _
  rw [List.filterMap_cons_some declared]
  rfl

set_option maxRecDepth 10000 in
theorem expr?_blockCall_elsewhere : (elsewhereFile.site elsewhereSymbols {}).expr? (.blockCall 44) =
    some (.blockConversion "B" elsewhereOwner 46) := by
  have called :
      Tree.identifierName elsewhereFile.document.content (.leaf "identifier" 44 45) = "B" ∧
      FileScope.looksLikeClass "B" = true ∧
      (elsewhereFile.site elsewhereSymbols {}).resolveClass "B" = "B" ∧
      ((elsewhereFile.site elsewhereSymbols {}).functionalInterface? "B").isSome = true := by
    decide +kernel
  obtain ⟨named, isClass, resolved, isKnown⟩ := called
  have known : (elsewhereFile.site elsewhereSymbols {}).functionalInterface? "B" =
      some elsewhereOwner := by
    obtain ⟨owner, found⟩ := Option.isSome_iff_exists.mp isKnown
    rw [elsewhereOwner, found]
    rfl
  exact Site.expr?_blockCall named isClass resolved known

theorem statements_elsewhereTree :
    (SourceFile.ofTree (elsewhereFile.site elsewhereSymbols {}) elsewhereTree).statements =
      [.blockConversion "B" elsewhereOwner 46] := by
  have comment : (elsewhereFile.site elsewhereSymbols {}).expr? (.leaf "line_comment" 0 43) =
      none := by
    rw [Site.expr?_eq]
    rfl
  show [_, _].filterMap _ = _
  rw [List.filterMap_cons_none comment, List.filterMap_cons_some expr?_blockCall_elsewhere]
  rfl

theorem attemptsOf_elsewhere : ∃ header : ClassHeader,
    header.annotations.filter (·.marks .captureSource) = [] ∧
      attemptsOf {} [interfaceFile, elsewhereFile] =
        ⟨interfaceFile.document, .declaration (.classLike header (some ⟨36, 82⟩) [] [])⟩ ::
          elsewhereAttempts := by
  obtain ⟨header, plain, declarations⟩ := declarations_interfaceTree
  refine ⟨header, plain, ?_⟩
  have interfaceItems : (interfaceFile.lower elsewhereSymbols {}).items =
      itemsOfDeclarations [.classLike header (some ⟨36, 82⟩) [] []] ++ itemsOfExprs [] := by
    rw [← declarations]
    rfl
  have blockItems : (elsewhereFile.lower elsewhereSymbols {}).items =
      itemsOfDeclarations [] ++ itemsOfExprs [.blockConversion "B" elsewhereOwner 46] := by
    rw [← statements_elsewhereTree]
    rfl
  show [interfaceFile, elsewhereFile].flatMap (ParsedFile.attempts {} elsewhereSymbols) = _
  rw [List.flatMap_cons, List.flatMap_singleton, ParsedFile.attempts, ParsedFile.attempts,
    interfaceItems, blockItems]
  rfl

/-- The argument of the annotation is reported at its own place, in the file with the block. -/
theorem run_elsewhere : ∃ after, elsewhereExtraction.run elsewhereStore =
    (.error (.capture (.nonConstantArgument "com.github.tarcv.kotbridge.Converters" "f"
      "src/B.kts" ⟨48, 49⟩)), after) := by
  have refused : (match (elsewhereAttempts.mapM Attempt.run).run ⟨none, elsewhereStore⟩ with
      | (.error error, _) => decide (error = .nonConstantArgument
          "com.github.tarcv.kotbridge.Converters" "f" "src/B.kts" ⟨48, 49⟩)
      | _ => false) = true := by
    decide +kernel
  generalize ran : (elsewhereAttempts.mapM Attempt.run).run ⟨none, elsewhereStore⟩ = outcome
    at refused
  obtain ⟨result, ended⟩ := outcome
  cases result with
  | ok taken => cases refused
  | error error =>
    obtain rfl := of_decide_eq_true refused
    obtain ⟨header, plain, attempts⟩ := attemptsOf_elsewhere
    refine ⟨ended.store, Extraction.run_eq_error_iff.mpr
      ⟨_, ended, parsedFiles_elsewhere, rfl, ?_⟩⟩
    show ((attemptsOf {} [interfaceFile, elsewhereFile]).mapM Attempt.run).run
      ⟨none, elsewhereStore⟩ = _
    rw [attempts]
    exact Work.run_mapM_cons_eq_error (Attempt.run_declaration_of_plain plain) ran

theorem refusedArgument_elsewhere : ∃ after, elsewhereExtraction.run elsewhereStore =
      (.error (.capture (.nonConstantArgument "com.github.tarcv.kotbridge.Converters" "f"
        "src/B.kts" ⟨48, 49⟩)), after) ∧
    ∃ files before attempt later middle ended,
      elsewhereExtraction.parsedFiles elsewhereStore = .ok files ∧
      attemptsOf elsewhereExtraction.markers files = before ++ attempt :: later ∧
      attempt.run.run middle = (.error (.nonConstantArgument
        "com.github.tarcv.kotbridge.Converters" "f" "src/B.kts" ⟨48, 49⟩), ended) ∧
      ∃ captured ∈ files, attempt.document = captured.document ∧
        captured.document.relativePath = "src/B.kts" ∧
        ∃ declaring ∈ files, declaring.WritesArgument "f" ⟨48, 49⟩ ∧
          declaring.document.shown ⟨48, 49⟩ = "f".toList ∧
          (captured.document.shown ⟨48, 49⟩ = "f".toList ↔
            captured.document.shown ⟨48, 49⟩ = declaring.document.shown ⟨48, 49⟩) := by
  obtain ⟨after, failed⟩ := run_elsewhere
  exact ⟨after, failed, refusedArgument_shown_iff failed⟩

/-- It is not so that the text of a refused argument is what stands at its place in the file that
is reported: there it can be the number in a block. -/
theorem refusedArgument_shown_elsewhere :
    ¬ ∀ (extraction : Extraction) (store after : FileStore) (name written file : String)
        (place : Span), extraction.run store =
          (.error (.capture (.nonConstantArgument name written file place)), after) →
      ∀ files, extraction.parsedFiles store = .ok files →
        ∀ reported ∈ files, reported.document.relativePath = file →
          reported.document.shown place = written.toList := by
  intro claim
  obtain ⟨after, failed⟩ := run_elsewhere
  have reported : elsewhereFile.document.relativePath = "src/B.kts" ∧
      elsewhereFile.document.shown ⟨48, 49⟩ = "2".toList := by
    decide +kernel
  have shown := claim _ _ _ _ _ _ _ failed _ parsedFiles_elsewhere elsewhereFile
    (List.mem_cons_of_mem _ (List.mem_singleton_self _)) reported.1
  rw [reported.2] at shown
  revert shown
  decide

end SourceCapture
