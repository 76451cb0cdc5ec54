/-
Which annotation a declaration is captured for. A function or a property is captured for an
annotation that is written on it, and what is captured is the end of its own text. A class
takes its annotations from what the symbols know under its name, which can be another class
of that name, of this file or of another one. So the captures of a file are right just when
the symbols know no other annotation to capture a class for than one written on that class.
-/

import SourceCapture.Proofs.Captures.Failures
import SourceCapture.Proofs.Lowering.Origins
import SourceCapture.Proofs.Symbols.Sources

namespace SourceCapture

/-- Whether an annotation is what one of the annotations on a declaration of a file reads as,
whatever is known of other files. -/
def Annotation.WrittenOn (note : Annotation) (site : Site) (tree : Tree) : Prop :=
  ∃ node ∈ (tree.modifiers site.content).annotations, ∃ view : Site,
    view.content = site.content ∧ view.scope = site.scope ∧ view.markers = site.markers ∧
      note = Annotation.ofTree view node

/-- Whether a declaration is to be captured, which takes exactly one annotation that says so. -/
def Declaration.CapturedFor (declaration : Declaration) (note : Annotation) : Prop :=
  declaration.annotations.filter (·.marks .captureSource) = [note]

namespace ParsedFile

/-- Whether a declaration is what a node of the file is lowered to. -/
def LowersTo (file : ParsedFile) (markers : MarkerNames) (symbols : SymbolTable) (tree : Tree)
    (lowered : Declaration) : Prop :=
  tree ∈ file.root.nodes ∧ tree.isDeclaration = true ∧ ∃ place : Site,
    place.IsIn (file.site symbols markers) ∧ place.declaration? tree = some lowered

/-- What is expected of the captures of a file: the annotation for which a declaration is
captured is one of its own, the range that is captured is the end of the declaration, and no
span turns out not to fit the file. -/
structure CapturesOwn (file : ParsedFile) (markers : MarkerNames) (symbols : SymbolTable) :
    Prop where
  annotation : ∀ lowered, Item.declaration lowered ∈ (file.lower symbols markers).items →
    ∀ note, lowered.CapturedFor note → ∃ tree, file.LowersTo markers symbols tree lowered ∧
      note.WrittenOn (file.site symbols markers) tree
  range : ∀ lowered, Item.declaration lowered ∈ (file.lower symbols markers).items →
    ∀ note, lowered.CapturedFor note → ∃ annotated declared, note.span = some annotated ∧
      lowered.span = some declared ∧ declared.start ≤ annotated.stop ∧
        annotated.stop ≤ declared.stop ∧
          ∃ front back, Text.slice? file.document.content declared = some (front ++ back) ∧
            Text.slice? file.document.content ⟨annotated.stop, declared.stop⟩ = some back
  noSpanError : ∀ emission path cause,
    ((capturesOf file.document (file.lower symbols markers)).run emission).1 ≠
      .error (.span path cause)

/-- Whether every class of a file that is known to be captured, under its name and with its
kind, is known by an annotation that is written on this very class. -/
def KnownByOwn (file : ParsedFile) (markers : MarkerNames) (symbols : SymbolTable) : Prop :=
  ∀ header span members initializers,
    Item.declaration (.classLike header span members initializers) ∈
      (file.lower symbols markers).items →
    ∀ known, symbols.class? header.fqn = some known → known.kind = header.kind →
      ∀ note, known.annotations.filter (·.marks .captureSource) = [note] →
        ∃ tree, file.LowersTo markers symbols tree (.classLike header span members initializers) ∧
          note.WrittenOn (file.site symbols markers) tree

end ParsedFile

/-! ### The annotations of lowered declarations -/

namespace Site

variable {site place : Site}

theorem annotations_of_classHeader {tree : Tree} {written : ClassHeader}
    (read : ClassHeader.ofTree? place tree = some written) :
    written.annotations = Annotation.listOfTree place tree := by
  rw [ClassHeader.ofTree?] at read
  obtain ⟨name, _, rfl⟩ := Option.map_eq_some_iff.mp read
  rfl

theorem annotations_of_functionHeader {tree : Tree} {header : FunctionHeader}
    (read : FunctionHeader.ofTree? place tree = some header) :
    header.annotations = Annotation.listOfTree place tree := by
  rw [FunctionHeader.ofTree?] at read
  obtain ⟨list, _, read⟩ := Option.bind_eq_some_iff.mp read
  obtain ⟨signature, _, read⟩ := Option.bind_eq_some_iff.mp read
  obtain ⟨⟨typeParameters, rest⟩, _, read⟩ := Option.bind_eq_some_iff.mp read
  dsimp only at read
  split at read
  · cases read
  · cases read
    rfl

theorem writtenOn_of_mem (isIn : place.IsIn site) {tree : Tree} {note : Annotation}
    (member : note ∈ Annotation.listOfTree place tree) : note.WrittenOn site tree := by
  obtain ⟨node, nodeMember, rfl⟩ := List.mem_map.mp member
  rw [isIn.content] at nodeMember
  exact ⟨node, nodeMember, place, isIn.content, isIn.scope, isIn.markers, rfl⟩

/-- A function or a property has the annotations that are written on it, and so has a class
that is not known by another header. -/
theorem annotations_of_declaration? {tree : Tree} {lowered : Declaration}
    (found : place.declaration? tree = some lowered) :
    lowered.annotations = Annotation.listOfTree place tree ∨
      ∃ (written known : ClassHeader) (span : Option Span) (members : List Declaration)
          (initializers : List Expr),
        place.symbols.class? written.fqn = some known ∧ known.kind = written.kind ∧
          lowered = .classLike
            { known with supertypes := known.supertypes.map place.symbols.annotateSupertype }
            span members initializers := by
  cases declares_of_declaration? found with
  | function kind read => exact Or.inl (annotations_of_functionHeader read)
  | property kind named written => exact Or.inl written
  | @classLike written header _ _ _ read isKnown =>
    rcases place.knownHeader_cases written with ⟨known, here, kind, seen⟩ | ⟨_, seen⟩
    · rw [isKnown, seen]
      exact Or.inr ⟨written, known, _, _, _, here, kind, rfl⟩
    · rw [isKnown, seen]
      exact Or.inl (annotations_of_classHeader read)

theorem exists_written_of_classLike {tree : Tree} {header : ClassHeader} {span : Option Span}
    {members : List Declaration} {initializers : List Expr}
    (found : place.declaration? tree = some (.classLike header span members initializers)) :
    ∃ written, place.knownHeader written = header := by
  cases declares_of_declaration? found with
  | classLike _ _ _ known => exact ⟨_, known.symm⟩

/-- Where classes are known under their own names, a class that is known by a header of its
kind is seen with the annotations of that header. -/
theorem annotations_knownHeader
    (named : ∀ fqn known, place.symbols.class? fqn = some known → known.fqn = fqn)
    {written known : ClassHeader}
    (here : place.symbols.class? (place.knownHeader written).fqn = some known)
    (kind : known.kind = (place.knownHeader written).kind) :
    (place.knownHeader written).annotations = known.annotations := by
  rcases place.knownHeader_cases written with ⟨other, there, _, seen⟩ | ⟨unknown, seen⟩
  · rw [seen] at here ⊢
    rw [named _ other there, there] at here
    cases here
    rfl
  · rw [seen] at here kind
    exact absurd kind (unknown known here)

end Site

/-! ### The captures of one file -/

namespace ParsedFile

variable {file : ParsedFile} {markers : MarkerNames} {symbols : SymbolTable}

theorem exists_lowersTo {lowered : Declaration}
    (member : Item.declaration lowered ∈ (file.lower symbols markers).items) :
    ∃ tree, file.LowersTo markers symbols tree lowered := by
  obtain ⟨place, isIn, tree, treeMember, declared, found⟩ :=
    SourceFile.comesFrom_of_mem_items (file.site symbols markers) file.root _ member
  exact ⟨tree, treeMember, declared, place, isIn, found⟩

/-- From the end of an annotation on, a declaration is the end of its own text. -/
theorem range_of_writtenOn (wellFormed : file.root.WellFormed file.document.content)
    {tree : Tree} {lowered : Declaration} (lowers : file.LowersTo markers symbols tree lowered)
    {note : Annotation} (written : note.WrittenOn (file.site symbols markers) tree) :
    ∃ annotated declared, note.span = some annotated ∧ lowered.span = some declared ∧
      annotated.Within declared ∧ annotated.Fits file.document.content ∧
        declared.Fits file.document.content := by
  obtain ⟨below, _, place, _, found⟩ := lowers
  obtain ⟨node, nodeMember, view, _, _, _, rfl⟩ := written
  have nodeBelow := Tree.mem_nodes_of_mem_annotations nodeMember
  exact ⟨node.span, tree.span, rfl, Site.span_of_declaration? found,
    (wellFormed.ofMem below).within nodeBelow,
    wellFormed.fits node (Tree.mem_nodes_trans nodeBelow below), wellFormed.fits tree below⟩

/-- Where every declaration is captured for an annotation that is written on it, the captures
of a well-formed file are as expected. -/
theorem capturesOwn_of_writtenOn (wellFormed : file.root.WellFormed file.document.content)
    (own : ∀ lowered, Item.declaration lowered ∈ (file.lower symbols markers).items →
      ∀ note, lowered.CapturedFor note → ∃ tree, file.LowersTo markers symbols tree lowered ∧
        note.WrittenOn (file.site symbols markers) tree) :
    file.CapturesOwn markers symbols where
  annotation := own
  range lowered member note captured := by
    obtain ⟨tree, lowers, written⟩ := own lowered member note captured
    obtain ⟨annotated, declared, noteSpan, span, within, noteFits, fits⟩ :=
      range_of_writtenOn wellFormed lowers written
    have after : declared.start ≤ annotated.stop := Nat.le_trans within.1 noteFits.ordered
    exact ⟨annotated, declared, noteSpan, span, after, within.2,
      Text.slice?_of_within fits noteFits.stop after within.2⟩
  noSpanError emission path cause raised := by
    have fits : ∀ item ∈ (file.lower symbols markers).items,
        Capture.ItemFits file.document item := by
      intro item member
      cases item with
      | declaration lowered =>
        intro note captured annotated declared noteSpan span
        obtain ⟨tree, lowers, written⟩ := own lowered member note captured
        obtain ⟨_, _, sameNote, same, within, noteFits, declaredFits⟩ :=
          range_of_writtenOn wellFormed lowers written
        cases noteSpan.symm.trans sameNote
        cases span.symm.trans same
        exact ⟨within.2, noteFits.stop, declaredFits.stop⟩
      | expression expr =>
        intro place span
        obtain ⟨tree, treeMember, same⟩ :=
          SourceFile.comesFrom_of_mem_items (file.site symbols markers) file.root _ member
        cases span.symm.trans same
        exact wellFormed.fits tree treeMember
    exact capturesOf_raisesOnly fits emission _ raised path cause rfl

/-- The captures of a file are right just when no class of the file is known by an annotation of
another class. -/
theorem capturesOwn_iff (wellFormed : file.root.WellFormed file.document.content)
    (named : ∀ fqn known, symbols.class? fqn = some known → known.fqn = fqn) :
    file.CapturesOwn markers symbols ↔ file.KnownByOwn markers symbols := by
  constructor
  · intro captures header span members initializers member known here kind note only
    obtain ⟨tree, _, _, place, isIn, found⟩ := exists_lowersTo member
    obtain ⟨written, rfl⟩ := Site.exists_written_of_classLike found
    have symbolsHere : place.symbols = symbols := isIn.symbols
    rw [← symbolsHere] at named here
    refine captures.annotation _ member note ?_
    rw [Declaration.CapturedFor, Declaration.annotations,
      Site.annotations_knownHeader named here kind]
    exact only
  · intro own
    refine capturesOwn_of_writtenOn wellFormed fun lowered member note captured => ?_
    obtain ⟨tree, below, declared, place, isIn, found⟩ := exists_lowersTo member
    rcases Site.annotations_of_declaration? found with
      written | ⟨written, known, span, members, initializers, here, _, rfl⟩
    · refine ⟨tree, ⟨below, declared, place, isIn, found⟩, Site.writtenOn_of_mem isIn ?_⟩
      have noteMember : note ∈ lowered.annotations.filter (·.marks .captureSource) := by
        rw [captured]
        exact List.mem_singleton_self note
      rw [written] at noteMember
      exact (List.mem_filter.mp noteMember).1
    · refine own _ span members initializers member known ?_ rfl note captured
      have symbolsHere : place.symbols = symbols := isIn.symbols
      rw [symbolsHere] at here
      show symbols.class? known.fqn = some known
      rw [named _ known here, here]

end ParsedFile

/-! ### The captures of all files -/

/-- For well-formed files, every declaration is captured for an annotation of its own, from the
end of this annotation on and without an error about a span, just when no class is known by an
annotation of another class of its name. -/
theorem capturesOwn_iff_knownByOwn (markers : MarkerNames) (files : List ParsedFile)
    (wellFormed : ∀ file ∈ files, file.root.WellFormed file.document.content) :
    (∀ file ∈ files, file.CapturesOwn markers (symbolsOf markers files)) ↔
      ∀ file ∈ files, file.KnownByOwn markers (symbolsOf markers files) := by
  refine forall_congr' fun file => forall_congr' fun member => ?_
  exact ParsedFile.capturesOwn_iff (wellFormed file member)
    fun _ _ found => fqn_of_class?_symbolsOf markers files found

/-- A file with a class that is to be captured. -/
def annotatedFile : ParsedFile where
  document := .ofFile ⟨"/A.kt"⟩
    "import com.github.tarcv.kotbridge.CaptureSource\n@CaptureSource\nclass A\n".toList ⟨"/"⟩
  root := .branch "source_file" 0 71 [.libraryImport 0 13, .annotatedClass 48 1]

set_option maxRecDepth 10000 in
theorem annotatedFile_capturesOwn :
    (∀ file ∈ [annotatedFile], file.root.WellFormed file.document.content) ∧
      ∀ file ∈ [annotatedFile], file.CapturesOwn {} (symbolsOf {} [annotatedFile]) := by
  have wellFormed : ∀ file ∈ [annotatedFile], file.root.WellFormed file.document.content := by
    decide +kernel
  refine ⟨wellFormed, (capturesOwn_iff_knownByOwn {} [annotatedFile] wellFormed).mpr ?_⟩
  have own : ∀ tree ∈ annotatedFile.root.nodes, tree.isDeclaration = true →
      ∀ entry ∈ (symbolsOf {} [annotatedFile]).classes.entries, entry.2.annotations =
        Annotation.listOfTree (annotatedFile.site (symbolsOf {} [annotatedFile]) {}) tree := by
    decide +kernel
  intro file member header span members initializers item known here _ note only
  rw [List.mem_singleton] at member
  subst member
  obtain ⟨tree, lowers⟩ := ParsedFile.exists_lowersTo item
  refine ⟨tree, lowers, Site.writtenOn_of_mem (Site.IsIn.refl _) ?_⟩
  rw [← own tree lowers.1 lowers.2.1 _ (Table.mem_of_find? here)]
  exact (List.mem_filter.mp (only ▸ List.mem_singleton_self note)).1

/-- A file with a class that is to be captured, and with another one of its name in a function
further down. -/
def twinFile : ParsedFile where
  document := .ofFile ⟨"/A.kt"⟩
    ("import com.github.tarcv.kotbridge.CaptureSource\n@CaptureSource\nclass A\n" ++
      "fun g() \x7b\n    @CaptureSource\n    class A\n\x7d\n").toList ⟨"/"⟩
  root := .branch "source_file" 0 114 [
    .libraryImport 0 13,
    .annotatedClass 48 1,
    .branch "function_declaration" 71 113 [
      .token "fun" 71 74,
      .leaf "identifier" 75 76,
      .branch "function_value_parameters" 76 78 [.token "(" 76 77, .token ")" 77 78],
      .branch "function_body" 79 113 [
        .branch "block" 79 113
          [.token "\x7b" 79 80, .annotatedClass 85 5, .token "\x7d" 112 113]]]]

set_option maxRecDepth 10000 in
/-- The first class is captured for the annotation of the second one, which stands behind it. -/
theorem twinFile_captures_by_other_class :
    (∀ file ∈ [twinFile], file.root.WellFormed file.document.content) ∧
      ¬ ∀ file ∈ [twinFile], file.CapturesOwn {} (symbolsOf {} [twinFile]) := by
  refine ⟨by decide +kernel, fun captures => ?_⟩
  have notes : (ClassHeader.ofTree? (twinFile.site (symbolsOf {} [twinFile]) {})
      (.annotatedClass 48 1)).map (fun written =>
        (((twinFile.site (symbolsOf {} [twinFile]) {}).knownHeader written).annotations.filter
          (·.marks .captureSource)).map (·.span)) = some [some ⟨85, 99⟩] := by
    decide +kernel
  obtain ⟨written, read, spans⟩ := Option.map_eq_some_iff.mp notes
  obtain ⟨note, captured, noteSpan⟩ := List.map_eq_singleton_iff.mp spans
  have lowered : ∃ members initializers,
      (twinFile.site (symbolsOf {} [twinFile]) {}).declaration? (.annotatedClass 48 1) =
        some (.classLike ((twinFile.site (symbolsOf {} [twinFile]) {}).knownHeader written)
          (some ⟨48, 70⟩) members initializers) := by
    rw [Site.declaration?_eq, read]
    exact ⟨_, _, rfl⟩
  obtain ⟨members, initializers, lowered⟩ := lowered
  have member : Item.declaration (.classLike
      ((twinFile.site (symbolsOf {} [twinFile]) {}).knownHeader written) (some ⟨48, 70⟩) members
      initializers) ∈ (twinFile.lower (symbolsOf {} [twinFile]) {}).items := by
    refine SourceFile.mem_items_of_mem_declarations ?_
    exact List.mem_filterMap.mpr ⟨.annotatedClass 48 1, List.mem_cons_self, lowered⟩
  obtain ⟨annotated, declared, sameNote, same, _, before, _⟩ :=
    (captures twinFile (List.mem_singleton_self _)).range _ member note captured
  cases noteSpan.symm.trans sameNote
  cases same
  exact absurd before (by decide)

end SourceCapture
