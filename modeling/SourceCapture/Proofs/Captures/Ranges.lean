/-
Which part of a file a capture stands for. The text of a capture and its location are computed
apart: the one by taking indentation and white space off a slice, the other by moving the ends
of a span. Both describe the same range, which is empty or has no white space at its ends, and
the text is that range without some indentation.
-/

import SourceCapture.Proofs.Captures.Attempts
import SourceCapture.Proofs.Locations
import SourceCapture.Proofs.Positions
import SourceCapture.Proofs.Text.Unindent

namespace SourceCapture

/-- A source is cut out of a text: its location is the range of `core`, and its text is `core`
without `width` characters of indentation on the lines after the first one. -/
structure Source.IsCut (source : Source) (content before core rest : List Char) (width : Nat) :
    Prop where
  split : content = before ++ (core ++ rest)
  tight : Text.IsTight core
  start : source.location.start = Position.after before
  stop : source.location.stop = Position.after (before ++ core)
  text : Text.DropsIndent width core source.text.toList
  sameInk : Text.removeBlanks source.text.toList = Text.removeBlanks core
  empty : source.text = "" ↔ core = []

variable {path projectDir : Path} {content : List Char} {span : Span} {excerpt : Excerpt}
  {source : Source}

/-- The two halves of an excerpt belong together. -/
theorem Document.exists_of_excerpt
    (cut : (ofFile path content projectDir).excerpt span = .ok excerpt) :
    ∃ before core rest width, Text.Splits content excerpt.trimmed before core rest ∧
      Text.IsTight core ∧ Text.Unindents width 0 core excerpt.text := by
  rw [Document.excerpt, Excerpt.ofSpan] at cut
  split at cut
  case h_2 => cases cut
  case h_1 slice found =>
    cases cut
    obtain ⟨left, right, splits⟩ := Text.exists_splits_of_slice? found
    obtain ⟨head, core, tail, trims⟩ := Text.exists_trims slice
    exact ⟨left ++ head, core, tail ++ right, _, Excerpt.splits_trimmedSpan splits trims,
      trims.tight, Text.unindents_normalize trims⟩

/-- What is stored of a range of a file. -/
theorem Source.exists_isCut
    (cut : (Document.ofFile path content projectDir).excerpt span = .ok excerpt)
    (placed : (Document.ofFile path content projectDir).location excerpt.trimmed =
      .ok source.location)
    (same : source.text = String.ofList excerpt.text) :
    ∃ before core rest width, source.IsCut content before core rest width := by
  obtain ⟨before, core, rest, width, splits, tight, unindents⟩ := Document.exists_of_excerpt cut
  have parts := Location.eq_of_ofParts (Document.location_of_splits splits placed)
  have text : excerpt.text = source.text.toList := by
    rw [same, String.toList_ofList]
  rw [text] at unindents
  refine ⟨before, core, rest, width, splits.split, tight, ?_, ?_, unindents.dropsIndent,
    unindents.removeBlanks_eq, ?_⟩
  · rw [parts]
  · rw [parts]
  · rw [← String.toList_eq_nil_iff]
    constructor
    · intro nothing
      refine tight.eq_nil_of_allBlank ?_
      rw [← Text.removeBlanks_eq_nil_iff, ← unindents.removeBlanks_eq, nothing]
      rfl
    · intro nothing
      have fewer := unindents.sublist
      rw [nothing] at fewer
      exact List.sublist_nil.mp fewer

/-- A capture of a file is cut out of it. -/
theorem Capture.exists_excerpt_of_mem {document : Document} {file : SourceFile}
    {emission after : Emission} {captures : List Capture} {capture : Capture}
    (ran : (capturesOf document file).run emission = (.ok captures, after))
    (member : capture ∈ captures) :
    ∃ span excerpt, document.excerpt span = .ok excerpt ∧
      document.location excerpt.trimmed = .ok capture.source.location ∧
        capture.source.text = String.ofList excerpt.text := by
  obtain ⟨item, -, before, left, -, yields⟩ :=
    exists_yields_of_mem (fun _ _ _ _ (always : True) _ => always) trivial ran member
  cases yields with
  | declaration taken =>
    obtain ⟨span, excerpt, location, cut, placed, rfl⟩ := exists_of_declaration? taken
    exact ⟨span, excerpt, cut, placed, rfl⟩
  | block read emits =>
    obtain ⟨inner, excerpt, cut, placed, same⟩ := exists_of_readBlock read
    exact ⟨inner, excerpt, cut, placed, same⟩

/-- Every capture of a pass over a file describes one range of it: the location holds the true
positions of its ends, and the text is the range without a fixed indentation. -/
theorem captures_isCut {file : SourceFile} {emission after : Emission} {captures : List Capture}
    (ran : (capturesOf (.ofFile path content projectDir) file).run emission =
      (.ok captures, after)) :
    ∀ capture ∈ captures, ∃ before core rest width,
      capture.source.IsCut content before core rest width := by
  intro capture member
  obtain ⟨span, excerpt, cut, placed, same⟩ := Capture.exists_excerpt_of_mem ran member
  exact Source.exists_isCut cut placed same

/-! ### A file with a block and a declaration -/

def notedText : String :=
  "run \x7b\n    first()\n    second()\n\x7d\n@CaptureSource val told = 1\n"

def notedDocument : Document := .ofFile ⟨"/p/A.kt"⟩ notedText.toList ⟨"/p"⟩

def notedProperty : Declaration :=
  .property "told" "told" [⟨"CaptureSource", some .captureSource, some ⟨33, 47⟩, []⟩]
    (some ⟨33, 60⟩) []

def notedBlock : Expr :=
  .conversion (some ⟨4, 32⟩) (.of "Block" [] false)
    ⟨"Block", "Block", .functionalInterface, [], [],
      [⟨.of "Capturable" [] false, some .capturable, []⟩]⟩
    (.lambda (some ⟨4, 32⟩) [])

def notedFile : SourceFile where
  declarations := [notedProperty]
  statements := [notedBlock]

def notedEmitter : Emitter where
  outDir := ⟨"/out"⟩

def notedEmission : Emission where
  emitter? := some notedEmitter.forRun
  store := {}

set_option maxRecDepth 10000 in
theorem run_notedFile : ∃ captures after,
    (capturesOf notedDocument notedFile).run notedEmission = (.ok captures, after) ∧
      captures.map (·.source.text) = ["val told = 1", "first()\nsecond()"] := by
  have checked : (match ((capturesOf notedDocument notedFile).run notedEmission).1 with
      | .ok captures =>
        decide (captures.map (·.source.text) = ["val told = 1", "first()\nsecond()"])
      | .error _ => false) = true := by
    decide +kernel
  generalize (capturesOf notedDocument notedFile).run notedEmission = outcome at checked
  obtain ⟨result, after⟩ := outcome
  cases result with
  | error error => cases checked
  | ok captures => exact ⟨captures, after, rfl, of_decide_eq_true checked⟩

/-- The block is stored without the indentation of its second line. -/
theorem notedFile_captures_isCut : ∃ captures after,
    (capturesOf notedDocument notedFile).run notedEmission = (.ok captures, after) ∧
      captures.map (·.source.text) = ["val told = 1", "first()\nsecond()"] ∧
        ∀ capture ∈ captures, ∃ before core rest width,
          capture.source.IsCut notedText.toList before core rest width := by
  obtain ⟨captures, after, ran, texts⟩ := run_notedFile
  exact ⟨captures, after, ran, texts, captures_isCut ran⟩

end SourceCapture
