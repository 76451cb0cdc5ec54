/-
What can end the capture of a block. The range of a converted lambda is that of a node, so in a
file with a well-formed tree it is a range of the text. Braces and white space are whole
characters, so the range between the braces and that of the trimmed text fit the text again, and
both ends have positions: they can be counted, the lines start at one, and the characters before
the start are some of those before the stop. Of the rules of locations only those about the path
are left, and besides them arguments without a value and writing.
-/

import SourceCapture.Proofs.Captures.Failures
import SourceCapture.Proofs.Captures.SampleRuns
import SourceCapture.Proofs.Lowering.Origins
import SourceCapture.Proofs.Positions

namespace SourceCapture

/-! ### Locations of ranges that fit -/

/-- Whether a location is refused for its path alone. -/
def LocationError.IsAboutPath (path : String) : LocationError → Prop
  | .emptyPath => path = ""
  | .multilinePath => '\n' ∈ path.toList
  | .absolutePath named => named = path ∧ Location.looksAbsolute path.toList = true
  | _ => False

/-- With lines from one on and ends in order, only the path can be against the rules. -/
theorem Location.isAboutPath_of_ofParts {path : String} {start stop : Position}
    {cause : LocationError} (startLine : start.line ≠ 0) (stopLine : stop.line ≠ 0)
    (ordered : start.char ≤ stop.char) (refused : ofParts path start stop = .error cause) :
    cause.IsAboutPath path := by
  rw [ofParts, check] at refused
  split at refused
  case isTrue empty =>
    cases refused
    exact String.isEmpty_iff.mp empty
  case isFalse =>
    split at refused
    case isTrue newline =>
      cases refused
      exact List.contains_iff_mem.mp newline
    case isFalse =>
      split at refused
      case isTrue absolute =>
        cases refused
        exact ⟨rfl, absolute⟩
      case isFalse =>
        have counted : ¬(decide (start.line = 0) || decide (stop.line = 0)) = true := by
          rw [Bool.or_eq_true, decide_eq_true_iff, decide_eq_true_iff]
          exact not_or.mpr ⟨startLine, stopLine⟩
        rw [if_neg counted, if_neg (Nat.not_lt.mpr ordered)] at refused
        cases refused

theorem Position.line_after_ne_zero (text : List Char) : (after text).line ≠ 0 :=
  Nat.ne_of_gt (Nat.add_pos_left Nat.one_pos _)

theorem Position.char_after_le (front back : List Char) :
    (after front).char ≤ (after (front ++ back)).char := by
  show front.length ≤ (front ++ back).length
  rw [List.length_append]
  exact Nat.le_add_right _ _

/-- Whether an error can end the capture of a block of a file. -/
def CaptureError.IsOfBlock (document : Document) : CaptureError → Prop
  | .nonConstantArgument _ _ file _ => file = document.relativePath
  | .span _ _ => False
  | .location path cause => path = document.path ∧ cause.IsAboutPath document.relativePath
  | .write _ _ => True

namespace Document

variable {path projectDir : Path} {content : List Char} {span : Span}

/-- A range that fits its file has a location unless the path of the file is refused. -/
theorem location_failsOnly_isOfBlock (path projectDir : Path) (fits : span.Fits content) :
    FailsOnly (CaptureError.IsOfBlock (ofFile path content projectDir))
      ((ofFile path content projectDir).location span) := by
  obtain ⟨left, core, right, splits⟩ := Text.exists_splits_of_fits fits
  obtain ⟨start, stop⟩ := position_of_splits path projectDir splits
  rw [location_of_positions _ start stop]
  cases parts : Location.ofParts (ofFile path content projectDir).relativePath
      (Position.after left) (Position.after (left ++ core)) with
  | ok location => exact FailsOnly.ok location
  | error cause =>
    refine FailsOnly.error ⟨rfl, ?_⟩
    exact Location.isAboutPath_of_ofParts (Position.line_after_ne_zero left)
      (Position.line_after_ne_zero (left ++ core)) (Position.char_after_le left core) parts

/-- How a block is cut out of its file: the range between its braces, the text there, and the
positions of both ends of that text, in order. -/
structure CutsBlock (document : Document) (place inner : Span) (excerpt : Excerpt)
    (start stop : Position) : Prop where
  body : bodySpan document.content place = .ok inner
  text : Excerpt.ofSpan document.content inner = .ok excerpt
  atStart : document.position excerpt.trimmed.start = .ok start
  atStop : document.position excerpt.trimmed.stop = .ok stop
  ordered : start.char ≤ stop.char

theorem exists_cutsBlock (path projectDir : Path) (fits : span.Fits content) :
    ∃ inner excerpt start stop,
      (ofFile path content projectDir).CutsBlock span inner excerpt start stop := by
  obtain ⟨inner, body, innerFits⟩ := exists_bodySpan fits
  obtain ⟨excerpt, cut, trimmedFits⟩ := Excerpt.exists_ofSpan innerFits
  obtain ⟨left, core, right, splits⟩ := Text.exists_splits_of_fits trimmedFits
  obtain ⟨start, stop⟩ := position_of_splits path projectDir splits
  exact ⟨inner, excerpt, _, _, body, cut, start, stop, Position.char_after_le left core⟩

end Document

/-! ### Blocks of well-formed files -/

/-- Every block of a file with a well-formed tree that is converted to an interface can be cut out
of the file. Capturing it only fails for an argument without a value, for a fragment that cannot
be written, or for the relative path of the file itself. -/
theorem ParsedFile.cutsBlock_and_raisesOnly (path projectDir : Path) (content : List Char)
    (root : Tree) (symbols : SymbolTable) (markers : MarkerNames)
    (wellFormed : root.WellFormed content) :
    ∀ span type owner operand,
      Item.expression (.conversion span type owner operand) ∈
        ((⟨.ofFile path content projectDir, root⟩ : ParsedFile).lower symbols markers).items →
      (∃ place inner excerpt start stop, span = some place ∧
        (Document.ofFile path content projectDir).CutsBlock place inner excerpt start stop) ∧
      RaisesOnly (CaptureError.IsOfBlock (.ofFile path content projectDir))
        (Capture.block? (.ofFile path content projectDir) span type owner operand) := by
  intro span type owner operand member
  obtain ⟨node, known, same⟩ := SourceFile.comesFrom_of_mem_items _ _ _ member
  have place : span = some node.span := same
  have fits := wellFormed.fits node known
  constructor
  · obtain ⟨inner, excerpt, start, stop, cuts⟩ := Document.exists_cutsBlock path projectDir fits
    exact ⟨node.span, inner, excerpt, start, stop, place, cuts⟩
  · have converters : FailsOnly (CaptureError.IsOfBlock (.ofFile path content projectDir))
        (Converters.ofInterface (.ofFile path content projectDir) owner) :=
      Converters.ofCandidates_failsOnly fun _ _ _ _ _ _ _ _ _ _ => rfl
    refine Capture.block?_raisesOnly converters ?_ (fun _ => ?_) (fun _ _ => trivial) type operand
    · intro other given
      rw [place] at given
      cases given
      exact fits
    · exact Document.location_failsOnly_isOfBlock path projectDir

/-- The block of the script is cut out of it. -/
theorem scriptFile_cutsBlock :
    scriptTree.WellFormed (Text.normalizeNewlines scriptContent) ∧
      Item.expression (.blockConversion "A" scriptOwner 70) ∈
        (scriptFile.lower (symbolsOf {} [scriptFile]) {}).items ∧
      (∃ place inner excerpt start stop, some ⟨70, 75⟩ = some place ∧
        scriptFile.document.CutsBlock place inner excerpt start stop) ∧
      RaisesOnly (CaptureError.IsOfBlock scriptFile.document)
        (Capture.block? scriptFile.document (some ⟨70, 75⟩)
          (.of "A" (scriptOwner.typeParameters.map fun _ => TypeRef.unknown) false) scriptOwner
          (.lambda (some ⟨70, 75⟩) [])) := by
  have wellFormed : scriptTree.WellFormed (Text.normalizeNewlines scriptContent) := by
    decide +kernel
  exact ⟨wellFormed, blockConversion_mem_items_script,
    ParsedFile.cutsBlock_and_raisesOnly scriptPath ⟨"/p"⟩ (Text.normalizeNewlines scriptContent)
      scriptTree (symbolsOf {} [scriptFile]) {} wellFormed _ _ _ _
      blockConversion_mem_items_script⟩

end SourceCapture
