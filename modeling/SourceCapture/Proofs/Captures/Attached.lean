/-
Captures while the program runs. The build puts the encoded location, the text and the name of
the fragment of a capture into the program, where a value is given them as its source. The
location is read back as it was, and where the build emits fragments, the name of a block leads
to the file of its text in a resource folder.
-/

import SourceCapture.Loader
import SourceCapture.Proofs.Captures.Ranges
import SourceCapture.Proofs.Files.Resources
import SourceCapture.Proofs.Fragments.Answers

namespace SourceCapture

/-! ### Names of fragments -/

namespace Emission

variable {emission after : Emission} {request : FragmentRequest} {fragment? : Option Fragment}
  {extension? : Option String}

/-- Whether fragments are compiled under one extension, if they are emitted at all. -/
structure NamesArtifacts (extension? : Option String) (emission : Emission) : Prop where
  extension : emission.emitter?.map (·.artifactExtension) = extension?
  own : ∀ emitter ∈ emission.emitter?, emitter.RemembersOwn

/-- The name of a fragment comes from the text alone. -/
theorem NamesArtifacts.emit? (names : emission.NamesArtifacts extension?)
    (emits : (Emission.emit? request).run emission = (.ok fragment?, after)) :
    fragment?.map (·.artifact) = extension?.map (fragmentHash request.text ++ "." ++ ·) ∧
      after.NamesArtifacts extension? := by
  obtain ⟨rfl, own⟩ := names
  obtain ⟨emitter?, store⟩ := emission
  rw [run_emit?] at emits
  cases emitter? with
  | none =>
    cases emits
    exact ⟨rfl, rfl, own⟩
  | some emitter =>
    dsimp only at emits
    split at emits
    case h_2 => cases emits
    case h_1 fragment left answered =>
      cases emits
      obtain ⟨unit, owns, table, same⟩ := (own emitter rfl).emit answered
      refine ⟨?_, ?_, ?_⟩
      · rw [unit]
        rfl
      · rw [same]
        rfl
      · rintro _ ⟨⟩
        exact owns

end Emission

/-- What an attempt leaves behind still names fragments alike. -/
theorem Capture.Yields.namesArtifacts {document : Document} {item : Item}
    {emission after : Emission} {found : Option Capture} {extension? : Option String}
    (yields : Yields document item emission found after)
    (names : emission.NamesArtifacts extension?) : after.NamesArtifacts extension? := by
  cases yields with
  | nothing => exact names
  | declaration => exact names
  | block read emits => exact (names.emit? emits).2

/-- The name of the fragment that a capture has: blocks have one if fragments are emitted. -/
def Capture.artifactUnder (capture : Capture) : Option String → String
  | some extension =>
    match capture.kind with
    | .block => fragmentHash capture.source.text ++ "." ++ extension
    | .declaration => ""
  | none => ""

theorem Capture.artifactUnder_ne_iff (capture : Capture) (extension? : Option String) :
    capture.artifactUnder extension? ≠ "" ↔
      capture.kind = .block ∧ extension?.isSome = true := by
  cases extension? with
  | none => exact iff_of_false (fun differs => differs rfl) fun both => nomatch both.2
  | some extension =>
    rw [artifactUnder]
    cases kind : capture.kind with
    | block =>
      refine iff_of_true (fun empty => ?_) ⟨rfl, rfl⟩
      have letters := congrArg String.toList empty
      rw [String.toList_append, String.toList_append] at letters
      obtain ⟨front, -⟩ := List.append_eq_nil_iff.mp letters
      exact nomatch (List.append_eq_nil_iff.mp front).2
    | declaration => exact iff_of_false (fun differs => differs rfl) fun both => nomatch both.1

theorem Capture.artifact_eq_of_mem {document : Document} {file : SourceFile}
    {emission after : Emission} {captures : List Capture} {capture : Capture}
    {extension? : Option String} (names : emission.NamesArtifacts extension?)
    (ran : (capturesOf document file).run emission = (.ok captures, after))
    (member : capture ∈ captures) :
    capture.source.artifact = capture.artifactUnder extension? := by
  -- The emitter that a block meets is not the one at the start, but it names fragments alike.
  obtain ⟨item, -, before, left, namesBefore, yields⟩ :=
    exists_yields_of_mem (fun _ _ _ _ names yields => Yields.namesArtifacts yields names) names ran
      member
  cases yields with
  | declaration taken =>
    obtain ⟨span, excerpt, location, -, -, rfl⟩ := exists_of_declaration? taken
    cases extension? with
    | none => rfl
    | some extension => rfl
  | block read emits =>
    have artifact := (namesBefore.emit? emits).1
    rw [ofBlock]
    dsimp only
    rw [artifact]
    cases extension? with
    | none => rfl
    | some extension => rfl

/-! ### Locations of captures -/

theorem Position.fits_after {text : List Char} (short : text.length < Number.unsignedLimit) :
    (Position.after text).Fits where
  char := short.le
  line := by
    have lines : text.count '\n' ≤ text.length := List.count_le_length
    show 1 + text.count '\n' ≤ Number.unsignedLimit
    omega
  column := by
    have onLine : (text.reverse.takeWhile (· ≠ '\n')).length ≤ text.reverse.length :=
      (List.takeWhile_prefix _).length_le
    rw [List.length_reverse] at onLine
    exact onLine.trans short.le

/-- The location of a range of a file is read back from its encoding. -/
theorem Document.decode_encode_location {path projectDir : Path} {content : List Char}
    {span : Span} {excerpt : Excerpt} {location : Location}
    (short : content.length < Number.unsignedLimit)
    (cut : (ofFile path content projectDir).excerpt span = .ok excerpt)
    (placed : (ofFile path content projectDir).location excerpt.trimmed = .ok location) :
    Location.decode location.encode = .ok location := by
  obtain ⟨before, core, rest, width, splits, -, -⟩ := exists_of_excerpt cut
  have checked := location_of_splits splits placed
  obtain rfl := Location.eq_of_ofParts checked
  have lengths : before.length + (core.length + rest.length) = content.length := by
    rw [splits.split, List.length_append, List.length_append]
  have start : (Position.after before).Fits := Position.fits_after (by omega)
  have stop : (Position.after (before ++ core)).Fits := by
    refine Position.fits_after ?_
    rw [List.length_append]
    omega
  rw [Location.decode_encode (Location.newline_not_mem_of_check checked) start stop]
  exact checked

/-! ### Attaching -/

/-- What a program gets of a capture: attaching what the build put there succeeds with the
source of the capture. Its fragment has a name just when it is a block and fragments are
emitted; the name comes from the text, and a resource folder hands it out. -/
structure Capture.Attaches (capture : Capture) (emitter? : Option Emitter) : Prop where
  attach : ∀ (Value : Type) (value : Captured Value), ∃ attached,
    value.attach capture.source.location.encode capture.source.text capture.source.artifact =
      .ok attached ∧ attached.value = value.value ∧ attached.source = .ok capture.source
  artifact_ne_iff :
    capture.source.artifact ≠ "" ↔ capture.kind = .block ∧ emitter?.isSome = true
  artifact : ∀ emitter ∈ emitter?, capture.kind = .block →
    capture.source.artifact =
        fragmentHash capture.source.text ++ "." ++ emitter.artifactExtension ∧
      ResourceFolder.accepts capture.source.artifact = true

/-- Every capture of a pass over a file can be attached to a value. A text in memory has fewer
characters than 64 bits can count. -/
theorem captures_attach {path projectDir : Path} {content : List Char} {file : SourceFile}
    {emission after : Emission} {captures : List Capture}
    (short : content.length < Number.unsignedLimit)
    (own : ∀ emitter ∈ emission.emitter?, emitter.RemembersOwn)
    (noSlash : ∀ emitter ∈ emission.emitter?, '/' ∉ emitter.artifactExtension.toList)
    (ran : (capturesOf (.ofFile path content projectDir) file).run emission =
      (.ok captures, after)) :
    ∀ capture ∈ captures, capture.Attaches emission.emitter? := by
  intro capture member
  obtain ⟨span, excerpt, cut, placed, -⟩ := Capture.exists_excerpt_of_mem ran member
  have read := Document.decode_encode_location short cut placed
  have artifact := Capture.artifact_eq_of_mem ⟨rfl, own⟩ ran member
  constructor
  case attach =>
    intro Value value
    refine ⟨value.withSource capture.source, ?_, rfl, value.source_withSource capture.source⟩
    rw [Captured.attach, read]
  case artifact_ne_iff => rw [artifact, Capture.artifactUnder_ne_iff, Option.isSome_map]
  case artifact =>
    intro emitter emits isBlock
    have name : capture.source.artifact =
        fragmentHash capture.source.text ++ "." ++ emitter.artifactExtension := by
      rw [artifact, Option.mem_def.mp emits, Option.map_some, Capture.artifactUnder, isBlock]
    refine ⟨name, ?_⟩
    rw [name]
    exact ResourceFolder.accepts_of_isEntryName
      (isEntryName_fragmentHash capture.source.text (noSlash emitter emits))

/-- The block and the property of the file can both be attached to a value. -/
theorem notedFile_captures_attach : notedText.toList.length < Number.unsignedLimit ∧
    (∀ emitter ∈ notedEmission.emitter?, emitter.RemembersOwn) ∧
      (∀ emitter ∈ notedEmission.emitter?, '/' ∉ emitter.artifactExtension.toList) ∧
        ∃ captures after,
          (capturesOf notedDocument notedFile).run notedEmission = (.ok captures, after) ∧
            captures.map (·.source.text) = ["val told = 1", "first()\nsecond()"] ∧
              ∀ capture ∈ captures, capture.Attaches notedEmission.emitter? := by
  have short : notedText.toList.length < Number.unsignedLimit := by decide +kernel
  have own : ∀ emitter ∈ notedEmission.emitter?, emitter.RemembersOwn := by
    rintro emitter ⟨⟩
    exact notedEmitter.remembersOwn_forRun
  have noSlash : ∀ emitter ∈ notedEmission.emitter?, '/' ∉ emitter.artifactExtension.toList := by
    rintro emitter ⟨⟩
    decide
  obtain ⟨captures, after, ran, texts⟩ := run_notedFile
  exact ⟨short, own, noSlash, captures, after, ran, texts, captures_attach short own noSlash ran⟩

end SourceCapture
