/-
What a unit shows. A unit has its imports on a line each, then the function that calls the block and
the entry point on a line each, then the text of the block as it is, and a line that closes it. As
long as nothing but the text has line ends of its own, the lines in front of the text are told apart
by how they start, so the imports and the text can be read off the unit. Two units are the same only
if these are, whatever the text looks like.
-/

import SourceCapture.Proofs.Fragments.Answers
import SourceCapture.Proofs.Locations

namespace SourceCapture

/-! ### Texts on one line -/

/-- Whether a text has no line end. -/
def OneLine (text : String) : Prop := '\n' ∉ text.toList

instance (text : String) : Decidable (OneLine text) := inferInstanceAs (Decidable (_ ∉ _))

namespace OneLine

variable {left right separator : String} {texts : List String}

theorem append (first : OneLine left) (second : OneLine right) : OneLine (left ++ right) := by
  rw [OneLine, String.toList_append, List.mem_append, not_or]
  exact ⟨first, second⟩

theorem intercalate (between : OneLine separator) (all : ∀ text ∈ texts, OneLine text) :
    OneLine (separator.intercalate texts) := by
  rw [OneLine, String.toList_intercalate]
  induction texts with
  | nil => exact List.not_mem_nil
  | cons first rest inductionHypothesis =>
    rw [List.forall_mem_cons] at all
    cases rest with
    | nil =>
      rw [List.map_singleton, List.intercalate_singleton]
      exact all.1
    | cons second more =>
      have later := inductionHypothesis all.2
      rw [List.map_cons] at later ⊢
      rw [List.map_cons, List.intercalate_cons_cons, List.append_assoc, List.mem_append,
        List.mem_append, not_or, not_or]
      exact ⟨all.1, between, later⟩

end OneLine

namespace FragmentRequest

/-- Whether nothing of a request but its text has a line end. -/
structure StaysOnLines (request : FragmentRequest) : Prop where
  imports : ∀ name ∈ request.imports, OneLine name
  argument : OneLine request.converters.argument
  result : OneLine request.converters.result
  types : ∀ type ∈ request.parameterTypes, OneLine type
  location : OneLine request.location

instance (request : FragmentRequest) : Decidable request.StaysOnLines :=
  decidable_of_iff ((∀ name ∈ request.imports, OneLine name) ∧ OneLine request.converters.argument ∧
      OneLine request.converters.result ∧ (∀ type ∈ request.parameterTypes, OneLine type) ∧
      OneLine request.location)
    ⟨fun ⟨imports, argument, result, types, location⟩ =>
      ⟨imports, argument, result, types, location⟩,
    fun ⟨imports, argument, result, types, location⟩ =>
      ⟨imports, argument, result, types, location⟩⟩

variable {request other : FragmentRequest}

theorem oneLine_argumentName : ∀ name ∈ request.argumentNames, OneLine name := by
  intro name member
  obtain ⟨index, -, rfl⟩ := List.mem_map.mp member
  have digits : OneLine (toString (index + 1)) := Number.not_mem_toString (by decide)
  exact OneLine.append (by decide) digits

namespace StaysOnLines

theorem returnType (lines : request.StaysOnLines) : OneLine request.returnType := by
  rw [FragmentRequest.returnType]
  cases last : request.parameterTypes.getLast? with
  | none => exact (by decide : OneLine unitType)
  | some type => exact lines.types type (List.mem_of_getLast? last)

theorem argumentTypes (lines : request.StaysOnLines) :
    ∀ type ∈ request.argumentTypes, OneLine type :=
  fun type member => lines.types type (request.parameterTypes.dropLast_subset member)

theorem signature (lines : request.StaysOnLines) : ∀ text ∈ request.signature, OneLine text := by
  intro text member
  rw [FragmentRequest.signature, ← List.map_uncurry_zip_eq_zipWith] at member
  obtain ⟨⟨name, type⟩, inside, rfl⟩ := List.mem_map.mp member
  obtain ⟨nameInside, typeInside⟩ := List.of_mem_zip inside
  exact ((oneLine_argumentName name nameInside).append (by decide)).append
    (lines.argumentTypes type typeInside)

theorem caller (lines : request.StaysOnLines) : OneLine request.caller := by
  have block : OneLine ("block: (" ++ ", ".intercalate request.argumentTypes ++ ")->" ++
      request.returnType) :=
    ((OneLine.append (by decide) (.intercalate (by decide) lines.argumentTypes)).append
      (by decide)).append lines.returnType
  have parameters : OneLine (", ".intercalate (request.signature ++ ["block: (" ++
      ", ".intercalate request.argumentTypes ++ ")->" ++ request.returnType])) := by
    refine .intercalate (by decide) fun text member => ?_
    rcases List.mem_append.mp member with parameter | last
    · exact lines.signature text parameter
    · rw [List.mem_singleton.mp last]
      exact block
  have arguments : OneLine (", ".intercalate request.argumentNames) :=
    .intercalate (by decide) oneLine_argumentName
  exact (((((OneLine.append (by decide) parameters).append (by decide)).append
    lines.returnType).append (by decide)).append arguments).append (by decide)

theorem entryPoint (lines : request.StaysOnLines) : OneLine request.entryPoint := by
  have place : OneLine (sanitizeLocation request.location) := by
    rw [OneLine, sanitizeLocation, String.toList_ofList]
    intro member
    obtain ⟨char, inside, same⟩ := List.mem_map.mp member
    split at same
    · cases same
    · exact lines.location (same ▸ inside)
  have parameters : OneLine (", ".intercalate request.signature) :=
    .intercalate (by decide) lines.signature
  have arguments : OneLine (", ".intercalate (request.argumentNames.map fun name =>
      request.converters.argument ++ "(" ++ name ++ ")")) := by
    refine .intercalate (by decide) fun text member => ?_
    obtain ⟨name, inside, rfl⟩ := List.mem_map.mp member
    exact ((lines.argument.append (by decide)).append
      (oneLine_argumentName name inside)).append (by decide)
  exact (((((((OneLine.append (by decide) place).append (by decide)).append parameters).append
    (by decide)).append lines.result).append (by decide)).append arguments).append (by decide)

end StaysOnLines

/-! ### Lines of a unit -/

/-- What an import line starts with. -/
def importWord : List Char := "import ".toList

/-- The lines of a unit in front of its caller: an empty one stands for no imports. -/
def importBlock (request : FragmentRequest) : List (List Char) :=
  if request.imports = [] then [[]] else request.imports.map fun name => importWord ++ name.toList

theorem length_importBlock (request : FragmentRequest) :
    request.importBlock.length = max 1 request.imports.length := by
  rw [importBlock]
  split
  case isTrue none => rw [none]; rfl
  case isFalse some =>
    rw [List.length_map]
    exact (Nat.max_eq_right (List.length_pos_iff.mpr some)).symm

theorem toList_render (request : FragmentRequest) :
    request.render.toList = request.importLines.toList ++ '\n' :: (request.caller.toList ++ '\n' ::
      (request.entryPoint.toList ++ '\n' :: (request.text.toList ++ '\n' :: ['\x7d', ')']))) := by
  have newline : "\n".toList = ['\n'] := rfl
  have closing : "\n\x7d)".toList = ['\n', '\x7d', ')'] := rfl
  rw [render]
  simp only [String.toList_append, newline, closing, List.append_assoc, List.cons_append,
    List.nil_append]

theorem splitOn_importLines (lines : request.StaysOnLines) :
    request.importLines.toList.splitOn '\n' = request.importBlock := by
  have newline : "\n".toList = ['\n'] := rfl
  have written : (String.toList ∘ ("import " ++ ·)) = fun name => importWord ++ name.toList := by
    funext name
    exact String.toList_append
  rw [importLines, importBlock, String.toList_intercalate, List.map_map, newline, written]
  split
  case isTrue none => rw [none]; rfl
  case isFalse some =>
    refine List.splitOn_intercalate '\n' (fun line member => ?_) ?_
    · obtain ⟨name, inside, rfl⟩ := List.mem_map.mp member
      have word : '\n' ∉ importWord := by decide
      rw [List.mem_append, not_or]
      exact ⟨word, lines.imports name inside⟩
    · rwa [ne_eq, List.map_eq_nil_iff]

/-- The lines of a unit are its imports, the caller, the entry point, those of the text and the one
that closes the block. -/
theorem splitOn_render (lines : request.StaysOnLines) :
    request.render.toList.splitOn '\n' = request.importBlock ++ request.caller.toList ::
      request.entryPoint.toList :: (request.text.toList.splitOn '\n' ++ [['\x7d', ')']]) := by
  have last : List.splitOn '\n' ['\x7d', ')'] = [['\x7d', ')']] :=
    List.splitOn_eq_singleton (by decide)
  rw [toList_render, List.splitOn_append_cons_self, List.splitOn_append_cons_self,
    List.splitOn_append_cons_self, List.splitOn_append_cons_self, splitOn_importLines lines,
    List.splitOn_eq_singleton lines.caller, List.splitOn_eq_singleton lines.entryPoint, last]
  rfl

/-! ### Reading a unit back -/

/-- The names of the import lines with which some lines start. -/
def importedBy : List (List Char) → List (List Char)
  | [] => []
  | line :: rest =>
    match Text.stripStart? importWord line with
    | some name => name :: importedBy rest
    | none => []

/-- The imports and the text of the block as a unit shows them: behind the imports, or an empty line,
are two lines that belong to neither, and so does the last line. -/
def readUnit (unit : List Char) : List (List Char) × List Char :=
  let lines := unit.splitOn '\n'
  let imports := importedBy lines
  (imports, ['\n'].intercalate (lines.drop (max 1 imports.length + 2)).dropLast)

theorem importedBy_append (names : List (List Char)) {line : List Char}
    (other : Text.stripStart? importWord line = none) (rest : List (List Char)) :
    importedBy (names.map (importWord ++ ·) ++ line :: rest) = names := by
  induction names with
  | nil => rw [List.map_nil, List.nil_append, importedBy, other]
  | cons name names inductionHypothesis =>
    rw [List.map_cons, List.cons_append, importedBy, Text.stripStart?_eq_some.mpr rfl,
      inductionHypothesis]

/-- The caller is no import, since it starts with another word. -/
theorem stripStart?_caller (request : FragmentRequest) :
    Text.stripStart? importWord request.caller.toList = none := by
  obtain ⟨rest, starts⟩ : ∃ rest, request.caller = "inline fun __caller(" ++ rest :=
    ⟨_, by delta caller; simp only [String.append_assoc]; rfl⟩
  have word : "inline fun __caller(".toList = 'i' :: 'n' :: "line fun __caller(".toList := rfl
  rw [starts, String.toList_append, word]
  rfl

theorem importedBy_importBlock (request : FragmentRequest) (rest : List (List Char)) :
    importedBy (request.importBlock ++ request.caller.toList :: rest) =
      request.imports.map String.toList := by
  rw [importBlock]
  split
  case isTrue none => rw [none]; rfl
  case isFalse =>
    have block : (request.imports.map fun name => importWord ++ name.toList) =
        (request.imports.map String.toList).map (importWord ++ ·) := List.map_map.symm
    rw [block, importedBy_append _ request.stripStart?_caller]

/-- The imports and the text are read off a unit, whatever lines the text has. -/
theorem readUnit_render (lines : request.StaysOnLines) :
    readUnit request.render.toList = (request.imports.map String.toList, request.text.toList) := by
  have behind : ∀ text : List (List Char), (request.importBlock ++ request.caller.toList ::
      request.entryPoint.toList :: text).drop (max 1 request.imports.length + 2) = text := by
    intro text
    rw [← length_importBlock, ← List.drop_drop, List.drop_left]
    rfl
  rw [readUnit, splitOn_render lines, importedBy_importBlock, List.length_map, behind,
    List.dropLast_concat, List.intercalate_splitOn]

/-- What is read off a unit is what was asked for, so units that are the same have the same text and
the same imports. A file whose bytes are those of a unit and that is left alone for another one shows
the text and the imports of that one. -/
theorem readUnit_render_and_apart (lines : request.StaysOnLines) (otherLines : other.StaysOnLines) :
    readUnit request.render.toList = (request.imports.map String.toList, request.text.toList) ∧
      (request.render = other.render →
        request.text = other.text ∧ request.imports = other.imports) ∧
      ∀ (emitter : Emitter) store path after, store.readBytes path = .ok other.render.toUTF8 →
        (Emitter.writeIfChanged path request.render.toUTF8).run (emitter, store) =
            (.ok false, after) →
          request.text = other.text ∧ request.imports = other.imports := by
  have apart : request.render = other.render →
      request.text = other.text ∧ request.imports = other.imports := by
    intro same
    have parts := readUnit_render lines
    rw [same, readUnit_render otherLines] at parts
    obtain ⟨imports, text⟩ := Prod.mk.inj parts
    exact ⟨(String.toList_inj.mp text).symm,
      ((List.map_inj_right fun _ _ => String.toList_inj.mp).mp imports).symm⟩
  refine ⟨readUnit_render lines, apart, fun emitter store path after held left => apart ?_⟩
  classical
  rw [Emitter.run_writeIfChanged] at left
  split at left
  case isTrue same =>
    rw [held] at same
    exact (String.toByteArray_inj.mp (Except.ok.inj same)).symm
  case isFalse =>
    split at left
    · cases left
    · cases left

/-- A block of lines that could belong to a unit themselves. -/
def misleadingRequest (location : String) : FragmentRequest where
  text := "import q.twice\ninline fun __caller() = 1\n\x7d)\n"
  imports := ["p.twice", "p.*"]
  converters := ⟨"show", "read"⟩
  parameterTypes := ["Int", "Map<Int, Int>"]
  location := location

/-- Two places that are written alike in the comment of a unit. -/
theorem misleadingRequest_readUnit_render_and_apart :
    (misleadingRequest "a/A.kt:4").StaysOnLines ∧ (misleadingRequest "a_A.kt:4").StaysOnLines ∧
      readUnit (misleadingRequest "a/A.kt:4").render.toList =
        (["p.twice".toList, "p.*".toList], (misleadingRequest "a/A.kt:4").text.toList) ∧
      (misleadingRequest "a/A.kt:4").render = (misleadingRequest "a_A.kt:4").render ∧
      (misleadingRequest "a/A.kt:4").imports = (misleadingRequest "a_A.kt:4").imports := by
  have lines : (misleadingRequest "a/A.kt:4").StaysOnLines := by decide
  have otherLines : (misleadingRequest "a_A.kt:4").StaysOnLines := by decide
  have same : (misleadingRequest "a/A.kt:4").render = (misleadingRequest "a_A.kt:4").render := by
    decide +kernel
  obtain ⟨read, apart, -⟩ := readUnit_render_and_apart lines otherLines
  exact ⟨lines, otherLines, read, same, (apart same).2⟩

end FragmentRequest

end SourceCapture
