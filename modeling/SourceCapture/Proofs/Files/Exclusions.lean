/-
Which files are left out, and whether it matters where the project is. An exclusion is compared
with the path of a file below the project, which is the same wherever the project is: what stands
in front of it in the whole path is used up by the root. It is also compared with the whole path,
which is not. Without a slash at its start, only a pattern that starts with a wildcard can match
a whole path, and then it may be the folders above the project that it matches.
-/

import SourceCapture.Extraction
import SourceCapture.Proofs.Files.Moves

namespace SourceCapture

/-! ### Paths below the project -/

namespace Path

/-- A relative path as it is written, without what adds nothing at its ends. -/
def tidied (below : String) : String :=
  String.ofList (['/'].intercalate (trimSegments (below.toList.splitOn '/')))

variable {path : Path} {below : String}

theorem trimSegments_append_of_idle {idle : List (List Char)}
    (adds : ∀ segment ∈ idle, componentOf? segment = none) (segments : List (List Char)) :
    trimSegments (idle ++ segments) = trimSegments segments := by
  have dropped : ∀ segment ∈ idle, (componentOf? segment).isNone = true :=
    fun segment member => Option.isNone_iff_eq_none.mpr (adds segment member)
  rw [trimSegments, trimSegments, List.dropWhile_append_of_pos dropped]

/-- Skipping the components of some segments skips these segments, up to some that add nothing. -/
theorem exists_skipSegments (front segments : List (List Char)) :
    ∃ idle, (∀ segment ∈ idle, componentOf? segment = none) ∧
      skipSegments (front.filterMap componentOf?) (front ++ segments) =
        some (idle ++ segments) := by
  induction front with
  | nil =>
    refine ⟨[], nofun, ?_⟩
    cases segments <;> rfl
  | cons first rest inductionHypothesis =>
    rw [List.filterMap_cons, List.cons_append]
    cases found : componentOf? first with
    | none =>
      dsimp only
      cases components : rest.filterMap componentOf? with
      | nil =>
        refine ⟨first :: rest, ?_, rfl⟩
        rw [List.forall_mem_cons]
        exact ⟨found, List.filterMap_eq_nil_iff.mp components⟩
      | cons expected others =>
        rw [skipSegments, found]
        dsimp only
        rw [← components]
        exact inductionHypothesis
    | some component =>
      rw [skipSegments, found]
      dsimp only
      rw [if_pos rfl]
      exact inductionHypothesis

/-- The segments of an absolute path in front of a joined name are the root and segments with the
other components of the path. -/
theorem exists_segmentsBefore (absolute : path.isAbsolute = true) :
    ∃ front, path.segmentsBefore = [] :: front ∧
      path.components = .root :: front.filterMap componentOf? := by
  obtain ⟨rest, text⟩ := List.head?_eq_some_iff.mp (of_decide_eq_true absolute)
  have segments : path.text.toList.splitOn '/' = [] :: rest.splitOn '/' := by
    rw [text, ← List.nil_append ('/' :: rest), List.splitOn_append_cons_self, List.splitOn_nil,
      List.singleton_append]
  have components : path.components = .root :: (rest.splitOn '/').filterMap componentOf? := by
    rw [components_of_isAbsolute absolute, moves, segments, movesOf_cons_idle (Or.inl rfl)]
    rfl
  have nonempty : path.text.isEmpty = false := by
    rw [String.isEmpty_eq_false_iff]
    intro empty
    rw [empty] at text
    cases text
  rw [segmentsBefore, nonempty, Bool.false_or, segments]
  split
  case isFalse => exact ⟨rest.splitOn '/', rfl, components⟩
  case isTrue slash =>
    obtain ⟨front, ended⟩ := List.getLast?_eq_some_iff.mp (of_decide_eq_true slash)
    rw [text] at ended
    -- The segment behind the slash at the end is empty.
    cases front with
    | nil =>
      cases ended
      exact ⟨[], rfl, components⟩
    | cons first front =>
      have same : rest = front ++ ['/'] := (List.cons_eq_cons.mp ended).2
      rw [same, List.splitOn_append_cons_self, List.splitOn_nil] at components ⊢
      refine ⟨front.splitOn '/', ?_, ?_⟩
      · rw [← List.cons_append, List.dropLast_concat]
      · rw [components, List.filterMap_append]
        exact congrArg (Component.root :: ·) (List.append_nil _)

/-- A joined name is below an absolute path as it is written, wherever the path leads. -/
theorem below?_join (absolute : path.isAbsolute = true) (relative : below.toList.head? ≠ some '/') :
    path.below? (path.join below) = some (tidied below) := by
  obtain ⟨front, before, components⟩ := exists_segmentsBefore absolute
  obtain ⟨idle, adds, skipped⟩ := exists_skipSegments front (below.toList.splitOn '/')
  rw [below?, splitOn_join path relative, before, components, List.cons_append]
  dsimp only
  rw [skipped, Option.map_some, trimSegments_append_of_idle adds, tidied]

end Path

/-! ### Patterns and absolute paths -/

namespace Glob

/-- Whether a pattern starts with a wildcard. -/
def startsOpen : Glob → Bool
  | [] => false
  | .char _ :: _ => false
  | _ :: _ => true

variable {pattern : Glob} {text rest : List Char}

theorem ne_char_of_readClass? {wildcard : Wildcard} (read : readClass? text = some (wildcard, rest))
    (char : Char) : wildcard ≠ .char char := by
  rintro rfl
  rw [readClass?.eq_def] at read
  split at read
  · split at read
    · cases read
    · cases read
  · split at read
    · cases read
    · cases read
  · cases read

/-- Only a plain character at the start of a text is read as one. -/
theorem head?_of_parseFrom {componentStarts : Bool} {char : Char}
    (read : parseFrom componentStarts text = .ok (.char char :: pattern)) :
    text.head? = some char := by
  have mapped : ∀ {first : Wildcard} {result : Except GlobError Glob},
      result.map (first :: ·) = .ok (.char char :: pattern) → first = .char char := by
    intro first result same
    cases result with
    | error cause => cases same
    | ok others =>
      cases same
      rfl
  rw [parseFrom.eq_def] at read
  split at read
  · cases read
  · cases mapped read
  · cases read
  · split at read
    · split at read
      · cases read
      · cases mapped read
      · cases read
    · cases read
  · cases mapped read
  · split at read
    case h_1 wildcard after found =>
      exact absurd (mapped read) (ne_char_of_readClass? found char)
    case h_2 => cases read
  · cases mapped read
    rfl

/-- A pattern that starts neither with a slash nor with a wildcard matches no absolute path. -/
theorem isMatch_of_startsOpen_eq_false (read : parse text = .ok pattern)
    (relative : text.head? ≠ some '/') (plain : pattern.startsOpen = false) :
    isMatch pattern ('/' :: rest) = false := by
  cases pattern with
  | nil => rfl
  | cons first others =>
    cases first with
    | char char =>
      have other : '/' ≠ char := by
        rintro rfl
        exact relative (head?_of_parseFrom read)
      show decide ((if decide ('/' = char) = true then run others rest else .mismatch) =
        .matched) = false
      rw [decide_eq_false other, if_neg Bool.false_ne_true]
      rfl
    | anyChar => cases plain
    | within ranges => cases plain
    | outside ranges => cases plain
    | anyText => cases plain
    | anyFolders => cases plain

end Glob

/-! ### Exclusions -/

namespace Exclusion

/-- Whether the exclusion leaves out a file by its path below the project. -/
def leavesOutBelow (exclusion : Exclusion) (below : List Char) : Bool :=
  Glob.isMatch exclusion.pattern below || exclusion.isHeldBy ('/' :: below)

/-- Whether the exclusion starts with a wildcard and matches a whole path. -/
def matchesFromRoot (exclusion : Exclusion) (path : Path) : Bool :=
  exclusion.pattern.startsOpen && Glob.isMatch exclusion.pattern path.text.toList

variable {exclusion : Exclusion} {text below : String} {projectDir : Path}

/-- In an absolute project, an exclusion without a slash at its start leaves out a file by its path
below the project, or for a wildcard at its start that reaches up to the root. -/
theorem leavesOut_join (read : ofText? text = some exclusion)
    (relativeText : text.toList.head? ≠ some '/') (absolute : projectDir.isAbsolute = true)
    (relative : below.toList.head? ≠ some '/') :
    exclusion.leavesOut projectDir (projectDir.join below) =
      (exclusion.leavesOutBelow (Path.tidied below).toList ||
        exclusion.matchesFromRoot (projectDir.join below)) := by
  have parsed : Glob.parse text.toList = .ok exclusion.pattern := by
    obtain ⟨pattern, parsed, rfl⟩ := Option.map_eq_some_iff.mp read
    cases result : Glob.parse text.toList with
    | error cause =>
      rw [result] at parsed
      cases parsed
    | ok found =>
      rw [result] at parsed
      cases parsed
      rfl
  have wholeMatch : Glob.isMatch exclusion.pattern (projectDir.join below).text.toList =
      exclusion.matchesFromRoot (projectDir.join below) := by
    rw [matchesFromRoot]
    cases starts : exclusion.pattern.startsOpen with
    | true => rw [Bool.true_and]
    | false =>
      obtain ⟨rest, whole⟩ := List.head?_eq_some_iff.mp
        (of_decide_eq_true (Path.isAbsolute_join_of_isAbsolute absolute below))
      rw [whole, Bool.false_and]
      exact Glob.isMatch_of_startsOpen_eq_false parsed relativeText starts
  rw [leavesOut, Path.below?_join absolute relative, Option.getD_some, wholeMatch, Bool.or_assoc,
    Bool.or_comm, leavesOutBelow]

end Exclusion

namespace Extraction

variable {texts : List String} {below : String}

theorem leavesOut_join_iff {extraction : Extraction}
    (exclusions : extraction.exclusions = texts.filterMap Exclusion.ofText?)
    (relativeTexts : ∀ text ∈ texts, text.toList.head? ≠ some '/')
    (absolute : extraction.projectDir.isAbsolute = true)
    (relative : below.toList.head? ≠ some '/') :
    extraction.leavesOut (extraction.projectDir.join below) = true ↔
      (∃ exclusion ∈ texts.filterMap Exclusion.ofText?,
        exclusion.leavesOutBelow (Path.tidied below).toList = true) ∨
      ∃ exclusion ∈ texts.filterMap Exclusion.ofText?,
        exclusion.matchesFromRoot (extraction.projectDir.join below) = true := by
  rw [leavesOut, exclusions, List.any_eq_true, ← exists_or]
  refine exists_congr fun exclusion => ?_
  rw [← and_or_left]
  refine and_congr_right fun member => ?_
  obtain ⟨text, written, read⟩ := List.mem_filterMap.mp member
  rw [Exclusion.leavesOut_join read (relativeTexts text written) absolute relative,
    Bool.or_eq_true]

/-- With patterns that start without a slash, a file is left out in one place just as in another
one if and only if it is left out by its path below the project, or wildcards at the start of
patterns match the whole path in both places or in neither. -/
theorem leavesOut_join_eq_iff {first second : Extraction}
    (firstExclusions : first.exclusions = texts.filterMap Exclusion.ofText?)
    (secondExclusions : second.exclusions = texts.filterMap Exclusion.ofText?)
    (relativeTexts : ∀ text ∈ texts, text.toList.head? ≠ some '/')
    (firstAbsolute : first.projectDir.isAbsolute = true)
    (secondAbsolute : second.projectDir.isAbsolute = true)
    (relative : below.toList.head? ≠ some '/') :
    first.leavesOut (first.projectDir.join below) =
        second.leavesOut (second.projectDir.join below) ↔
      (∃ exclusion ∈ texts.filterMap Exclusion.ofText?,
        exclusion.leavesOutBelow (Path.tidied below).toList = true) ∨
      ((∃ exclusion ∈ texts.filterMap Exclusion.ofText?,
          exclusion.matchesFromRoot (first.projectDir.join below) = true) ↔
        ∃ exclusion ∈ texts.filterMap Exclusion.ofText?,
          exclusion.matchesFromRoot (second.projectDir.join below) = true) := by
  rw [Bool.eq_iff_iff, leavesOut_join_iff firstExclusions relativeTexts firstAbsolute relative,
    leavesOut_join_iff secondExclusions relativeTexts secondAbsolute relative]
  by_cases byBelow : ∃ exclusion ∈ texts.filterMap Exclusion.ofText?,
      exclusion.leavesOutBelow (Path.tidied below).toList = true
  · exact iff_of_true (iff_of_true (Or.inl byBelow) (Or.inl byBelow)) (Or.inl byBelow)
  · rw [or_iff_right byBelow, or_iff_right byBelow, or_iff_right byBelow]

/-- A run over the project at a place, with the exclusions of the default settings. -/
def atPlace (place : String) : Extraction where
  projectDir := ⟨place⟩
  emitter? := none
  sourceRoots := ["src"]
  exclusions := ({} : ExtractionSettings).exclude.filterMap Exclusion.ofText?
  markers := {}
  frontends := []

/-- In two places without a folder of the default pattern above, a file of the default source root
is kept. -/
theorem leavesOut_join_eq_iff_atPlace :
    (∀ text ∈ ({} : ExtractionSettings).exclude, text.toList.head? ≠ some '/') ∧
      (atPlace "/p").projectDir.isAbsolute = true ∧ (atPlace "/q").projectDir.isAbsolute = true ∧
      "src/A.kt".toList.head? ≠ some '/' ∧
      (atPlace "/p").leavesOut ((atPlace "/p").projectDir.join "src/A.kt") =
        (atPlace "/q").leavesOut ((atPlace "/q").projectDir.join "src/A.kt") := by
  have relativeTexts : ∀ text ∈ ({} : ExtractionSettings).exclude,
      text.toList.head? ≠ some '/' := by
    decide
  have firstAbsolute : (atPlace "/p").projectDir.isAbsolute = true := by decide
  have secondAbsolute : (atPlace "/q").projectDir.isAbsolute = true := by decide
  have relative : "src/A.kt".toList.head? ≠ some '/' := by decide
  refine ⟨relativeTexts, firstAbsolute, secondAbsolute, relative, ?_⟩
  refine (leavesOut_join_eq_iff rfl rfl relativeTexts firstAbsolute secondAbsolute relative).mpr
    (Or.inr ?_)
  decide +kernel

/-- Below a folder of the default pattern the same file is left out. -/
theorem leavesOut_join_ne_below_build :
    ¬ ∀ (texts : List String) (first second : Extraction) (below : String),
      first.exclusions = texts.filterMap Exclusion.ofText? →
      second.exclusions = texts.filterMap Exclusion.ofText? →
      (∀ text ∈ texts, text.toList.head? ≠ some '/') →
      first.projectDir.isAbsolute = true → second.projectDir.isAbsolute = true →
      below.toList.head? ≠ some '/' →
      first.leavesOut (first.projectDir.join below) =
        second.leavesOut (second.projectDir.join below) := by
  intro claim
  have same := claim ({} : ExtractionSettings).exclude (atPlace "/build/p") (atPlace "/q")
    "src/A.kts" rfl rfl (by decide) (by decide) (by decide) (by decide)
  revert same
  decide +kernel

end Extraction

end SourceCapture
