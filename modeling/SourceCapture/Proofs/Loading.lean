/-
What a loader answers in the course of a run. A read may be answered differently each time, and
an answer may depend on all that was read before it. The memory of the loader holds just the texts
that were read with success. So of every fragment the loader gives out the first text that could
be read, and it reads a fragment again only as long as there is none.
-/

import Mathlib.Data.Set.Card
import SourceCapture.Loader
import SourceCapture.Proofs.Tables

namespace SourceCapture

/-! ### Reads -/

/-- One read of a compiled fragment. -/
structure Reading where
  artifact : String
  answer : Except ResourceError String

/-- What answers the reads of a run, each answer as it may depend on the reads before. -/
abbrev Resolver := List Reading → String → Except ResourceError String

/-- A read that is written down. -/
def Resolver.read (resolver : Resolver) (artifact : String) :
    StateM (List Reading) (Except ResourceError String) := fun readings =>
  let answer := resolver readings artifact
  (answer, readings ++ [⟨artifact, answer⟩])

theorem Resolver.read_bind {Answer : Type} (resolver : Resolver) (artifact : String)
    (next : Except ResourceError String → StateM (List Reading) Answer)
    (readings : List Reading) :
    (resolver.read artifact >>= next) readings =
      next (resolver readings artifact)
        (readings ++ [⟨artifact, resolver readings artifact⟩]) := rfl

namespace Reading

/-- The fragment with its text, if the read succeeded. -/
def script? (reading : Reading) : Option (String × String) :=
  match reading.answer with
  | .ok script => some (reading.artifact, script)
  | .error _ => none

/-- The text of the first read of a fragment that succeeded. -/
def firstScript? (artifact : String) : List Reading → Option String
  | [] => none
  | ⟨other, .ok script⟩ :: rest =>
    if other = artifact then some script else firstScript? artifact rest
  | ⟨_, .error _⟩ :: rest => firstScript? artifact rest

theorem find?_filterMap_script? (artifact : String) (readings : List Reading) :
    Table.find? artifact (readings.filterMap script?) = firstScript? artifact readings := by
  induction readings with
  | nil => rfl
  | cons reading rest inductionHypothesis =>
    obtain ⟨other, answer⟩ := reading
    cases answer with
    | error cause =>
      rw [List.filterMap_cons_none rfl, firstScript?, inductionHypothesis]
    | ok script =>
      have read : script? ⟨other, .ok script⟩ = some (other, script) := rfl
      rw [List.filterMap_cons_some read, Table.find?, firstScript?, inductionHypothesis]

theorem firstScript?_append (artifact : String) (earlier later : List Reading) :
    firstScript? artifact (earlier ++ later) =
      (firstScript? artifact earlier).or (firstScript? artifact later) := by
  induction earlier with
  | nil => rfl
  | cons reading rest inductionHypothesis =>
    obtain ⟨other, answer⟩ := reading
    cases answer with
    | error cause => rw [List.cons_append, firstScript?, firstScript?, inductionHypothesis]
    | ok script =>
      rw [List.cons_append, firstScript?, firstScript?, inductionHypothesis]
      split <;> rfl

theorem firstScript?_singleton (artifact : String) (answer : Except ResourceError String) :
    firstScript? artifact [⟨artifact, answer⟩] = answer.toOption := by
  cases answer with
  | error cause => rfl
  | ok script => rw [firstScript?, if_pos rfl]; rfl

theorem firstScript?_eq_none_of_ne {artifact : String} {readings : List Reading}
    (others : ∀ reading ∈ readings, reading.artifact ≠ artifact) :
    firstScript? artifact readings = none := by
  induction readings with
  | nil => rfl
  | cons reading rest inductionHypothesis =>
    rw [List.forall_mem_cons] at others
    obtain ⟨other, answer⟩ := reading
    cases answer with
    | error cause => rw [firstScript?, inductionHypothesis others.2]
    | ok script => rw [firstScript?, if_neg others.1, inductionHypothesis others.2]

theorem mem_filterMap_script?_iff (artifact script : String) (readings : List Reading) :
    (artifact, script) ∈ readings.filterMap script? ↔ ⟨artifact, .ok script⟩ ∈ readings := by
  rw [List.mem_filterMap]
  constructor
  · rintro ⟨⟨other, answer⟩, member, read⟩
    cases answer with
    | error cause => cases read
    | ok given =>
      cases read
      exact member
  · intro member
    exact ⟨_, member, rfl⟩

end Reading

/-! ### Loads -/

/-- A loader with the reads that were made for it, the earliest first. -/
structure LoaderRun where
  loader : FragmentLoader := {}
  readings : List Reading := []

namespace LoaderRun

/-- One more load. -/
def load (resolver : Resolver) (run : LoaderRun) (source : Source) :
    Except RuntimeError String × LoaderRun :=
  let ((answer, loader), readings) :=
    ((FragmentLoader.loadWith resolver.read source).run run.loader).run run.readings
  (answer, ⟨loader, readings⟩)

/-- Some more loads. -/
def loadAll (resolver : Resolver) (run : LoaderRun) (sources : List Source) : LoaderRun :=
  sources.foldl (fun run source => (run.load resolver source).2) run

/-- A new loader after some loads. -/
def after (resolver : Resolver) (sources : List Source) : LoaderRun :=
  ({} : LoaderRun).loadAll resolver sources

/-- The fragments that were read with success. -/
def fragmentsRead (run : LoaderRun) : Set String :=
  {artifact | ∃ script, ⟨artifact, .ok script⟩ ∈ run.readings}

/-- How a load is answered: without a fragment, from memory, or by a read that succeeds or
fails. -/
inductive Answers (resolver : Resolver) (run : LoaderRun) (source : Source) :
    Except RuntimeError String × LoaderRun → Prop where
  | notEmitted (without : source.artifact = "") :
      Answers resolver run source (.error (.notEmitted source.location), run)
  | recalled {script : String} (emitted : source.artifact ≠ "")
      (known : run.loader.cache.get? source.artifact = some script) :
      Answers resolver run source (.ok script, run)
  | read {script : String} (emitted : source.artifact ≠ "")
      (fresh : run.loader.cache.get? source.artifact = none)
      (given : resolver run.readings source.artifact = .ok script) :
      Answers resolver run source (.ok script,
        ⟨⟨run.loader.cache.insert source.artifact script⟩,
          run.readings ++ [⟨source.artifact, .ok script⟩]⟩)
  | failed {cause : ResourceError} (emitted : source.artifact ≠ "")
      (fresh : run.loader.cache.get? source.artifact = none)
      (given : resolver run.readings source.artifact = .error cause) :
      Answers resolver run source (.error (.fragmentNotFound source.artifact cause),
        ⟨run.loader, run.readings ++ [⟨source.artifact, .error cause⟩]⟩)

theorem load_eq (resolver : Resolver) (run : LoaderRun) (source : Source) :
    run.load resolver source =
      if source.isEmitted then
        match run.loader.cache.get? source.artifact with
        | some script => (.ok script, run)
        | none =>
          match resolver run.readings source.artifact with
          | .ok script => (.ok script, ⟨⟨run.loader.cache.insert source.artifact script⟩,
              run.readings ++ [⟨source.artifact, .ok script⟩]⟩)
          | .error cause => (.error (.fragmentNotFound source.artifact cause),
              ⟨run.loader, run.readings ++ [⟨source.artifact, .error cause⟩]⟩)
      else (.error (.notEmitted source.location), run) := by
  rw [load]
  unfold FragmentLoader.loadWith StateT.run
  dsimp only
  cases source.isEmitted with
  | false => rfl
  | true =>
    cases run.loader.cache.get? source.artifact with
    | some script => rfl
    | none =>
      rw [if_pos rfl, if_pos rfl]
      dsimp only
      rw [Resolver.read_bind]
      cases resolver run.readings source.artifact <;> rfl

theorem isEmitted_iff (source : Source) : source.isEmitted = true ↔ source.artifact ≠ "" := by
  rw [Source.isEmitted, Bool.not_eq_true', ← Bool.not_eq_true, String.isEmpty_iff]

theorem answers_load (resolver : Resolver) (run : LoaderRun) (source : Source) :
    run.Answers resolver source (run.load resolver source) := by
  rw [load_eq]
  by_cases emitted : source.artifact = ""
  · rw [if_neg (fun is => (isEmitted_iff source).mp is emitted)]
    exact .notEmitted emitted
  · rw [if_pos ((isEmitted_iff source).mpr emitted)]
    cases known : run.loader.cache.get? source.artifact with
    | some script => exact .recalled emitted known
    | none =>
      cases given : resolver run.readings source.artifact with
      | ok script => exact .read emitted known given
      | error cause => exact .failed emitted known given

theorem after_append (resolver : Resolver) (earlier later : List Source) :
    after resolver (earlier ++ later) = (after resolver earlier).loadAll resolver later :=
  List.foldl_append

theorem after_concat (resolver : Resolver) (sources : List Source) (source : Source) :
    after resolver (sources ++ [source]) = ((after resolver sources).load resolver source).2 :=
  after_append resolver sources [source]

/-! ### What is read -/

variable {resolver : Resolver} {run : LoaderRun} {source : Source}
  {answered : Except RuntimeError String × LoaderRun}

theorem Answers.readings (answers : run.Answers resolver source answered) :
    ∃ further, answered.2.readings = run.readings ++ further ∧
      ∀ reading ∈ further, reading.artifact = source.artifact := by
  cases answers with
  | notEmitted without => exact ⟨[], (List.append_nil _).symm, List.forall_mem_nil _⟩
  | recalled emitted known => exact ⟨[], (List.append_nil _).symm, List.forall_mem_nil _⟩
  | read emitted fresh given => exact ⟨_, rfl, List.forall_mem_singleton.mpr rfl⟩
  | failed emitted fresh given => exact ⟨_, rfl, List.forall_mem_singleton.mpr rfl⟩

/-- Each of some more loads reads at most the fragment of its own source. -/
theorem readings_loadAll (resolver : Resolver) (run : LoaderRun) (sources : List Source) :
    ∃ further, (run.loadAll resolver sources).readings = run.readings ++ further ∧
      ∀ reading ∈ further, ∃ source ∈ sources, reading.artifact = source.artifact := by
  induction sources generalizing run with
  | nil => exact ⟨[], (List.append_nil _).symm, List.forall_mem_nil _⟩
  | cons source rest inductionHypothesis =>
    obtain ⟨first, readings, own⟩ := (answers_load resolver run source).readings
    obtain ⟨later, more, others⟩ := inductionHypothesis (run.load resolver source).2
    refine ⟨first ++ later, ?_, fun reading member => ?_⟩
    · rw [loadAll, List.foldl_cons, ← loadAll, more, readings, List.append_assoc]
    · rcases List.mem_append.mp member with inFirst | inLater
      · exact ⟨source, List.mem_cons_self, own reading inFirst⟩
      · obtain ⟨other, among, same⟩ := others reading inLater
        exact ⟨other, List.mem_cons_of_mem _ among, same⟩

/-- The first text of a fragment stays the first. -/
theorem firstScript?_loadAll {artifact script : String}
    (first : Reading.firstScript? artifact run.readings = some script) (sources : List Source) :
    Reading.firstScript? artifact (run.loadAll resolver sources).readings = some script := by
  obtain ⟨further, readings, -⟩ := readings_loadAll resolver run sources
  rw [readings, Reading.firstScript?_append, first, Option.some_or]

/-- Loads of other fragments do not give a fragment a text. -/
theorem firstScript?_loadAll_of_ne {artifact : String} {sources : List Source}
    (without : Reading.firstScript? artifact run.readings = none)
    (others : ∀ source ∈ sources, source.artifact ≠ artifact) :
    Reading.firstScript? artifact (run.loadAll resolver sources).readings = none := by
  obtain ⟨further, readings, own⟩ := readings_loadAll resolver run sources
  rw [readings, Reading.firstScript?_append, without, Option.none_or]
  refine Reading.firstScript?_eq_none_of_ne fun reading member => ?_
  obtain ⟨source, among, same⟩ := own reading member
  rw [same]
  exact others source among

/-! ### What is remembered -/

/-- The loader remembers just the texts that were read with success, and it has read none of
their fragments twice. -/
structure Remembers (run : LoaderRun) : Prop where
  entries : run.loader.cache.entries = run.readings.filterMap Reading.script?
  distinct : run.loader.cache.keys.Nodup
  emitted : ∀ reading ∈ run.readings, reading.artifact ≠ ""

namespace Remembers

theorem get? (remembers : run.Remembers) (artifact : String) :
    run.loader.cache.get? artifact = Reading.firstScript? artifact run.readings := by
  rw [Table.get?, remembers.entries, Reading.find?_filterMap_script?]

theorem step (remembers : run.Remembers) (answers : run.Answers resolver source answered) :
    answered.2.Remembers := by
  cases answers with
  | notEmitted without => exact remembers
  | recalled emitted known => exact remembers
  | read emitted fresh given =>
    refine ⟨?_, ?_, ?_⟩
    · rw [Table.entries_insert_of_fresh _ _ fresh, remembers.entries, List.filterMap_append]
      rfl
    · exact Table.nodup_keys_insert_of_fresh _ ((Table.contains_eq_false_iff _ _).mpr fresh)
        remembers.distinct
    · rw [List.forall_mem_append, List.forall_mem_singleton]
      exact ⟨remembers.emitted, emitted⟩
  | failed emitted fresh given =>
    refine ⟨?_, remembers.distinct, ?_⟩
    · rw [remembers.entries, List.filterMap_append, List.filterMap_cons_none rfl,
        List.filterMap_nil, List.append_nil]
    · rw [List.forall_mem_append, List.forall_mem_singleton]
      exact ⟨remembers.emitted, emitted⟩

/-- As many fragments are remembered as were read with success. -/
theorem loaded (remembers : run.Remembers) :
    run.loader.loaded = run.fragmentsRead.ncard := by
  have keys : run.fragmentsRead = (run.loader.cache.keys.toFinset : Set String) := by
    ext artifact
    rw [fragmentsRead, Set.mem_ofPred_eq, List.coe_toFinset, Set.mem_ofPred_eq, Table.keys,
      remembers.entries]
    simp only [List.mem_map, Prod.exists, exists_and_right, exists_eq_right,
      Reading.mem_filterMap_script?_iff]
  rw [keys, Set.ncard_coe_finset, List.toFinset_card_of_nodup remembers.distinct,
    ← Table.size_eq_length_keys, FragmentLoader.loaded]

end Remembers

theorem remembers_after (resolver : Resolver) (sources : List Source) :
    (after resolver sources).Remembers := by
  induction sources using List.reverseRecOn with
  | nil => exact ⟨rfl, List.nodup_nil, List.forall_mem_nil _⟩
  | append_singleton earlier source inductionHypothesis =>
    rw [after_concat]
    exact inductionHypothesis.step (answers_load resolver _ source)

/-! ### One load among others -/

theorem load_of_empty (without : source.artifact = "") :
    run.load resolver source = (.error (.notEmitted source.location), run) := by
  rw [load_eq, if_neg fun emitted => (isEmitted_iff source).mp emitted without]

namespace Remembers

theorem load_of_first {script : String} (remembers : run.Remembers)
    (first : Reading.firstScript? source.artifact run.readings = some script) :
    run.load resolver source = (.ok script, run) := by
  have emitted : source.artifact ≠ "" := by
    rw [← Reading.find?_filterMap_script?] at first
    have member := Table.mem_of_find? first
    rw [Reading.mem_filterMap_script?_iff] at member
    exact remembers.emitted _ member
  rw [load_eq, if_pos ((isEmitted_iff source).mpr emitted), remembers.get?, first]

theorem load_of_ok {script : String} (remembers : run.Remembers)
    (emitted : source.artifact ≠ "")
    (unread : Reading.firstScript? source.artifact run.readings = none)
    (given : resolver run.readings source.artifact = .ok script) :
    run.load resolver source = (.ok script, ⟨⟨run.loader.cache.insert source.artifact script⟩,
      run.readings ++ [⟨source.artifact, .ok script⟩]⟩) := by
  rw [load_eq, if_pos ((isEmitted_iff source).mpr emitted), remembers.get?, unread, given]

theorem load_of_error {cause : ResourceError} (remembers : run.Remembers)
    (emitted : source.artifact ≠ "")
    (unread : Reading.firstScript? source.artifact run.readings = none)
    (given : resolver run.readings source.artifact = .error cause) :
    run.load resolver source = (.error (.fragmentNotFound source.artifact cause),
      ⟨run.loader, run.readings ++ [⟨source.artifact, .error cause⟩]⟩) := by
  rw [load_eq, if_pos ((isEmitted_iff source).mpr emitted), remembers.get?, unread, given]

/-- As long as a fragment has no text, a load of it reads it. -/
theorem readings_load (remembers : run.Remembers) (resolver : Resolver) (source : Source)
    (emitted : source.artifact ≠ "")
    (unread : Reading.firstScript? source.artifact run.readings = none) :
    (run.load resolver source).2.readings =
      run.readings ++ [⟨source.artifact, resolver run.readings source.artifact⟩] := by
  cases given : resolver run.readings source.artifact with
  | ok script => rw [remembers.load_of_ok emitted unread given]
  | error cause => rw [remembers.load_of_error emitted unread given]

theorem loadAll (remembers : run.Remembers) (resolver : Resolver) (sources : List Source) :
    (run.loadAll resolver sources).Remembers := by
  induction sources generalizing run with
  | nil => exact remembers
  | cons source rest inductionHypothesis =>
    exact inductionHypothesis (remembers.step (answers_load resolver run source))

end Remembers

/-- What a load answers in a run, and what that means for the loads that follow. -/
structure LoadsOnce (resolver : Resolver) (run : LoaderRun) (source : Source) : Prop where
  /-- A source without a fragment is refused, and nothing is read. -/
  notEmitted : source.artifact = "" →
    run.load resolver source = (.error (.notEmitted source.location), run)
  /-- The first text of a fragment is given out again, and nothing is read. -/
  recalled : ∀ script, Reading.firstScript? source.artifact run.readings = some script →
    run.load resolver source = (.ok script, run)
  /-- As long as there is none the fragment is read. Its text is what all loads of the fragment
  answer from then on, and nothing is read for them. -/
  read : source.artifact ≠ "" → Reading.firstScript? source.artifact run.readings = none →
    ∀ script, resolver run.readings source.artifact = .ok script →
      ∃ next, run.load resolver source = (.ok script, next) ∧
        next.readings = run.readings ++ [⟨source.artifact, .ok script⟩] ∧
        ∀ between again, again.artifact = source.artifact →
          (next.loadAll resolver between).load resolver again =
            (.ok script, next.loadAll resolver between)
  /-- A failure is reported and leaves the memory as it was. The next load of the fragment reads
  it again. -/
  failed : source.artifact ≠ "" → Reading.firstScript? source.artifact run.readings = none →
    ∀ cause, resolver run.readings source.artifact = .error cause →
      ∃ next,
        run.load resolver source = (.error (.fragmentNotFound source.artifact cause), next) ∧
        next.readings = run.readings ++ [⟨source.artifact, .error cause⟩] ∧
        next.loader.cache = run.loader.cache ∧
        ∀ between again, (∀ other ∈ between, other.artifact ≠ source.artifact) →
          again.artifact = source.artifact →
          ((next.loadAll resolver between).load resolver again).2.readings =
            (next.loadAll resolver between).readings ++ [⟨source.artifact,
              resolver (next.loadAll resolver between).readings source.artifact⟩]
  loaded : run.loader.loaded = run.fragmentsRead.ncard

/-- A loader reads every fragment until it has its text and never again. -/
theorem loadsOnce_after (resolver : Resolver) (before : List Source) (source : Source) :
    (after resolver before).LoadsOnce resolver source := by
  have remembers := remembers_after resolver before
  generalize after resolver before = run at remembers ⊢
  refine ⟨load_of_empty, fun script => remembers.load_of_first,
    fun emitted unread script given => ?_, fun emitted unread cause given => ?_, remembers.loaded⟩
  · have load := remembers.load_of_ok emitted unread given
    have after := remembers.step (answers_load resolver run source)
    rw [load] at after
    refine ⟨_, load, rfl, fun between again same => ?_⟩
    refine (after.loadAll resolver between).load_of_first ?_
    rw [same]
    refine firstScript?_loadAll ?_ between
    rw [Reading.firstScript?_append, unread, Option.none_or, Reading.firstScript?_singleton]
    rfl
  · have load := remembers.load_of_error emitted unread given
    have after := remembers.step (answers_load resolver run source)
    rw [load] at after
    refine ⟨_, load, rfl, rfl, fun between again others same => ?_⟩
    have reads := (after.loadAll resolver between).readings_load resolver again
    rw [same] at reads
    refine reads emitted (firstScript?_loadAll_of_ne ?_ others)
    rw [Reading.firstScript?_append, unread, Option.none_or, Reading.firstScript?_singleton]
    rfl

end LoaderRun

end SourceCapture
