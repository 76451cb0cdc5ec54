/-
Which converters an interface has, read from the first candidate on. The candidates are taken from
the last one to the first, each of them over what the others have left. So the first candidate that
names a converter has its way with it, the other converter apart, but the refusals come in the
other order: an argument without a value is refused even where an earlier candidate would have
hidden it, and the last such candidate is the one that is reported.
-/

import SourceCapture.Converters
import SourceCapture.Proofs.Runs

namespace SourceCapture

/-! ### The first and the last item that gives something -/

section

variable {Item Result : Type} {gives : Item → Result → Prop}

/-- Whether a result is given by an item, and by none of the items before it. -/
def IsFirstGiven (gives : Item → Result → Prop) (items : List Item) (result : Result) : Prop :=
  ∃ before item after, items = before ++ item :: after ∧ gives item result ∧
    ∀ earlier ∈ before, ∀ other, ¬gives earlier other

/-- Whether a result is given by an item, and by none of the items behind it. -/
def IsLastGiven (gives : Item → Result → Prop) (items : List Item) (result : Result) : Prop :=
  ∃ before item after, items = before ++ item :: after ∧ gives item result ∧
    ∀ later ∈ after, ∀ other, ¬gives later other

theorem isFirstGiven_cons_iff {item : Item} {items : List Item} {result : Result} :
    IsFirstGiven gives (item :: items) result ↔
      gives item result ∨ (∀ other, ¬gives item other) ∧ IsFirstGiven gives items result := by
  constructor
  · rintro ⟨before, found, after, split, given, silent⟩
    cases before with
    | nil =>
      obtain ⟨rfl, rfl⟩ := List.cons.inj split
      exact Or.inl given
    | cons first before =>
      obtain ⟨rfl, rfl⟩ := List.cons.inj split
      rw [List.forall_mem_cons] at silent
      exact Or.inr ⟨silent.1, before, found, after, rfl, given, silent.2⟩
  · rintro (given | ⟨silent, before, found, after, rfl, given, others⟩)
    · exact ⟨[], item, items, rfl, given, List.forall_mem_nil _⟩
    · exact ⟨item :: before, found, after, rfl, given, List.forall_mem_cons.mpr ⟨silent, others⟩⟩

theorem isLastGiven_cons_iff {item : Item} {items : List Item} {result : Result} :
    IsLastGiven gives (item :: items) result ↔
      IsLastGiven gives items result ∨
        (∀ later ∈ items, ∀ other, ¬gives later other) ∧ gives item result := by
  constructor
  · rintro ⟨before, found, after, split, given, silent⟩
    cases before with
    | nil =>
      obtain ⟨rfl, rfl⟩ := List.cons.inj split
      exact Or.inr ⟨silent, given⟩
    | cons first before =>
      obtain ⟨rfl, rfl⟩ := List.cons.inj split
      exact Or.inl ⟨before, found, after, rfl, given, silent⟩
  · rintro (⟨before, found, after, rfl, given, silent⟩ | ⟨silent, given⟩)
    · exact ⟨item :: before, found, after, rfl, given, silent⟩
    · exact ⟨[], item, items, rfl, given, silent⟩

theorem exists_isLastGiven_iff {items : List Item} :
    (∃ result, IsLastGiven gives items result) ↔ ∃ item ∈ items, ∃ result, gives item result := by
  induction items with
  | nil => simp [IsLastGiven]
  | cons item items inductionHypothesis =>
    simp only [isLastGiven_cons_iff, exists_or, inductionHypothesis, List.exists_mem_cons_iff]
    constructor
    · rintro (later | ⟨result, -, given⟩)
      · exact Or.inr later
      · exact Or.inl ⟨result, given⟩
    · rintro (⟨result, given⟩ | later)
      · by_cases silent : ∀ later ∈ items, ∀ other, ¬gives later other
        · exact Or.inr ⟨result, silent, given⟩
        · push Not at silent
          exact Or.inl silent
      · exact Or.inl later

end

/-! ### One annotation -/

namespace Annotation

/-- Whether an annotation has an argument without a value for a parameter, and what is said about
it. -/
def Refuses (document : Document) (parameter : String) (position : Nat) (note : Annotation)
    (error : CaptureError) : Prop :=
  ∃ written span, note.argument? parameter position = some (.nonConstant written span) ∧
    error = .nonConstantArgument note.name written document.relativePath
      ((span.or note.span).getD ⟨0, 0⟩)

/-- Whether an annotation has a constant for a parameter with this text, which is not empty. -/
def Names (parameter : String) (position : Nat) (note : Annotation) (text : String) : Prop :=
  text ≠ "" ∧ ∃ value, note.argument? parameter position = some value ∧ value.asText? = some text

end Annotation

theorem exists_eq_ok_iff {Error Result : Type} {outcome : Except Error Result} :
    (∃ result, outcome = .ok result) ↔ ∀ error, outcome ≠ .error error := by
  cases outcome with
  | ok result => exact iff_of_true ⟨result, rfl⟩ fun _ => error_ne_ok.symm
  | error error => exact iff_of_false (fun ⟨_, same⟩ => error_ne_ok same) fun none => none error rfl

namespace Converters

open Annotation (Refuses Names)

variable {document : Document} {note : Annotation} {parameter : String} {position : Nat}

theorem slot_eq_error_iff {error : CaptureError} :
    slot document note parameter position = .error error ↔
      note.Refuses document parameter position error := by
  rw [slot, Refuses]
  split
  case h_1 missing => simp [missing]
  case h_2 written span found => simp [found, eq_comm]
  case h_3 value constant found =>
    refine iff_of_false error_ne_ok.symm ?_
    rintro ⟨written, span, other, -⟩
    rw [found] at other
    exact constant written span (Option.some.inj other)

theorem filter_isEmpty_eq_some_iff {text? : Option String} {text : String} :
    text?.filter (!·.isEmpty) = some text ↔ text ≠ "" ∧ text? = some text := by
  rw [Option.filter_eq_some_iff, and_comm]
  simp

theorem slot_eq_ok_iff {name? : Option String} :
    slot document note parameter position = .ok name? ↔
      (∀ error, ¬note.Refuses document parameter position error) ∧
        ∀ text, name? = some text ↔ note.Names parameter position text := by
  rw [slot]
  split
  case h_1 missing =>
    simp [Refuses, Names, missing, Except.ok.injEq, Option.eq_none_iff_forall_ne_some, eq_comm]
  case h_2 written span found =>
    exact iff_of_false error_ne_ok fun only => only.1 _ ⟨written, span, found, rfl⟩
  case h_3 value constant found =>
    have unrefused : ∀ error, ¬note.Refuses document parameter position error := by
      rintro error ⟨written, span, other, -⟩
      rw [found] at other
      exact constant written span (Option.some.inj other)
    have named : ∀ text, value.asText?.filter (!·.isEmpty) = some text ↔
        note.Names parameter position text := by
      intro text
      rw [filter_isEmpty_eq_some_iff, Names, found]
      simp
    rw [and_iff_right unrefused, Except.ok.injEq, Option.ext_iff]
    exact forall_congr' fun text => (iff_congr (named text) Iff.rfl).trans Iff.comm

theorem exists_slot_eq_ok_iff :
    (∃ name?, slot document note parameter position = .ok name?) ↔
      ∀ error, ¬note.Refuses document parameter position error := by
  constructor
  · rintro ⟨name?, read⟩
    exact (slot_eq_ok_iff.mp read).1
  · intro unrefused
    cases read : slot document note parameter position with
    | ok name? => exact ⟨name?, rfl⟩
    | error error => exact absurd (slot_eq_error_iff.mp read) (unrefused error)

/-- What an annotation leaves of a converter that others have left before. -/
theorem exists_slot_getD_iff {inherited name : String} :
    (∃ name?, slot document note parameter position = .ok name? ∧ name = name?.getD inherited) ↔
      (∀ error, ¬note.Refuses document parameter position error) ∧
        (note.Names parameter position name ∨
          (∀ other, ¬note.Names parameter position other) ∧ name = inherited) := by
  rw [← exists_slot_eq_ok_iff, ← exists_and_right]
  refine exists_congr fun name? => and_congr_right fun read => ?_
  have named := (slot_eq_ok_iff.mp read).2
  cases name? with
  | none =>
    have unnamed : ∀ other, ¬note.Names parameter position other := fun other given =>
      nomatch (named other).mpr given
    rw [or_iff_right (unnamed name), and_iff_right unnamed, Option.getD_none]
  | some text =>
    have given := (named text).mp rfl
    rw [Option.getD_some, or_iff_left fun unnamed => unnamed.1 text given, ← named name,
      Option.some.injEq, eq_comm]

/-! ### One candidate -/

/-- The annotation of a candidate that names converters, if any: the first one of that marker. -/
def noteOf? (candidate : List Annotation) : Option Annotation :=
  candidate.find? (·.marks .converters)

/-- Whether an argument of a candidate is refused, the one for the converter of arguments before
the one for the converter of results. -/
def CandidateRefuses (document : Document) (candidate : List Annotation) (error : CaptureError) :
    Prop :=
  ∃ note, noteOf? candidate = some note ∧
    (note.Refuses document argumentParameter 0 error ∨
      (∀ other, ¬note.Refuses document argumentParameter 0 other) ∧
        note.Refuses document resultParameter 1 error)

/-- Whether a candidate names a converter for a parameter. -/
def CandidateNames (parameter : String) (position : Nat) (candidate : List Annotation)
    (text : String) : Prop :=
  ∃ note, noteOf? candidate = some note ∧ note.Names parameter position text

variable {candidate : List Annotation} {inherited converters : Converters}

theorem override_eq_error_iff {error : CaptureError} :
    override document candidate inherited = .error error ↔
      CandidateRefuses document candidate error := by
  rw [override, CandidateRefuses, noteOf?]
  cases found : candidate.find? (·.marks .converters) with
  | none => simp
  | some note =>
    simp only [Option.some.injEq, exists_eq_left', bind_eq_error_iff, slot_eq_error_iff,
      ← exists_slot_eq_ok_iff, ← exists_and_right]
    refine or_congr_right (exists_congr fun argument? => and_congr_right fun _ => ?_)
    refine or_iff_left ?_
    rintro ⟨result?, -, ⟨⟩⟩

theorem exists_candidateRefuses_iff :
    (∃ error, CandidateRefuses document candidate error) ↔
      ∃ note, noteOf? candidate = some note ∧
        ((∃ error, note.Refuses document argumentParameter 0 error) ∨
          ∃ error, note.Refuses document resultParameter 1 error) := by
  constructor
  · rintro ⟨error, note, found, refused | ⟨-, refused⟩⟩
    · exact ⟨note, found, Or.inl ⟨error, refused⟩⟩
    · exact ⟨note, found, Or.inr ⟨error, refused⟩⟩
  · rintro ⟨note, found, refused⟩
    by_cases first : ∃ error, note.Refuses document argumentParameter 0 error
    · exact first.imp fun _ refused => ⟨note, found, Or.inl refused⟩
    · obtain ⟨error, second⟩ := refused.resolve_left first
      exact ⟨error, note, found, Or.inr ⟨not_exists.mp first, second⟩⟩

theorem override_eq_ok_iff :
    override document candidate inherited = .ok converters ↔
      (∀ error, ¬CandidateRefuses document candidate error) ∧
        (CandidateNames argumentParameter 0 candidate converters.argument ∨
          (∀ other, ¬CandidateNames argumentParameter 0 candidate other) ∧
            converters.argument = inherited.argument) ∧
        (CandidateNames resultParameter 1 candidate converters.result ∨
          (∀ other, ¬CandidateNames resultParameter 1 candidate other) ∧
            converters.result = inherited.result) := by
  rw [← not_exists, exists_candidateRefuses_iff, override]
  simp only [CandidateNames, noteOf?]
  obtain ⟨argument, result⟩ := converters
  cases found : candidate.find? (·.marks .converters) with
  | none =>
    obtain ⟨inheritedArgument, inheritedResult⟩ := inherited
    simp [eq_comm]
  | some note =>
    simp only [Option.some.injEq, exists_eq_left', not_or, not_exists, bind_eq_ok_iff]
    rw [and_and_and_comm, ← exists_slot_getD_iff, ← exists_slot_getD_iff]
    constructor
    · rintro ⟨argument?, readArgument, result?, readResult, ⟨⟩⟩
      exact ⟨⟨argument?, readArgument, rfl⟩, result?, readResult, rfl⟩
    · rintro ⟨⟨argument?, readArgument, rfl⟩, result?, readResult, rfl⟩
      exact ⟨argument?, readArgument, result?, readResult, rfl⟩

/-! ### All candidates -/

/-- Whether a name is that of the first candidate that names a converter for a parameter, or empty
where none does. -/
def IsFirstName (parameter : String) (position : Nat) (candidates : List (List Annotation))
    (name : String) : Prop :=
  IsFirstGiven (CandidateNames parameter position) candidates name ∨
    (∀ candidate ∈ candidates, ∀ other, ¬CandidateNames parameter position candidate other) ∧
      name = ""

variable {candidates : List (List Annotation)}

theorem isFirstName_cons_iff {name : String} :
    IsFirstName parameter position (candidate :: candidates) name ↔
      CandidateNames parameter position candidate name ∨
        (∀ other, ¬CandidateNames parameter position candidate other) ∧
          IsFirstName parameter position candidates name := by
  rw [IsFirstName, IsFirstName, isFirstGiven_cons_iff, List.forall_mem_cons, and_assoc, or_assoc,
    ← and_or_left]

theorem exists_isFirstName (parameter : String) (position : Nat)
    (candidates : List (List Annotation)) : ∃ name, IsFirstName parameter position candidates name := by
  induction candidates with
  | nil => exact ⟨"", Or.inr ⟨List.forall_mem_nil _, rfl⟩⟩
  | cons candidate candidates inductionHypothesis =>
    simp only [isFirstName_cons_iff]
    by_cases named : ∃ name, CandidateNames parameter position candidate name
    · exact named.imp fun _ => Or.inl
    · exact inductionHypothesis.imp fun _ first => Or.inr ⟨not_exists.mp named, first⟩

/-- A candidate over what the others leave has the first name of all. -/
theorem exists_inherited_iff {name : String} :
    (∃ inherited, IsFirstName parameter position candidates inherited ∧
      (CandidateNames parameter position candidate name ∨
        (∀ other, ¬CandidateNames parameter position candidate other) ∧ name = inherited)) ↔
      IsFirstName parameter position (candidate :: candidates) name := by
  rw [isFirstName_cons_iff]
  constructor
  · rintro ⟨inherited, first, named | ⟨unnamed, rfl⟩⟩
    · exact Or.inl named
    · exact Or.inr ⟨unnamed, first⟩
  · rintro (named | ⟨unnamed, first⟩)
    · obtain ⟨inherited, first⟩ := exists_isFirstName parameter position candidates
      exact ⟨inherited, first, Or.inl named⟩
    · exact ⟨name, first, Or.inr ⟨unnamed, rfl⟩⟩

/-- The last candidate with an argument to refuse is the one that is refused. -/
theorem ofCandidates_eq_error_iff {error : CaptureError} :
    ofCandidates document candidates = .error error ↔
      IsLastGiven (CandidateRefuses document) candidates error := by
  induction candidates generalizing error with
  | nil => simp [ofCandidates, IsLastGiven]
  | cons candidate candidates inductionHypothesis =>
    have succeeds : (∃ inherited, ofCandidates document candidates = .ok inherited) ↔
        ∀ later ∈ candidates, ∀ other, ¬CandidateRefuses document later other := by
      simp only [exists_eq_ok_iff, inductionHypothesis, ← not_exists, exists_isLastGiven_iff]
      simp only [not_exists, not_and]
    rw [ofCandidates, bind_eq_error_iff, inductionHypothesis, isLastGiven_cons_iff, ← succeeds,
      ← exists_and_right]
    simp only [override_eq_error_iff]

/-- Unless something is refused, the first candidate that names a converter has its way. -/
theorem ofCandidates_eq_ok_iff :
    ofCandidates document candidates = .ok converters ↔
      (∀ candidate ∈ candidates, ∀ error, ¬CandidateRefuses document candidate error) ∧
        IsFirstName argumentParameter 0 candidates converters.argument ∧
        IsFirstName resultParameter 1 candidates converters.result := by
  induction candidates generalizing converters with
  | nil =>
    obtain ⟨argument, result⟩ := converters
    simp [ofCandidates, IsFirstName, IsFirstGiven, eq_comm]
  | cons candidate candidates inductionHypothesis =>
    rw [ofCandidates, bind_eq_ok_iff]
    simp only [inductionHypothesis, override_eq_ok_iff, ← exists_inherited_iff, List.forall_mem_cons]
    constructor
    · rintro ⟨inherited, ⟨others, firstArgument, firstResult⟩, unrefused, argument, result⟩
      exact ⟨⟨unrefused, others⟩, ⟨_, firstArgument, argument⟩, _, firstResult, result⟩
    · rintro ⟨⟨unrefused, others⟩, ⟨inheritedArgument, firstArgument, argument⟩,
        inheritedResult, firstResult, result⟩
      exact ⟨⟨inheritedArgument, inheritedResult⟩, ⟨others, firstArgument, firstResult⟩, unrefused,
        argument, result⟩

/-! ### Interfaces -/

/-- The annotations that an interface can have its converters from: its own, and those of each of
its direct supertypes. -/
def candidatesOf (owner : ClassHeader) : List (List Annotation) :=
  owner.annotations :: owner.supertypes.map (·.annotations)

/-- The converters of an interface are refused just when a candidate has an argument without a value
for one of the two, whatever is in front of that candidate, and the last such candidate is the one
that is reported. If there is none, each of the two is the first that is named. -/
theorem ofInterface_iff (document : Document) (owner : ClassHeader) :
    ((∃ error, ofInterface document owner = .error error) ↔
      ∃ candidate ∈ candidatesOf owner, ∃ note, noteOf? candidate = some note ∧
        ((∃ error, note.Refuses document argumentParameter 0 error) ∨
          ∃ error, note.Refuses document resultParameter 1 error)) ∧
    (∀ error, ofInterface document owner = .error error ↔
      IsLastGiven (CandidateRefuses document) (candidatesOf owner) error) ∧
    ∀ converters, ofInterface document owner = .ok converters ↔
      (∀ candidate ∈ candidatesOf owner, ∀ error, ¬CandidateRefuses document candidate error) ∧
        IsFirstName argumentParameter 0 (candidatesOf owner) converters.argument ∧
        IsFirstName resultParameter 1 (candidatesOf owner) converters.result := by
  refine ⟨?_, fun error => ofCandidates_eq_error_iff, fun converters => ofCandidates_eq_ok_iff⟩
  simp only [← exists_candidateRefuses_iff, ← exists_isLastGiven_iff]
  exact exists_congr fun error => ofCandidates_eq_error_iff

end Converters

end SourceCapture
