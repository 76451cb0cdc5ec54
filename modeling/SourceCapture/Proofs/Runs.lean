/-
Work that is done step by step on a state and that may fail. A sequence of steps succeeds if
every step does, and otherwise it is ended by the first step that fails, in the state that the
steps before it have left. So what every successful step preserves holds after all of them.
-/

import Mathlib.Data.List.Basic
import SourceCapture.CaptureError

namespace SourceCapture

/-! ### Results without a state -/

theorem error_ne_ok {Error Result : Type} {error : Error} {result : Result} :
    (Except.error error : Except Error Result) ≠ .ok result := by
  rintro ⟨⟩

theorem bind_eq_ok_iff {Error Result Next : Type} {first : Except Error Result}
    {next : Result → Except Error Next} {value : Next} :
    (first >>= next) = .ok value ↔ ∃ result, first = .ok result ∧ next result = .ok value := by
  cases first with
  | ok result =>
    constructor
    · exact fun same => ⟨result, rfl, same⟩
    · rintro ⟨_, ⟨⟩, same⟩
      exact same
  | error error =>
    constructor
    · rintro ⟨⟩
    · rintro ⟨_, ⟨⟩, _⟩

theorem bind_eq_error_iff {Error Result Next : Type} {first : Except Error Result}
    {next : Result → Except Error Next} {error : Error} :
    (first >>= next) = .error error ↔
      first = .error error ∨ ∃ result, first = .ok result ∧ next result = .error error := by
  cases first with
  | ok result =>
    constructor
    · exact fun same => Or.inr ⟨result, rfl, same⟩
    · rintro (⟨⟨⟩⟩ | ⟨_, ⟨⟩, same⟩)
      exact same
  | error failure =>
    constructor
    · rintro ⟨⟩
      exact Or.inl rfl
    · rintro (⟨⟨⟩⟩ | ⟨_, ⟨⟩, _⟩)
      rfl

theorem mapError_eq_ok_iff {Error Other Result : Type} {change : Error → Other}
    {outcome : Except Error Result} {result : Result} :
    outcome.mapError change = .ok result ↔ outcome = .ok result := by
  cases outcome with
  | ok value =>
    constructor
    · rintro ⟨⟩
      rfl
    · rintro ⟨⟩
      rfl
  | error cause => exact iff_of_false error_ne_ok error_ne_ok

theorem exists_of_mapM_error {Error Result Item : Type} {step : Item → Except Error Result}
    {items : List Item} {error : Error} (failed : items.mapM step = .error error) :
    ∃ item ∈ items, step item = .error error := by
  induction items with
  | nil => cases failed
  | cons item items inductionHypothesis =>
    rw [List.mapM_cons] at failed
    rcases bind_eq_error_iff.mp failed with here | ⟨result, -, failed⟩
    · exact ⟨item, List.mem_cons_self, here⟩
    · rcases bind_eq_error_iff.mp failed with later | ⟨results, -, ⟨⟩⟩
      obtain ⟨other, inside, there⟩ := inductionHypothesis later
      exact ⟨other, List.mem_cons_of_mem _ inside, there⟩

theorem mapM_eq_ok_of_imp {Error Result Item : Type} {step other : Item → Except Error Result}
    {items : List Item} {results : List Result} (ran : items.mapM step = .ok results)
    (same : ∀ item ∈ items, ∀ result, step item = .ok result → other item = .ok result) :
    items.mapM other = .ok results := by
  induction items generalizing results with
  | nil => exact ran
  | cons item items inductionHypothesis =>
    rw [List.mapM_cons] at ran ⊢
    obtain ⟨first, here, ran⟩ := bind_eq_ok_iff.mp ran
    obtain ⟨rest, later, ran⟩ := bind_eq_ok_iff.mp ran
    have others := inductionHypothesis later fun next member => same next (List.mem_cons_of_mem _ member)
    refine bind_eq_ok_iff.mpr ⟨first, same item List.mem_cons_self first here, ?_⟩
    exact bind_eq_ok_iff.mpr ⟨rest, others, ran⟩

theorem length_of_mapM_ok {Error Result Item : Type} {step : Item → Except Error Result}
    {items : List Item} {results : List Result} (ran : items.mapM step = .ok results) :
    results.length = items.length := by
  induction items generalizing results with
  | nil =>
    cases ran
    rfl
  | cons item items inductionHypothesis =>
    rw [List.mapM_cons] at ran
    obtain ⟨first, -, ran⟩ := bind_eq_ok_iff.mp ran
    obtain ⟨rest, later, ran⟩ := bind_eq_ok_iff.mp ran
    cases ran
    rw [List.length_cons, List.length_cons, inductionHypothesis later]

theorem exists_of_mem_of_mapM_ok {Error Result Item : Type} {step : Item → Except Error Result}
    {items : List Item} {results : List Result} (ran : items.mapM step = .ok results)
    {result : Result} (member : result ∈ results) :
    ∃ item ∈ items, step item = .ok result := by
  induction items generalizing results with
  | nil =>
    cases ran
    cases member
  | cons item items inductionHypothesis =>
    rw [List.mapM_cons] at ran
    obtain ⟨first, here, ran⟩ := bind_eq_ok_iff.mp ran
    obtain ⟨rest, later, ran⟩ := bind_eq_ok_iff.mp ran
    cases ran
    rcases List.mem_cons.mp member with rfl | inside
    · exact ⟨item, List.mem_cons_self, here⟩
    · obtain ⟨other, otherInside, there⟩ := inductionHypothesis later inside
      exact ⟨other, List.mem_cons_of_mem _ otherInside, there⟩

/-- Work on a state that yields a result or fails. -/
abbrev Work (State Result : Type) := ExceptT CaptureError (StateM State) Result

namespace Work

variable {State Result Next Item : Type} {state ended : State} {error : CaptureError}

/-! ### Single steps -/

theorem run_get (state : State) : (get : Work State State).run state = (.ok state, state) := rfl

theorem run_set (next state : State) :
    (set next : Work State PUnit).run state = (.ok PUnit.unit, next) := rfl

/-! ### One step after another -/

theorem run_map (change : Result → Next) (work : Work State Result) (state : State) :
    (change <$> work).run state = ((work.run state).1.map change, (work.run state).2) := by
  rw [ExceptT.run_map]
  show (Except.map change (work.run state).1, (work.run state).2) = _
  rfl

theorem run_bind (work : Work State Result) (next : Result → Work State Next) (state : State) :
    (work >>= next).run state =
      match work.run state with
      | (.ok result, middle) => (next result).run middle
      | (.error error, ended) => (.error error, ended) := by
  show ExceptT.bindCont next (work.run state).1 (work.run state).2 = _
  obtain ⟨outcome, middle⟩ := work.run state
  cases outcome with
  | ok result => rfl
  | error error => rfl

theorem run_map_eq_error_iff {change : Result → Next} {work : Work State Result} :
    (change <$> work).run state = (.error error, ended) ↔ work.run state = (.error error, ended) := by
  rw [run_map]
  obtain ⟨outcome, middle⟩ := work.run state
  cases outcome with
  | ok result =>
    constructor
    · rintro ⟨⟩
    · rintro ⟨⟩
  | error failure =>
    constructor
    · rintro ⟨⟩
      rfl
    · rintro ⟨⟩
      rfl

theorem run_map_eq_ok_iff {change : Result → Next} {work : Work State Result} {value : Next} :
    (change <$> work).run state = (.ok value, ended) ↔
      ∃ result, work.run state = (.ok result, ended) ∧ change result = value := by
  rw [run_map]
  obtain ⟨outcome, middle⟩ := work.run state
  cases outcome with
  | ok result =>
    constructor
    · rintro ⟨⟩
      exact ⟨result, rfl, rfl⟩
    · rintro ⟨_, ⟨⟩, rfl⟩
      rfl
  | error failure =>
    constructor
    · rintro ⟨⟩
    · rintro ⟨_, ⟨⟩, _⟩

theorem run_bind_eq_ok_iff {work : Work State Result} {next : Result → Work State Next}
    {value : Next} :
    (work >>= next).run state = (.ok value, ended) ↔ ∃ result middle,
      work.run state = (.ok result, middle) ∧ (next result).run middle = (.ok value, ended) := by
  rw [run_bind]
  obtain ⟨outcome, middle⟩ := work.run state
  cases outcome with
  | ok result =>
    constructor
    · exact fun ran => ⟨result, middle, rfl, ran⟩
    · rintro ⟨_, _, ⟨⟩, ran⟩
      exact ran
  | error failure =>
    constructor
    · rintro ⟨⟩
    · rintro ⟨_, _, ⟨⟩, _⟩

theorem run_bind_eq_error_iff {work : Work State Result} {next : Result → Work State Next} :
    (work >>= next).run state = (.error error, ended) ↔
      work.run state = (.error error, ended) ∨ ∃ result middle,
        work.run state = (.ok result, middle) ∧ (next result).run middle = (.error error, ended) := by
  rw [run_bind]
  obtain ⟨outcome, middle⟩ := work.run state
  cases outcome with
  | ok result =>
    constructor
    · exact fun ran => Or.inr ⟨result, middle, rfl, ran⟩
    · rintro (⟨⟨⟩⟩ | ⟨_, _, ⟨⟩, ran⟩)
      exact ran
  | error failure =>
    constructor
    · rintro ⟨⟩
      exact Or.inl rfl
    · rintro (⟨⟨⟩⟩ | ⟨_, _, ⟨⟩, _⟩)
      rfl

/-! ### A step for every item of a list -/

variable {step : Item → Work State Result}

theorem run_mapM_cons_eq_ok_iff {item : Item} {items : List Item} {results : List Result} :
    ((item :: items).mapM step).run state = (.ok results, ended) ↔ ∃ result middle others,
      (step item).run state = (.ok result, middle) ∧
        (items.mapM step).run middle = (.ok others, ended) ∧ results = result :: others := by
  rw [List.mapM_cons, run_bind_eq_ok_iff]
  constructor
  · rintro ⟨result, middle, first, ran⟩
    obtain ⟨others, _, rest, last⟩ := run_bind_eq_ok_iff.mp ran
    cases last
    exact ⟨result, middle, others, first, rest, rfl⟩
  · rintro ⟨result, middle, others, first, rest, rfl⟩
    exact ⟨result, middle, first, run_bind_eq_ok_iff.mpr ⟨others, ended, rest, rfl⟩⟩

theorem run_mapM_append_eq_ok {items later : List Item} {results others : List Result}
    {middle : State} (first : (items.mapM step).run state = (.ok results, middle))
    (rest : (later.mapM step).run middle = (.ok others, ended)) :
    ((items ++ later).mapM step).run state = (.ok (results ++ others), ended) := by
  rw [List.mapM_append]
  refine run_bind_eq_ok_iff.mpr ⟨results, middle, first, ?_⟩
  exact run_bind_eq_ok_iff.mpr ⟨others, ended, rest, rfl⟩

theorem length_of_run_mapM {items : List Item} {results : List Result}
    (ran : (items.mapM step).run state = (.ok results, ended)) : results.length = items.length := by
  induction items generalizing state results with
  | nil =>
    cases ran
    rfl
  | cons item items inductionHypothesis =>
    obtain ⟨result, middle, others, -, rest, rfl⟩ := run_mapM_cons_eq_ok_iff.mp ran
    rw [List.length_cons, List.length_cons, inductionHypothesis rest]

theorem run_mapM_cons_eq_error {item : Item} {items : List Item} {result : Result}
    {middle : State} (first : (step item).run state = (.ok result, middle))
    (rest : (items.mapM step).run middle = (.error error, ended)) :
    ((item :: items).mapM step).run state = (.error error, ended) := by
  rw [List.mapM_cons]
  exact run_bind_eq_error_iff.mpr
    (Or.inr ⟨result, middle, first, run_bind_eq_error_iff.mpr (Or.inl rest)⟩)

/-- What successful steps preserve, together with the items done and their results, holds
after all steps if it holds before them. -/
theorem holds_of_run_mapM {Holds : List Item → List Result → State → Prop}
    (preserved : ∀ done taken before item result after, Holds done taken before →
      (step item).run before = (.ok result, after) →
        Holds (done ++ [item]) (taken ++ [result]) after)
    {items : List Item} {results : List Result} {done : List Item} {taken : List Result}
    (holds : Holds done taken state) (ran : (items.mapM step).run state = (.ok results, ended)) :
    Holds (done ++ items) (taken ++ results) ended := by
  induction items generalizing state results done taken with
  | nil =>
    cases ran
    rw [List.append_nil, List.reverse_nil, List.append_nil]
    exact holds
  | cons item items inductionHypothesis =>
    obtain ⟨result, middle, others, first, rest, rfl⟩ := run_mapM_cons_eq_ok_iff.mp ran
    have further := inductionHypothesis (preserved done taken state item result middle holds first) rest
    rw [List.append_assoc, List.append_assoc] at further
    exact further

/-- What successful steps preserve, together with the items done, holds after all steps of a
fold if it holds before them. -/
theorem holds_of_run_foldlM {Holds : List Item → Result → State → Prop}
    {combine : Result → Item → Work State Result}
    (preserved : ∀ done result before item next after, Holds done result before →
      (combine result item).run before = (.ok next, after) → Holds (done ++ [item]) next after)
    {items : List Item} {start result : Result} {done : List Item}
    (holds : Holds done start state)
    (ran : (items.foldlM combine start).run state = (.ok result, ended)) :
    Holds (done ++ items) result ended := by
  induction items generalizing state start done with
  | nil =>
    cases ran
    rw [List.append_nil]
    exact holds
  | cons item items inductionHypothesis =>
    rw [List.foldlM_cons] at ran
    obtain ⟨next, middle, first, rest⟩ := run_bind_eq_ok_iff.mp ran
    have further := inductionHypothesis (preserved done start state item next middle holds first) rest
    rw [List.append_assoc] at further
    exact further

/-- Every result comes from a step that was taken in a state with what all steps preserve. -/
theorem exists_step_of_mem {Holds : State → Prop}
    (preserved : ∀ before item result after, Holds before →
      (step item).run before = (.ok result, after) → Holds after)
    {items : List Item} {results : List Result} (holds : Holds state)
    (ran : (items.mapM step).run state = (.ok results, ended)) {result : Result}
    (member : result ∈ results) :
    ∃ item ∈ items, ∃ before after, Holds before ∧ (step item).run before = (.ok result, after) := by
  induction items generalizing state results with
  | nil =>
    cases ran
    cases member
  | cons item items inductionHypothesis =>
    obtain ⟨first, middle, others, taken, rest, rfl⟩ := run_mapM_cons_eq_ok_iff.mp ran
    rcases List.mem_cons.mp member with rfl | later
    · exact ⟨item, List.mem_cons_self, state, middle, holds, taken⟩
    · obtain ⟨found, inside, where_⟩ :=
        inductionHypothesis (preserved state item first middle holds taken) rest later
      exact ⟨found, List.mem_cons_of_mem _ inside, where_⟩

/-- A sequence fails with its first step that fails, and nothing is done after that. -/
theorem run_mapM_eq_error {items : List Item}
    (ran : (items.mapM step).run state = (.error error, ended)) :
    ∃ before item later taken middle, items = before ++ item :: later ∧
      (before.mapM step).run state = (.ok taken, middle) ∧
        (step item).run middle = (.error error, ended) := by
  induction items generalizing state with
  | nil => cases ran
  | cons item items inductionHypothesis =>
    rw [List.mapM_cons, run_bind_eq_error_iff] at ran
    rcases ran with failed | ⟨result, middle, first, ran⟩
    · exact ⟨[], item, items, [], state, rfl, rfl, failed⟩
    · rcases run_bind_eq_error_iff.mp ran with rest | ⟨_, _, _, last⟩
      · obtain ⟨before, failing, later, taken, middle', rfl, done, failed⟩ := inductionHypothesis rest
        refine ⟨item :: before, failing, later, result :: taken, middle', rfl, ?_, failed⟩
        exact run_mapM_cons_eq_ok_iff.mpr ⟨result, middle, taken, first, done, rfl⟩
      · cases last

end Work

end SourceCapture
