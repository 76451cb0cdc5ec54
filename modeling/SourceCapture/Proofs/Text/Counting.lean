/-
What the number of its parts says about a text. A text that starts and ends with something has one
part only if it is not cut, and two with a plain text behind a separator only if it leaves no bracket
and no quotes open. So texts that are always split as they are meant to be keep the count.
-/

import SourceCapture.Proofs.Text.Lists

namespace SourceCapture.Text

variable {separator char : Char} {state : Nesting} {text left right : List Char}

/-! ### Texts behind which nothing is known -/

/-- Whether a text is passed over wherever nothing is known, and nothing is known behind it. -/
def Refreshes (separator : Char) (text : List Char) : Prop :=
  ∀ state : Nesting, state.IsFresh → Settles separator state text ∧ (state.after text).IsFresh

namespace Refreshes

theorem append (first : Refreshes separator left) (second : Refreshes separator right) :
    Refreshes separator (left ++ right) := by
  intro state fresh
  obtain ⟨settles, middle⟩ := first state fresh
  obtain ⟨later, ended⟩ := second _ middle
  refine ⟨settles.append later, ?_⟩
  rwa [Nesting.after_append]

theorem of_ordinary (ordinary : ∀ char ∈ text, isOrdinary char = true) (other : separator ∉ text) :
    Refreshes separator text :=
  fun _ fresh => ⟨settles_of_ordinary fresh.toIsSettled ordinary other, fresh.after ordinary⟩

theorem of_allBlank (solid : isBlank separator = false) (blank : allBlank text = true) :
    Refreshes separator text := by
  have absent := not_mem_of_allBlank solid blank
  rw [allBlank, List.all_eq_true] at blank
  exact .of_ordinary (fun char member => isOrdinary_of_isBlank (blank char member)) absent

theorem append_keepsCount (first : Refreshes separator left) (second : KeepsCount separator right) :
    KeepsCount separator (left ++ right) := by
  obtain ⟨settles, middle⟩ := first {} .empty
  exact (settles.append (second.settles middle)).keepsCount

/-- What stands behind such a text counts as if it stood alone. -/
theorem keepsCount_of_append (first : Refreshes separator left)
    (whole : KeepsCount separator (left ++ right)) : KeepsCount separator right := by
  obtain ⟨settles, middle⟩ := first {} .empty
  have alike : (({} : Nesting).after left).Alike {} := middle.alike .empty
  constructor
  · have pieces := whole.whole
    obtain ⟨start, others, same⟩ := List.exists_cons_of_ne_nil
      (piecesFrom_ne_nil separator (({} : Nesting).after left) right)
    rw [settles.walks, same, foldr_extendFirst, List.cons.injEq, List.append_cancel_left_eq] at pieces
    rw [← alike.piecesFrom, same, pieces.1, pieces.2]
  · have settled := whole.settled
    rw [Nesting.after_append] at settled
    exact (alike.after right).isSettled settled

end Refreshes

theorem Nesting.previous_next (state : Nesting) (char : Char) :
    (state.next char).previous = some char := rfl

/-- A text that keeps the count leaves nothing behind, but for the first half of an arrow. -/
theorem KeepsCount.refreshes (keeps : KeepsCount separator text) (ended : text.getLast? ≠ some '-') :
    Refreshes separator text := by
  intro state fresh
  have settles := keeps.settles fresh
  refine ⟨settles, settles.settled, ?_⟩
  rcases List.eq_nil_or_concat' text with rfl | ⟨front, last, rfl⟩
  · exact fresh.afterOther
  · rw [Nesting.after_append, Nesting.after_cons, Nesting.after_nil, Nesting.previous_next]
    rwa [List.getLast?_concat] at ended

theorem KeepsCount.append_blank (keeps : KeepsCount separator left) (solid : isBlank separator = false)
    (blank : allBlank right = true) : KeepsCount separator (left ++ right) := by
  have settles := keeps.settles .empty
  exact (settles.append (settles_of_allBlank settles.settled solid blank)).keepsCount

/-- A plain character between two texts keeps them apart. -/
theorem KeepsCount.append_cons (first : KeepsCount separator left) (ordinary : isOrdinary char = true)
    (other : separator ≠ char) (second : KeepsCount separator right) :
    KeepsCount separator (left ++ char :: right) := by
  have settles := first.settles .empty
  have middle : Settles separator (({} : Nesting).after left) [char] :=
    settles_of_ordinary settles.settled (List.forall_mem_singleton.mpr ordinary) (by simpa using other)
  exact (settles.append (middle.append (second.settles (settles.settled.next ordinary)))).keepsCount

/-! ### Counting parts -/

theorem piecesFrom_of_not_mem (state : Nesting) (absent : separator ∉ text) :
    piecesFrom separator state text = [text] := by
  induction text generalizing state with
  | nil => rfl
  | cons char rest inductionHypothesis =>
    rw [List.mem_cons, not_or] at absent
    have keeps : state.separates separator char = false := by
      simp [Nesting.separates, Ne.symm absent.1]
    rw [piecesFrom, keeps, inductionHypothesis _ absent.2]
    rfl

theorem eq_of_piecesFrom {piece : List Char} (one : piecesFrom separator state text = [piece]) :
    piece = text := by
  have joined := intercalate_piecesFrom separator state text
  rwa [one, List.intercalate_singleton] at joined

/-- A text that is cut has a separator behind its first piece. -/
theorem exists_cut (cut : piecesFrom separator state text ≠ [text]) :
    ∃ left right, text = left ++ separator :: right ∧
      ∀ rest, ∃ others, piecesFrom separator state (text ++ rest) = left :: others := by
  induction text generalizing state with
  | nil => exact absurd rfl cut
  | cons char text inductionHypothesis =>
    by_cases separates : state.separates separator char = true
    · have same : char = separator := by
        simp only [Nesting.separates, Bool.and_eq_true, decide_eq_true_eq] at separates
        exact separates.1.1.1
      refine ⟨[], text, by rw [same]; rfl, fun rest => ?_⟩
      refine ⟨piecesFrom separator (state.next char) (text ++ rest), ?_⟩
      rw [List.cons_append, piecesFrom, if_pos separates]
    · have later : piecesFrom separator (state.next char) text ≠ [text] := by
        intro whole
        rw [piecesFrom, if_neg separates, whole] at cut
        exact cut rfl
      obtain ⟨left, right, same, found⟩ := inductionHypothesis later
      refine ⟨char :: left, right, by rw [same]; rfl, fun rest => ?_⟩
      obtain ⟨others, pieces⟩ := found rest
      refine ⟨others, ?_⟩
      rw [List.cons_append, piecesFrom, if_neg separates, pieces]
      rfl

/-- The last piece of a text ends as the text does. -/
theorem exists_piecesFrom_concat (other : char ≠ separator) (state : Nesting) (text : List Char) :
    ∃ front last, piecesFrom separator state (text ++ [char]) = front ++ [last ++ [char]] := by
  induction text generalizing state with
  | nil =>
    refine ⟨[], [], ?_⟩
    rw [List.nil_append, piecesFrom_of_not_mem state (by simpa using Ne.symm other)]
    rfl
  | cons first text inductionHypothesis =>
    obtain ⟨front, last, pieces⟩ := inductionHypothesis (state.next first)
    rw [List.cons_append, piecesFrom, pieces]
    split
    · exact ⟨[] :: front, last, rfl⟩
    · cases front with
      | nil => exact ⟨[], first :: last, rfl⟩
      | cons start front => exact ⟨(first :: start) :: front, last, rfl⟩

theorem length_partsFrom (separator : Char) (state : Nesting) (text : List Char) :
    (partsFrom separator state text).length =
      (piecesFrom separator state text).countP fun piece => !(trim piece).isEmpty := by
  rw [partsFrom, ← List.countP_eq_length_filter, List.countP_map]
  rfl

/-- A text is not cut if it has one part only and no separator at its ends. -/
theorem piecesFrom_of_length_partsFrom (tight : IsTight text)
    (started : text.head? ≠ some separator) (ended : text.getLast? ≠ some separator)
    (one : (partsFrom separator state text).length = 1) :
    piecesFrom separator state text = [text] := by
  -- The first piece and the last one would both be parts, and they would be two.
  by_contra cut
  obtain ⟨left, right, same, found⟩ := exists_cut cut
  obtain ⟨others, pieces⟩ := found []
  rw [List.append_nil] at pieces
  have begins : (trim left).isEmpty = false := by
    cases left with
    | nil =>
      rw [same] at started
      exact absurd rfl started
    | cons first left =>
      have solid := tight.1 first (by rw [same]; rfl)
      rw [← List.nil_append (first :: left), trim_append_cons solid]
      rfl
  obtain ⟨front, last, rfl⟩ : ∃ front last, text = front ++ [last] :=
    (List.eq_nil_or_concat' text).resolve_left (by rw [same]; simp)
  have solid := tight.2 last List.getLast?_concat
  have other : last ≠ separator := by
    rintro rfl
    exact ended List.getLast?_concat
  obtain ⟨start, final, split⟩ := exists_piecesFrom_concat other state front
  have ends : (trim (final ++ [last])).isEmpty = false := by
    rw [trim_append_cons solid]
    simp
  rw [length_partsFrom, split, List.countP_append, List.countP_singleton, ends] at one
  cases start with
  | nil =>
    rw [eq_of_piecesFrom split] at split
    exact cut split
  | cons first start =>
    obtain ⟨rfl, -⟩ := List.cons.inj (split.symm.trans pieces)
    rw [List.countP_cons_of_pos (by simpa using begins)] at one
    simp at one

/-! ### What is left open -/

namespace Nesting

theorem next_keeps_of_isOrdinary (state : Nesting) (ordinary : isOrdinary char = true) :
    (state.next char).depth = state.depth ∧ (state.next char).isQuoted = state.isQuoted := by
  simp only [isOrdinary, Bool.not_eq_true', Bool.or_eq_false_iff, decide_eq_false_iff_not]
    at ordinary
  obtain ⟨⟨⟨⟨opening, closing⟩, quote⟩, -⟩, -⟩ := ordinary
  simp only [next, opening, closing, quote]
  split_ifs <;> simp_all

theorem after_keeps_of_isOrdinary (state : Nesting)
    (ordinary : ∀ char ∈ text, isOrdinary char = true) :
    (state.after text).depth = state.depth ∧ (state.after text).isQuoted = state.isQuoted := by
  induction text generalizing state with
  | nil => exact ⟨rfl, rfl⟩
  | cons char text inductionHypothesis =>
    rw [List.forall_mem_cons] at ordinary
    have first := next_keeps_of_isOrdinary state ordinary.1
    have later := inductionHypothesis (state.next char) ordinary.2
    exact ⟨later.1.trans first.1, later.2.trans first.2⟩

end Nesting

/-- A text leaves nothing open if a separator behind it is seen. -/
theorem keepsCount_of_length_partsFrom (whole : piecesFrom separator {} text = [text])
    {plain : List Char} (absent : separator ∉ plain)
    (two : (partsFrom separator {} (text ++ separator :: plain)).length = 2) :
    KeepsCount separator text := by
  refine ⟨whole, ?_⟩
  by_cases seen : (({} : Nesting).after text).separates separator separator = true
  · simp only [Nesting.separates, Bool.and_eq_true, decide_eq_true_eq, Bool.not_eq_true'] at seen
    exact Nesting.isSettled_after seen.1.2 seen.1.1.2
  · have pieces : piecesFrom separator {} (text ++ separator :: plain) =
        [text ++ separator :: plain] := by
      have rest : extendFirst separator [plain] = [separator :: plain] := rfl
      rw [walks_of_piecesFrom whole, piecesFrom, if_neg seen, piecesFrom_of_not_mem _ absent, rest,
        foldr_extendFirst]
    have bounded : (partsFrom separator {} (text ++ separator :: plain)).length ≤ 1 := by
      rw [length_partsFrom, pieces]
      exact List.countP_le_length
    omega

/-- Plain characters behind a text do not change what it leaves open. -/
theorem KeepsCount.of_append_ordinary (keeps : KeepsCount separator (left ++ right))
    (ordinary : ∀ char ∈ right, isOrdinary char = true) : KeepsCount separator left := by
  have settled := keeps.settled
  rw [Nesting.after_append] at settled
  have same := Nesting.after_keeps_of_isOrdinary (({} : Nesting).after left) ordinary
  refine ⟨?_, Nesting.isSettled_after (same.1 ▸ settled.outside) (same.2 ▸ settled.unquoted)⟩
  by_contra cut
  obtain ⟨front, back, split, found⟩ := exists_cut cut
  obtain ⟨others, pieces⟩ := found right
  rw [keeps.whole] at pieces
  have whole := (List.cons.inj pieces).1
  rw [split] at whole
  have lengths := congrArg List.length whole
  simp only [List.length_append, List.length_cons] at lengths
  omega

end SourceCapture.Text
