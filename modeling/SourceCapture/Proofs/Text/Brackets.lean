/-
Texts in which every bracket is closed. Whatever walks over a text and counts brackets passes over
such a text as a whole: at its end as many brackets are open as before, and what it looks for was
not met, if that stands in no place outside of the brackets of the text. So a list of such texts
that is written with a separator is split at the separator into these texts.
-/

import Mathlib.Data.List.Basic
import SourceCapture.Proofs.Text.Trimming
import SourceCapture.Text.Nesting

namespace SourceCapture.Text

/-- The characters that mean nothing to whatever counts brackets, and mark no annotation. -/
def isOrdinary (char : Char) : Bool :=
  !(Nesting.opens char || Nesting.closes char || char = '"' || char = '-' || char = '@')

/-- The characters that are not ordinary. -/
def specials : List Char := ['(', '[', '<', '\x7b', ')', ']', '>', '\x7d', '"', '-', '@']

theorem isOrdinary_iff {char : Char} : isOrdinary char = true ↔ char ∉ specials := by
  simp [isOrdinary, Nesting.opens, Nesting.closes, specials, and_assoc]

/-- The characters that brackets and quotes are made of. -/
def isMark (char : Char) : Bool := char = '"' || Nesting.opens char || Nesting.closes char

theorem isMark_of_isOrdinary {char : Char} (ordinary : isOrdinary char = true) :
    isMark char = false := by
  simp only [isOrdinary, Bool.not_eq_true', Bool.or_eq_false_iff] at ordinary
  simp [isMark, ordinary]

theorem ne_of_isOrdinary {char other : Char} (ordinary : isOrdinary char = true)
    (special : isOrdinary other = false) : char ≠ other := by
  rintro rfl
  rw [ordinary] at special
  cases special

/-- What holds of no special character holds of ordinary ones only. -/
theorem isOrdinary_of_holds {holds : Char → Bool} {char : Char} (none : specials.any holds = false)
    (here : holds char = true) : isOrdinary char = true :=
  isOrdinary_iff.mpr fun special => List.any_eq_false.mp none char special here

/-- Texts in which every bracket is closed, and only allowed characters stand outside of them. The
tip of an arrow closes no bracket. -/
inductive Closed : (Char → Bool) → List Char → Prop where
  | nil (allowed : Char → Bool) : Closed allowed []
  | ordinary {allowed : Char → Bool} {char : Char} {rest : List Char}
      (isOrdinary : isOrdinary char = true) (fine : allowed char = true)
      (closed : Closed allowed rest) : Closed allowed (char :: rest)
  | arrow {allowed : Char → Bool} {rest : List Char} (fine : allowed '-' = true)
      (closed : Closed allowed rest) : Closed allowed ('-' :: '>' :: rest)
  | round {allowed : Char → Bool} {inner rest : List Char} (inside : Closed (fun _ => true) inner)
      (closed : Closed allowed rest) : Closed allowed ('(' :: (inner ++ ')' :: rest))
  | angle {allowed : Char → Bool} {inner rest : List Char} (inside : Closed (fun _ => true) inner)
      (closed : Closed allowed rest) : Closed allowed ('<' :: (inner ++ '>' :: rest))

namespace Closed

variable {allowed other : Char → Bool} {text left right : List Char}

theorem append (first : Closed allowed left) (second : Closed allowed right) :
    Closed allowed (left ++ right) := by
  induction first with
  | nil => exact second
  | ordinary isOrdinary fine closed inductionHypothesis =>
    exact .ordinary isOrdinary fine (inductionHypothesis second)
  | arrow fine closed inductionHypothesis => exact .arrow fine (inductionHypothesis second)
  | round inside closed _ inductionHypothesis =>
    rw [List.cons_append, List.append_assoc, List.cons_append]
    exact .round inside (inductionHypothesis second)
  | angle inside closed _ inductionHypothesis =>
    rw [List.cons_append, List.append_assoc, List.cons_append]
    exact .angle inside (inductionHypothesis second)

theorem mono (closed : Closed allowed text) (more : ∀ char, allowed char = true → other char = true) :
    Closed other text := by
  induction closed with
  | nil => exact .nil other
  | ordinary isOrdinary fine closed inductionHypothesis =>
    exact .ordinary isOrdinary (more _ fine) (inductionHypothesis more)
  | arrow fine closed inductionHypothesis => exact .arrow (more _ fine) (inductionHypothesis more)
  | round inside closed _ inductionHypothesis => exact .round inside (inductionHypothesis more)
  | angle inside closed _ inductionHypothesis => exact .angle inside (inductionHypothesis more)

theorem all (closed : Closed allowed text) : Closed (fun _ => true) text :=
  closed.mono fun _ _ => rfl

theorem of_ordinary (ordinary : ∀ char ∈ text, isOrdinary char = true)
    (fine : ∀ char ∈ text, allowed char = true) : Closed allowed text := by
  induction text with
  | nil => exact .nil allowed
  | cons char rest inductionHypothesis =>
    rw [List.forall_mem_cons] at ordinary fine
    exact .ordinary ordinary.1 fine.1 (inductionHypothesis ordinary.2 fine.2)

theorem inRound (closed : Closed allowed text) : Closed other ('(' :: (text ++ [')'])) :=
  .round closed.all (.nil other)

theorem inAngle (closed : Closed allowed text) : Closed other ('<' :: (text ++ ['>'])) :=
  .angle closed.all (.nil other)

/-- There is no annotation in a closed text. -/
theorem not_mem_at (closed : Closed allowed text) : '@' ∉ text := by
  induction closed with
  | nil => exact List.not_mem_nil
  | ordinary isOrdinary _ _ inductionHypothesis =>
    rw [List.mem_cons, not_or]
    exact ⟨(ne_of_isOrdinary isOrdinary rfl).symm, inductionHypothesis⟩
  | arrow _ _ inductionHypothesis => simpa using inductionHypothesis
  | round _ _ inner rest => simpa using ⟨inner, rest⟩
  | angle _ _ inner rest => simpa using ⟨inner, rest⟩

end Closed

/-! ### Separators -/

/-- Whether nothing is known of the text before a character that changes what the character
means, but for the open brackets. -/
structure Nesting.IsCalm (state : Nesting) : Prop where
  unquoted : state.isQuoted = false
  afterOther : state.previous ≠ some '-'

namespace Nesting

variable {state : Nesting} {separator char : Char}

theorem next_eq_of_noMark (unquoted : state.isQuoted = false) (noMark : isMark char = false) :
    state.next char = { state with previous := some char } := by
  rw [isMark, Bool.or_eq_false_iff, Bool.or_eq_false_iff, decide_eq_false_iff_not] at noMark
  obtain ⟨⟨noQuote, noOpening⟩, noClosing⟩ := noMark
  simp [next, unquoted, noQuote, noOpening, noClosing]

theorem next_eq_of_opens (unquoted : state.isQuoted = false) (opening : opens char = true) :
    state.next char = { state with depth := state.depth + 1, previous := some char } := by
  have other : char ≠ '"' := by
    rintro rfl
    cases opening
  simp [next, unquoted, opening, other]

theorem next_eq_of_closes (unquoted : state.isQuoted = false) (closing : closes char = true)
    (noTip : state.previous = some '-' → char ≠ '>') :
    state.next char = { state with depth := state.depth - 1, previous := some char } := by
  have other : char ≠ '"' ∧ opens char = false := by
    simp only [closes, Bool.or_eq_true, decide_eq_true_iff] at closing
    rcases closing with ((rfl | rfl) | rfl) | rfl <;> decide
  have tip : ¬ (char = '>' ∧ state.previous = some '-') := fun both => noTip both.2 both.1
  simp [next, unquoted, closing, other, tip]

/-- An arrow neither opens nor closes a bracket. -/
theorem next_eq_of_arrow (unquoted : state.isQuoted = false) :
    (state.next '-').next '>' = { state with previous := some '>' } := by
  have dash : state.next '-' = { state with previous := some '-' } :=
    next_eq_of_noMark unquoted rfl
  rw [dash]
  simp [next, unquoted, opens]

theorem next_eq_of_ordinary (unquoted : state.isQuoted = false)
    (ordinary : isOrdinary char = true) : state.next char = { state with previous := some char } :=
  next_eq_of_noMark unquoted (isMark_of_isOrdinary ordinary)

/-- A bracket is no first half of an arrow. -/
theorem some_ne_dash (bracket : opens char = true ∨ closes char = true) : some char ≠ some '-' := by
  rintro ⟨⟩
  rcases bracket with opening | closing
  · cases opening
  · cases closing

theorem next_of_ordinary (calm : state.IsCalm) (ordinary : isOrdinary char = true) :
    (state.next char).IsCalm ∧ (state.next char).depth = state.depth := by
  rw [next_eq_of_ordinary calm.unquoted ordinary]
  exact ⟨⟨calm.unquoted, fun same => ne_of_isOrdinary ordinary rfl (Option.some.inj same)⟩, rfl⟩

theorem next_of_opens (calm : state.IsCalm) (opening : opens char = true) :
    (state.next char).IsCalm ∧ (state.next char).depth = state.depth + 1 := by
  rw [next_eq_of_opens calm.unquoted opening]
  exact ⟨⟨calm.unquoted, some_ne_dash (.inl opening)⟩, rfl⟩

theorem next_of_closes (calm : state.IsCalm) (closing : closes char = true) :
    (state.next char).IsCalm ∧ (state.next char).depth = state.depth - 1 := by
  rw [next_eq_of_closes calm.unquoted closing fun dash => absurd dash calm.afterOther]
  exact ⟨⟨calm.unquoted, some_ne_dash (.inr closing)⟩, rfl⟩

theorem next_arrow (calm : state.IsCalm) :
    ((state.next '-').next '>').IsCalm ∧ ((state.next '-').next '>').depth = state.depth := by
  rw [next_eq_of_arrow calm.unquoted]
  exact ⟨⟨calm.unquoted, nofun⟩, rfl⟩

theorem separates_of_bracket (state : Nesting) (separator : Char)
    (bracket : opens char = true ∨ closes char = true) : state.separates separator char = false := by
  rcases bracket with opening | closing
  · simp [separates, opening]
  · simp [separates, closing]

theorem separates_self (ordinary : isOrdinary separator = true) (unquoted : state.isQuoted = false)
    (outside : state.depth = 0) : state.separates separator separator = true := by
  simp only [isOrdinary, Bool.not_eq_true', Bool.or_eq_false_iff, decide_eq_false_iff_not]
    at ordinary
  simp [separates, unquoted, outside, ordinary]

theorem eq_of_separates (separates : state.separates separator char = true) : char = separator := by
  simp only [Nesting.separates, Bool.and_eq_true, decide_eq_true_eq] at separates
  exact separates.1.1.1

end Nesting

/-- Whether a text is passed over without a cut, from what is known before it to what is known
after it. -/
def Walks (separator : Char) (state : Nesting) (text : List Char) (after : Nesting) : Prop :=
  ∀ rest, piecesFrom separator state (text ++ rest) =
    text.foldr extendFirst (piecesFrom separator after rest)

namespace Walks

variable {separator char : Char} {state middle after : Nesting} {text left right : List Char}

theorem nil (separator : Char) (state : Nesting) : Walks separator state [] state := fun _ => rfl

theorem cons (keeps : state.separates separator char = false)
    (walks : Walks separator (state.next char) text after) :
    Walks separator state (char :: text) after := by
  intro rest
  rw [List.cons_append, piecesFrom, keeps, List.foldr_cons, walks rest]
  rfl

theorem append (first : Walks separator state left middle)
    (second : Walks separator middle right after) :
    Walks separator state (left ++ right) after := by
  intro rest
  rw [List.append_assoc, first, second, List.foldr_append]

end Walks

/-- Whether a text is passed over without a cut, and leaves that many brackets open. -/
def Passes (separator : Char) (state : Nesting) (text : List Char) (depth : Int) : Prop :=
  ∃ after, Walks separator state text after ∧ after.IsCalm ∧ after.depth = depth

namespace Passes

variable {separator char opening closing : Char} {state : Nesting} {depth first second : Int}
  {text left right inner : List Char} {allowed : Char → Bool}

theorem nil (calm : state.IsCalm) : Passes separator state [] state.depth :=
  ⟨state, .nil separator state, calm, rfl⟩

theorem cons (keeps : state.separates separator char = false)
    (passes : Passes separator (state.next char) text depth) :
    Passes separator state (char :: text) depth := by
  obtain ⟨after, walks, calm, same⟩ := passes
  exact ⟨after, .cons keeps walks, calm, same⟩

theorem append (before : Passes separator state left first)
    (later : ∀ next : Nesting, next.IsCalm → next.depth = first →
      Passes separator next right second) :
    Passes separator state (left ++ right) second := by
  obtain ⟨middle, walks, calm, same⟩ := before
  obtain ⟨after, further, last, ended⟩ := later middle calm same
  exact ⟨after, walks.append further, last, ended⟩

/-- A bracket that opens or closes is never cut at. -/
theorem opens (calm : state.IsCalm) (isOpening : Nesting.opens opening = true)
    (later : ∀ next : Nesting, next.IsCalm → next.depth = state.depth + 1 →
      Passes separator next text depth) :
    Passes separator state (opening :: text) depth := by
  obtain ⟨next, same⟩ := Nesting.next_of_opens calm isOpening
  exact .cons (state.separates_of_bracket separator (Or.inl isOpening)) (later _ next same)

theorem closes (calm : state.IsCalm) (isClosing : Nesting.closes closing = true)
    (later : ∀ next : Nesting, next.IsCalm → next.depth = state.depth - 1 →
      Passes separator next text depth) :
    Passes separator state (closing :: text) depth := by
  obtain ⟨next, same⟩ := Nesting.next_of_closes calm isClosing
  exact .cons (state.separates_of_bracket separator (Or.inr isClosing)) (later _ next same)

theorem ordinary (calm : state.IsCalm) (isOrdinary : isOrdinary char = true)
    (keeps : state.depth = 0 → char ≠ separator)
    (later : ∀ next : Nesting, next.IsCalm → next.depth = state.depth →
      Passes separator next text depth) :
    Passes separator state (char :: text) depth := by
  obtain ⟨next, same⟩ := Nesting.next_of_ordinary calm isOrdinary
  refine .cons ?_ (later _ next same)
  by_cases outside : state.depth = 0
  · simp [Nesting.separates, keeps outside]
  · simp [Nesting.separates, outside]

theorem arrow (calm : state.IsCalm) (keeps : state.depth = 0 → '-' ≠ separator)
    (later : ∀ next : Nesting, next.IsCalm → next.depth = state.depth →
      Passes separator next text depth) :
    Passes separator state ('-' :: '>' :: text) depth := by
  obtain ⟨next, same⟩ := Nesting.next_arrow calm
  refine .cons ?_ (.cons ?_ (later _ next same))
  · by_cases outside : state.depth = 0
    · simp [Nesting.separates, keeps outside]
    · simp [Nesting.separates, outside]
  · exact Nesting.separates_of_bracket _ separator (Or.inr rfl)

theorem bracketed (calm : state.IsCalm) (isOpening : Nesting.opens opening = true)
    (isClosing : Nesting.closes closing = true)
    (inside : ∀ next : Nesting, next.IsCalm → next.depth = state.depth + 1 →
      Passes separator next inner next.depth)
    (later : ∀ next : Nesting, next.IsCalm → next.depth = state.depth →
      Passes separator next text next.depth) :
    Passes separator state (opening :: (inner ++ closing :: text)) state.depth := by
  refine opens calm isOpening fun next nextCalm deeper => (inside next nextCalm deeper).append ?_
  intro last lastCalm same
  refine closes lastCalm isClosing fun outer outerCalm back => ?_
  have depth : outer.depth = state.depth := by omega
  rw [← depth]
  exact later outer outerCalm depth

end Passes

/-- A closed text is passed over: inside of brackets nothing is cut, and outside of them there is
no separator. -/
theorem Closed.passes {allowed : Char → Bool} {separator : Char} {text : List Char}
    (closed : Closed allowed text) {state : Nesting} (calm : state.IsCalm)
    (inside : 0 ≤ state.depth) (without : state.depth = 0 → allowed separator = false) :
    Passes separator state text state.depth := by
  have other {allowed : Char → Bool} {char : Char} (fine : allowed char = true)
      (without : allowed separator = false) : char ≠ separator := by
    rintro rfl
    rw [without] at fine
    cases fine
  induction closed generalizing state with
  | nil => exact .nil calm
  | ordinary isOrdinary fine closed inductionHypothesis =>
    refine .ordinary calm isOrdinary (fun outside => other fine (without outside)) ?_
    intro next nextCalm same
    rw [← same] at inside without ⊢
    exact inductionHypothesis nextCalm inside without
  | arrow fine closed inductionHypothesis =>
    refine .arrow calm (fun outside => other fine (without outside)) fun next nextCalm same => ?_
    rw [← same] at inside without ⊢
    exact inductionHypothesis nextCalm inside without
  | round _ _ innerHypothesis restHypothesis | angle _ _ innerHypothesis restHypothesis =>
    refine .bracketed calm rfl rfl (fun next nextCalm deeper => ?_) fun next nextCalm same => ?_
    · exact innerHypothesis nextCalm (by omega) fun outside => absurd outside (by omega)
    · rw [← same] at inside without
      exact restHypothesis nextCalm inside without

/-! ### Lists -/

/-- Whether a text can be an item of a list with a separator: the list is not cut inside of it, and
white space that is taken off does not belong to it. -/
structure IsPart (separator : Char) (text : List Char) : Prop where
  nonempty : text ≠ []
  tight : IsTight text
  passes : ∀ state : Nesting, state.IsCalm → state.depth = 0 → Passes separator state text 0

theorem Closed.isPart {allowed : Char → Bool} {separator : Char} {text : List Char}
    (closed : Closed allowed text) (without : allowed separator = false) (nonempty : text ≠ [])
    (tight : IsTight text) : IsPart separator text := by
  refine ⟨nonempty, tight, fun state calm outside => ?_⟩
  rw [← outside]
  exact closed.passes calm (by omega) fun _ => without

theorem foldr_extendFirst (text first : List Char) (others : List (List Char)) :
    text.foldr extendFirst (first :: others) = (text ++ first) :: others := by
  induction text with
  | nil => rfl
  | cons char rest inductionHypothesis =>
    rw [List.foldr_cons, inductionHypothesis]
    rfl

section

variable {separator : Char} {text : List Char} {texts : List (List Char)}

theorem piecesFrom_intercalate (ordinary : isOrdinary separator = true)
    (notSpace : separator ≠ ' ') (isPart : IsPart separator text)
    (areParts : ∀ other ∈ texts, IsPart separator other) {state : Nesting} (calm : state.IsCalm)
    (outside : state.depth = 0) :
    piecesFrom separator state ([separator, ' '].intercalate (text :: texts)) =
      text :: texts.map (' ' :: ·) := by
  induction texts generalizing text state with
  | nil =>
    obtain ⟨after, walks, -, -⟩ := isPart.passes state calm outside
    have whole := walks []
    rw [List.append_nil, piecesFrom, foldr_extendFirst, List.append_nil] at whole
    rw [List.intercalate_singleton, whole, List.map_nil]
  | cons next others inductionHypothesis =>
    rw [List.forall_mem_cons] at areParts
    obtain ⟨after, walks, last, ended⟩ := isPart.passes state calm outside
    obtain ⟨nextCalm, nextDepth⟩ := Nesting.next_of_ordinary last ordinary
    obtain ⟨spaceCalm, spaceDepth⟩ :=
      Nesting.next_of_ordinary nextCalm (show isOrdinary ' ' = true from rfl)
    have further := inductionHypothesis areParts.1 areParts.2 spaceCalm
      (spaceDepth.trans (nextDepth.trans ended))
    have keptSpace : (after.next separator).separates separator ' ' = false := by
      simp [Nesting.separates, notSpace.symm]
    rw [List.intercalate_cons_cons, List.append_assoc, walks, List.cons_append, List.cons_append,
      List.nil_append, piecesFrom, Nesting.separates_self ordinary last.unquoted ended, if_pos rfl,
      piecesFrom, keptSpace, further, foldr_extendFirst, List.append_nil]
    rfl

/-- A list is split into its items. -/
theorem splitTopLevel_intercalate (ordinary : isOrdinary separator = true)
    (notSpace : separator ≠ ' ') (areParts : ∀ text ∈ texts, IsPart separator text) :
    splitTopLevel separator ([separator, ' '].intercalate texts) = texts := by
  cases texts with
  | nil => rfl
  | cons text others =>
    have bare : ∀ other ∈ text :: others, trim other = other ∧ trim (' ' :: other) = other := by
      intro other member
      have tight := (areParts other member).tight
      exact ⟨tight.trims.trim_eq, tight.trim_blank_append (show allBlank [' '] = true from rfl)⟩
    have calm : Nesting.IsCalm {} := ⟨rfl, nofun⟩
    rw [List.forall_mem_cons] at areParts
    rw [splitTopLevel, piecesFrom_intercalate ordinary notSpace areParts.1 areParts.2 calm rfl,
      List.map_cons, List.map_map, (bare text List.mem_cons_self).1]
    have mapped : others.map (trim ∘ (' ' :: ·)) = others := by
      refine (List.map_congr_left fun other member => ?_).trans others.map_id
      exact (bare other (List.mem_cons_of_mem _ member)).2
    rw [mapped]
    refine List.filter_eq_self.mpr fun other member => ?_
    have nonempty : other ≠ [] := by
      rcases List.mem_cons.mp member with rfl | later
      · exact areParts.1.nonempty
      · exact (areParts.2 other later).nonempty
    simpa using nonempty

end

/-! ### Arrows and parentheses -/

/-- Whether the search for an arrow passes over a text, and goes on with that many open
brackets. -/
def SkipsTo (depth : Int) (previous : Option Char) (text : List Char) (ended : Int) : Prop :=
  ∃ last, last ≠ some '-' ∧ ∀ rest, splitArrowFrom? depth previous (text ++ rest) =
    (splitArrowFrom? ended last rest).map fun parts => (text ++ parts.1, parts.2)

namespace SkipsTo

variable {depth deeper ended last : Int} {previous : Option Char} {char : Char}
  {text left right inner : List Char}

theorem nil (afterOther : previous ≠ some '-') : SkipsTo depth previous [] depth :=
  ⟨previous, afterOther, fun _ => Option.map_id'.symm⟩

theorem cons (step : ∀ rest, splitArrowFrom? depth previous (char :: rest) =
      (splitArrowFrom? deeper (some char) rest).map fun parts => (char :: parts.1, parts.2))
    (skips : SkipsTo deeper (some char) text ended) :
    SkipsTo depth previous (char :: text) ended := by
  obtain ⟨after, other, found⟩ := skips
  refine ⟨after, other, fun rest => ?_⟩
  rw [List.cons_append, step, found, Option.map_map]
  rfl

theorem append (first : SkipsTo depth previous left ended)
    (second : ∀ after, after ≠ some '-' → SkipsTo ended after right last) :
    SkipsTo depth previous (left ++ right) last := by
  obtain ⟨middle, other, found⟩ := first
  obtain ⟨after, last, further⟩ := second middle other
  refine ⟨after, last, fun rest => ?_⟩
  rw [List.append_assoc, found, further, Option.map_map]
  simp only [Function.comp_def, List.append_assoc]

theorem opens (isOpening : char = '(' ∨ char = '<')
    (skips : SkipsTo (depth + 1) (some char) text ended) :
    SkipsTo depth previous (char :: text) ended := by
  refine .cons (fun rest => ?_) skips
  rcases isOpening with rfl | rfl
  · rw [splitArrowFrom?]
    rfl
  · rw [splitArrowFrom?]
    rfl

theorem closes (isClosing : char = ')' ∨ char = '>') (afterOther : previous ≠ some '-')
    (skips : SkipsTo (depth - 1) (some char) text ended) :
    SkipsTo depth previous (char :: text) ended := by
  refine .cons (fun rest => ?_) skips
  rcases isClosing with rfl | rfl
  · rw [splitArrowFrom?]
    rfl
  · rw [splitArrowFrom?]
    simp [afterOther]

theorem ordinary (isOrdinary : isOrdinary char = true)
    (skips : SkipsTo depth (some char) text ended) : SkipsTo depth previous (char :: text) ended := by
  simp only [Text.isOrdinary, Nesting.opens, Nesting.closes, Bool.not_eq_true',
    Bool.or_eq_false_iff, decide_eq_false_iff_not] at isOrdinary
  refine .cons (fun rest => ?_) skips
  rw [splitArrowFrom?]
  simp [isOrdinary]

theorem arrow (inside : depth ≠ 0) (skips : SkipsTo depth (some '>') text ended) :
    SkipsTo depth previous ('-' :: '>' :: text) ended := by
  have tip : SkipsTo depth (some '-') ('>' :: text) ended := by
    refine .cons (fun rest => ?_) skips
    rw [splitArrowFrom?]
    simp
  refine .cons (fun rest => ?_) tip
  rw [splitArrowFrom?]
  simp [inside]

theorem bracketed {opening closing : Char}
    (kind : opening = '(' ∧ closing = ')' ∨ opening = '<' ∧ closing = '>')
    (inside : SkipsTo (depth + 1) (some opening) inner (depth + 1))
    (later : SkipsTo depth (some closing) text ended) :
    SkipsTo depth previous (opening :: (inner ++ closing :: text)) ended := by
  have isOpening : opening = '(' ∨ opening = '<' := kind.imp And.left And.left
  have isClosing : closing = ')' ∨ closing = '>' := kind.imp And.right And.right
  refine opens isOpening (inside.append fun after other => closes isClosing other ?_)
  rwa [Int.add_sub_cancel]

end SkipsTo

section

variable {allowed : Char → Bool} {text rest : List Char}

/-- A closed text without an arrow outside of its brackets holds no arrow that is looked for. -/
theorem Closed.skipsTo (closed : Closed allowed text) {depth : Int} {previous : Option Char}
    (afterOther : previous ≠ some '-') (inside : 0 ≤ depth)
    (without : depth = 0 → allowed '-' = false) : SkipsTo depth previous text depth := by
  have notDash {char : Char} (isOrdinary : isOrdinary char = true) : some char ≠ some '-' :=
    fun same => ne_of_isOrdinary isOrdinary rfl (Option.some.inj same)
  induction closed generalizing depth previous with
  | nil => exact .nil afterOther
  | ordinary isOrdinary fine closed inductionHypothesis =>
    exact .ordinary isOrdinary (inductionHypothesis (notDash isOrdinary) inside without)
  | arrow fine closed inductionHypothesis =>
    refine .arrow (fun outside => ?_) (inductionHypothesis (by decide) inside without)
    rw [without outside] at fine
    cases fine
  | round _ _ innerHypothesis restHypothesis =>
    refine .bracketed (Or.inl ⟨rfl, rfl⟩) ?_ (restHypothesis (by decide) inside without)
    exact innerHypothesis (by decide) (by omega) fun outside => absurd outside (by omega)
  | angle _ _ innerHypothesis restHypothesis =>
    refine .bracketed (Or.inr ⟨rfl, rfl⟩) ?_ (restHypothesis (by decide) inside without)
    exact innerHypothesis (by decide) (by omega) fun outside => absurd outside (by omega)

theorem Closed.splitArrow?_append (closed : Closed allowed text) (without : allowed '-' = false)
    (rest : List Char) : splitArrow? (text ++ '-' :: '>' :: rest) = some (text, rest) := by
  have outside : SkipsTo 0 none text 0 := closed.skipsTo nofun (Int.le_refl 0) fun _ => without
  obtain ⟨after, -, found⟩ := outside
  rw [splitArrow?, found, splitArrowFrom?]
  simp

theorem Closed.splitArrow?_eq_none (closed : Closed allowed text) (without : allowed '-' = false) :
    splitArrow? text = none := by
  have outside : SkipsTo 0 none text 0 := closed.skipsTo nofun (Int.le_refl 0) fun _ => without
  obtain ⟨after, -, found⟩ := outside
  have whole := found []
  rwa [List.append_nil] at whole

/-- The parenthesis that closes an outer one is not inside of a closed text. -/
theorem Closed.afterParenthesis?_append (closed : Closed allowed text) {depth : Nat}
    (inside : depth ≠ 0) (rest : List Char) :
    afterParenthesis? depth (text ++ rest) = afterParenthesis? depth rest := by
  have passed {depth : Nat} {char : Char} (rest : List Char) (other : char ≠ '(' ∧ char ≠ ')') :
      afterParenthesis? depth (char :: rest) = afterParenthesis? depth rest := by
    rw [afterParenthesis?, if_neg other.1, if_neg other.2]
  induction closed generalizing depth rest with
  | nil => rfl
  | ordinary isOrdinary fine closed inductionHypothesis =>
    have other := And.intro (ne_of_isOrdinary isOrdinary (show Text.isOrdinary '(' = false from rfl))
      (ne_of_isOrdinary isOrdinary (show Text.isOrdinary ')' = false from rfl))
    rw [List.cons_append, passed _ other, inductionHypothesis inside]
  | arrow fine closed inductionHypothesis =>
    rw [List.cons_append, List.cons_append, passed _ (by decide), passed _ (by decide),
      inductionHypothesis inside]
  | round _ _ innerHypothesis restHypothesis =>
    rw [List.cons_append, List.append_assoc, List.cons_append, afterParenthesis?, if_pos rfl,
      innerHypothesis (Nat.succ_ne_zero depth), afterParenthesis?, if_neg (by decide), if_pos rfl,
      if_neg (by omega), Nat.succ_sub_one, restHypothesis inside]
  | angle _ _ innerHypothesis restHypothesis =>
    rw [List.cons_append, List.append_assoc, List.cons_append, passed _ (by decide),
      innerHypothesis inside, passed _ (by decide), restHypothesis inside]

end

end SourceCapture.Text
