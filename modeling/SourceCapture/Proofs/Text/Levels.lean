/-
How many brackets a text leaves open for a reader that knows no arrows. Such a reader takes the tip
of an arrow for a closing angle bracket, so a text in which every bracket is closed leaves one
bracket too few open for every arrow in it. A part at the start of such a text cannot close more
brackets than that.
-/

import SourceCapture.Proofs.Text.Brackets

namespace SourceCapture.Text

/-- What a character adds to the number of open brackets. Angle brackets count, and parentheses if
that is said. -/
def weight (rounds : Bool) (char : Char) : Int :=
  if char = '<' ∨ rounds = true ∧ char = '(' then 1
  else if char = '>' ∨ rounds = true ∧ char = ')' then -1
  else 0

/-- What the characters of a text count for together. -/
def total (value : Char → Int) : List Char → Int
  | [] => 0
  | char :: rest => value char + total value rest

/-- How many brackets are open behind a text, where every tip of an arrow closes one. -/
def level (rounds : Bool) (text : List Char) : Int := total (weight rounds) text

variable {rounds : Bool} {char : Char} {value : Char → Int} {allowed : Char → Bool}
  {text left right : List Char}

@[simp] theorem total_nil (value : Char → Int) : total value [] = 0 := rfl

@[simp] theorem total_cons (value : Char → Int) (char : Char) (text : List Char) :
    total value (char :: text) = value char + total value text := rfl

@[simp] theorem total_append (value : Char → Int) (left right : List Char) :
    total value (left ++ right) = total value left + total value right := by
  induction left with
  | nil => rw [List.nil_append, total_nil, Int.zero_add]
  | cons char left inductionHypothesis =>
    rw [List.cons_append, total_cons, total_cons, inductionHypothesis, Int.add_assoc]

theorem total_congr {other : Char → Int} (same : ∀ char ∈ text, value char = other char) :
    total value text = total other text := by
  induction text with
  | nil => rfl
  | cons char rest inductionHypothesis =>
    rw [List.forall_mem_cons] at same
    rw [total_cons, total_cons, same.1, inductionHypothesis same.2]

theorem total_eq_zero (without : ∀ char ∈ text, value char = 0) : total value text = 0 := by
  induction text with
  | nil => rfl
  | cons char rest inductionHypothesis =>
    rw [List.forall_mem_cons] at without
    rw [total_cons, without.1, inductionHypothesis without.2, Int.add_zero]

@[simp] theorem level_nil (rounds : Bool) : level rounds [] = 0 := rfl

@[simp] theorem level_cons (rounds : Bool) (char : Char) (text : List Char) :
    level rounds (char :: text) = weight rounds char + level rounds text := rfl

@[simp] theorem level_append (rounds : Bool) (left right : List Char) :
    level rounds (left ++ right) = level rounds left + level rounds right :=
  total_append (weight rounds) left right

theorem weight_eq_zero (notAngle : char ≠ '<' ∧ char ≠ '>') (notRound : char ≠ '(' ∧ char ≠ ')') :
    weight rounds char = 0 := by
  simp [weight, notAngle, notRound]

theorem weight_of_isOrdinary (ordinary : isOrdinary char = true) : weight rounds char = 0 :=
  weight_eq_zero ⟨ne_of_isOrdinary ordinary rfl, ne_of_isOrdinary ordinary rfl⟩
    ⟨ne_of_isOrdinary ordinary rfl, ne_of_isOrdinary ordinary rfl⟩

theorem weight_tip (rounds : Bool) : weight rounds '>' = -1 := by
  cases rounds <;> rfl

theorem add_weight_false (depth : Int) (char : Char) : depth + weight false char =
    if char = '<' then depth + 1 else if char = '>' then depth - 1 else depth := by
  simp only [weight, Bool.false_eq_true, false_and, or_false]
  split_ifs <;> omega

/-- Angle brackets alone are counted in one go. -/
theorem level_false (text : List Char) :
    level false text = (text.count '<' : Int) - text.count '>' := by
  induction text with
  | nil => rfl
  | cons char rest inductionHypothesis =>
    rw [level_cons, inductionHypothesis, List.count_cons, List.count_cons, weight]
    by_cases opening : char = '<'
    · rw [opening]
      simp
      omega
    · by_cases closing : char = '>'
      · rw [closing]
        simp
        omega
      · simp [opening, closing]

/-- What a parenthesis adds to the number of open ones. -/
def roundWeight (char : Char) : Int := if char = '(' then 1 else if char = ')' then -1 else 0

theorem weight_true (char : Char) : weight true char = weight false char + roundWeight char := by
  by_cases opening : char = '('
  · rw [opening]
    rfl
  · by_cases closing : char = ')'
    · rw [closing]
      rfl
    · simp [weight, roundWeight, opening, closing]

/-- Parentheses are counted on top of the angle brackets. -/
theorem level_true (text : List Char) :
    level true text = level false text + total roundWeight text := by
  induction text with
  | nil => rfl
  | cons char rest inductionHypothesis =>
    rw [level_cons, level_cons, inductionHypothesis, weight_true, total_cons]
    omega

/-! ### Texts in which every bracket is closed -/

namespace Closed

/-- A closed text leaves one bracket too few open for every arrow. -/
theorem level_eq (closed : Closed allowed text) (rounds : Bool) :
    level rounds text = -(text.count '-' : Int) := by
  induction closed with
  | nil => rfl
  | ordinary isOrdinary _ _ inductionHypothesis =>
    rw [level_cons, weight_of_isOrdinary isOrdinary, inductionHypothesis, Int.zero_add,
      List.count_cons_of_ne (ne_of_isOrdinary isOrdinary rfl)]
  | arrow _ _ inductionHypothesis =>
    have dash : weight rounds '-' = 0 := weight_eq_zero (by decide) (by decide)
    rw [level_cons, level_cons, inductionHypothesis, dash, weight_tip, List.count_cons_self,
      List.count_cons_of_ne (by decide)]
    omega
  | round _ _ innerHypothesis restHypothesis | angle _ _ innerHypothesis restHypothesis =>
    rw [level_cons, level_append, level_cons, innerHypothesis, restHypothesis, List.count_cons,
      List.count_append, List.count_cons]
    cases rounds <;> simp [weight] <;> omega

/-- A part at the start of a bracketed text ends in the brackets, at them or behind them. -/
theorem total_bracketed_nonneg {opening closing : Char} {inner rest : List Char}
    (pays : 0 ≤ value opening ∧ 0 ≤ value opening + value closing)
    (inside : ∀ left right, inner = left ++ right → 0 ≤ total value left)
    (later : ∀ left right, rest = left ++ right → 0 ≤ total value left)
    (split : opening :: (inner ++ closing :: rest) = left ++ right) : 0 ≤ total value left := by
  rcases List.cons_eq_append_iff.mp split with ⟨rfl, -⟩ | ⟨front, rfl, cut⟩
  · exact Int.le_refl 0
  · rw [total_cons]
    rcases List.append_eq_append_iff.mp cut with ⟨back, rfl, tail⟩ | ⟨back, rfl, -⟩
    · rw [total_append]
      have whole := inside inner [] (List.append_nil inner).symm
      rcases List.cons_eq_append_iff.mp tail with ⟨rfl, -⟩ | ⟨others, rfl, same⟩
      · rw [total_nil]
        omega
      · have further := later others right same
        rw [total_cons]
        omega
    · have front := inside front back rfl
      omega

/-- Where brackets count for more than what closes them, a part at the start of a closed text never
counts for less than nothing. -/
theorem total_nonneg (closed : Closed allowed text)
    (ordinary : ∀ char, isOrdinary char = true → value char = 0)
    (arrow : 0 ≤ value '-' ∧ 0 ≤ value '-' + value '>')
    (round : 0 ≤ value '(' ∧ 0 ≤ value '(' + value ')')
    (angle : 0 ≤ value '<' ∧ 0 ≤ value '<' + value '>') (split : text = left ++ right) :
    0 ≤ total value left := by
  induction closed generalizing left right with
  | nil =>
    rw [(List.append_eq_nil_iff.mp split.symm).1]
    exact Int.le_refl 0
  | ordinary isOrdinary _ _ inductionHypothesis =>
    rcases List.cons_eq_append_iff.mp split with ⟨rfl, -⟩ | ⟨front, rfl, same⟩
    · exact Int.le_refl 0
    · rw [total_cons, ordinary _ isOrdinary, Int.zero_add]
      exact inductionHypothesis same
  | arrow _ _ inductionHypothesis =>
    rcases List.cons_eq_append_iff.mp split with ⟨rfl, -⟩ | ⟨front, rfl, same⟩
    · exact Int.le_refl 0
    · rcases List.cons_eq_append_iff.mp same with ⟨rfl, -⟩ | ⟨others, rfl, tail⟩
      · rw [total_cons, total_nil, Int.add_zero]
        exact arrow.1
      · have further := inductionHypothesis tail
        rw [total_cons, total_cons]
        omega
  | round _ _ innerHypothesis restHypothesis =>
    exact total_bracketed_nonneg round (fun _ _ => innerHypothesis) (fun _ _ => restHypothesis) split
  | angle _ _ innerHypothesis restHypothesis =>
    exact total_bracketed_nonneg angle (fun _ _ => innerHypothesis) (fun _ _ => restHypothesis) split

/-- No parenthesis is closed before it is opened. -/
theorem total_roundWeight_nonneg (closed : Closed allowed text) (split : text = left ++ right) :
    0 ≤ total roundWeight left := by
  refine closed.total_nonneg (fun char isOrdinary => ?_) (by decide) (by decide) (by decide) split
  have opening : char ≠ '(' := ne_of_isOrdinary isOrdinary rfl
  have closing : char ≠ ')' := ne_of_isOrdinary isOrdinary rfl
  simp [roundWeight, opening, closing]

/-- No angle bracket is closed before it is opened if there are no arrows. -/
theorem level_nonneg (closed : Closed allowed text) (arrowless : '-' ∉ text)
    (split : text = left ++ right) : 0 ≤ level false left := by
  let value (char : Char) : Int := if char = '-' then 1 else weight false char
  have same : total value left = total (weight false) left := by
    refine total_congr fun char member => if_neg ?_
    rintro rfl
    exact arrowless (split ▸ List.mem_append_left _ member)
  rw [level, ← same]
  refine closed.total_nonneg (fun char isOrdinary => ?_) (by decide) (by decide) (by decide) split
  exact (if_neg (ne_of_isOrdinary isOrdinary rfl)).trans (weight_of_isOrdinary isOrdinary)

end Closed

/-! ### The closing angle bracket -/

theorem splitClosingAngleFrom?_cons (depth : Int) (char : Char) (rest : List Char) :
    splitClosingAngleFrom? depth (char :: rest) =
      if char = '>' ∧ depth + weight false char = 0 then some ([char], rest)
      else (splitClosingAngleFrom? (depth + weight false char) rest).map
        fun parts => (char :: parts.1, parts.2) := by
  rw [splitClosingAngleFrom?, ← add_weight_false]
  simp

/-- Nothing is cut as long as the first bracket stays open. -/
theorem splitClosingAngleFrom?_append {depth : Int}
    (inside : ∀ front back, left = front ++ back → 1 ≤ depth + level false front)
    (right : List Char) : splitClosingAngleFrom? depth (left ++ right) =
      (splitClosingAngleFrom? (depth + level false left) right).map
        fun parts => (left ++ parts.1, parts.2) := by
  induction left generalizing depth with
  | nil =>
    rw [level_nil, Int.add_zero]
    exact Option.map_id'.symm
  | cons char left inductionHypothesis =>
    have open' := inside [char] left rfl
    rw [level_cons, level_nil, Int.add_zero] at open'
    have further : ∀ front back, left = front ++ back →
        1 ≤ depth + weight false char + level false front := by
      intro front back split
      have deeper := inside (char :: front) back (by rw [split]; rfl)
      rwa [level_cons, ← Int.add_assoc] at deeper
    have stays : ¬(char = '>' ∧ depth + weight false char = 0) := by
      rintro ⟨-, outside⟩
      omega
    rw [List.cons_append, splitClosingAngleFrom?_cons, if_neg stays, inductionHypothesis further,
      Option.map_map, level_cons, Int.add_assoc]
    rfl

/-- A text that closes more brackets than it opens is cut in it. -/
theorem exists_splitClosingAngleFrom? {depth : Int} (inside : 1 ≤ depth)
    (outside : depth + level false left ≤ 0) :
    ∃ front back, left = front ++ '>' :: back ∧ depth + level false front = 1 ∧
      ∀ right, splitClosingAngleFrom? depth (left ++ right) =
        some (front ++ ['>'], back ++ right) := by
  induction left generalizing depth with
  | nil =>
    rw [level_nil] at outside
    omega
  | cons char left inductionHypothesis =>
    by_cases closes : char = '>' ∧ depth + weight false char = 0
    · obtain ⟨rfl, last⟩ := closes
      have tip := weight_tip false
      refine ⟨[], left, rfl, ?_, fun right => ?_⟩
      · rw [level_nil]
        omega
      · rw [List.cons_append, splitClosingAngleFrom?_cons, if_pos ⟨rfl, last⟩]
        rfl
    · have deeper : 1 ≤ depth + weight false char := by
        by_cases closing : char = '>'
        · have tip : weight false char = -1 := closing ▸ weight_tip false
          have other : depth + weight false char ≠ 0 := fun last => closes ⟨closing, last⟩
          omega
        · have nonneg : 0 ≤ weight false char := by
            simp only [weight, closing, Bool.false_eq_true, false_and, or_false, if_false]
            split <;> decide
          omega
      rw [level_cons, ← Int.add_assoc] at outside
      obtain ⟨front, back, rfl, level, found⟩ := inductionHypothesis deeper outside
      refine ⟨char :: front, back, rfl, ?_, fun right => ?_⟩
      · rw [level_cons, ← Int.add_assoc, level]
      · rw [List.cons_append, splitClosingAngleFrom?_cons, if_neg closes, found]
        rfl

/-- The first part ends with the bracket. -/
theorem exists_of_splitClosingAngleFrom? {depth : Int}
    (found : splitClosingAngleFrom? depth text = some (left, right)) :
    ∃ front, left = front ++ ['>'] := by
  induction text generalizing depth left with
  | nil => cases found
  | cons char rest inductionHypothesis =>
    rw [splitClosingAngleFrom?_cons] at found
    split at found
    case isTrue closes =>
      cases found
      exact ⟨[], by rw [closes.1]; rfl⟩
    case isFalse =>
      obtain ⟨⟨inner, others⟩, cut, same⟩ := Option.map_eq_some_iff.mp found
      cases same
      obtain ⟨front, rfl⟩ := inductionHypothesis cut
      exact ⟨char :: front, rfl⟩

theorem splitClosingAngle?_cons (text : List Char) : splitClosingAngle? ('<' :: text) =
    (splitClosingAngleFrom? 1 text).map fun parts => ('<' :: parts.1, parts.2) := by
  rw [splitClosingAngle?, splitClosingAngleFrom?_cons, if_neg fun closes => by cases closes.1]
  rfl

/-- A closed text without arrows is passed over. -/
theorem Closed.splitClosingAngle?_append (closed : Closed allowed text) (arrowless : '-' ∉ text)
    (rest : List Char) : splitClosingAngle? ('<' :: (text ++ rest)) =
      (splitClosingAngleFrom? 1 rest).map fun parts => ('<' :: (text ++ parts.1), parts.2) := by
  have inside : ∀ front back, text = front ++ back → 1 ≤ 1 + level false front := by
    intro front back split
    have nonneg := closed.level_nonneg arrowless split
    omega
  have balanced : 1 + level false text = 1 := by
    rw [closed.level_eq, List.count_eq_zero.mpr arrowless]
    rfl
  rw [splitClosingAngle?_cons, splitClosingAngleFrom?_append inside, balanced, Option.map_map]
  rfl

/-- A closed text with an arrow is cut in it. -/
theorem Closed.exists_splitClosingAngle? (closed : Closed allowed text) (arrow : '-' ∈ text) :
    ∃ front back, text = front ++ '>' :: back ∧ level false front = 0 ∧
      ∀ rest, splitClosingAngle? ('<' :: (text ++ rest)) =
        some ('<' :: (front ++ ['>']), back ++ rest) := by
  have outside : 1 + level false text ≤ 0 := by
    have counted := List.count_pos_iff.mpr arrow
    have closes := closed.level_eq false
    omega
  obtain ⟨front, back, same, depth, found⟩ := exists_splitClosingAngleFrom? (Int.le_refl 1) outside
  refine ⟨front, back, same, by omega, fun rest => ?_⟩
  rw [splitClosingAngle?_cons, found]
  rfl

/-! ### The last dot -/

theorem splitLastDotFrom?_cons (depth : Int) (char : Char) (rest : List Char) :
    splitLastDotFrom? depth (char :: rest) =
      match splitLastDotFrom? (depth + weight true char) rest with
      | some parts => some (char :: parts.1, parts.2)
      | none => if char = '.' ∧ depth = 0 then some ([], rest) else none := by
  have deeper : (if char = '<' || char = '(' then depth + 1
      else if char = '>' || char = ')' then depth - 1 else depth) = depth + weight true char := by
    simp only [weight, Bool.or_eq_true, decide_eq_true_eq, true_and]
    split_ifs <;> omega
  rw [splitLastDotFrom?, deeper]
  cases splitLastDotFrom? (depth + weight true char) rest with
  | some parts => rfl
  | none => simp

/-- The last dot of a text is looked for in its last part first. -/
theorem splitLastDotFrom?_append (depth : Int) (left right : List Char) :
    splitLastDotFrom? depth (left ++ right) =
      match splitLastDotFrom? (depth + level true left) right with
      | some parts => some (left ++ parts.1, parts.2)
      | none => (splitLastDotFrom? depth left).map fun parts => (parts.1, parts.2 ++ right) := by
  induction left generalizing depth with
  | nil =>
    rw [level_nil, Int.add_zero, List.nil_append]
    cases splitLastDotFrom? depth right <;> rfl
  | cons char left inductionHypothesis =>
    rw [List.cons_append, splitLastDotFrom?_cons, inductionHypothesis, level_cons, Int.add_assoc,
      splitLastDotFrom?_cons]
    cases splitLastDotFrom? (depth + (weight true char + level true left)) right with
    | some parts => rfl
    | none =>
      cases splitLastDotFrom? (depth + weight true char) left with
      | some parts => rfl
      | none =>
        dsimp only [Option.map_none]
        split <;> rfl

/-- A text is cut at a dot that is outside of all brackets, and there is no such dot behind it. -/
theorem of_splitLastDotFrom? {depth : Int}
    (found : splitLastDotFrom? depth text = some (left, right)) :
    text = left ++ '.' :: right ∧ depth + level true left = 0 ∧
      splitLastDotFrom? 0 right = none := by
  induction text generalizing depth left with
  | nil => cases found
  | cons char rest inductionHypothesis =>
    rw [splitLastDotFrom?_cons] at found
    split at found
    case h_1 parts cut =>
      cases found
      obtain ⟨same, outside, last⟩ := inductionHypothesis cut
      refine ⟨by rw [same]; rfl, ?_, last⟩
      rw [level_cons, ← Int.add_assoc, outside]
    case h_2 none =>
      split at found
      case isTrue dot =>
        cases found
        obtain ⟨rfl, rfl⟩ := dot
        exact ⟨rfl, rfl, none⟩
      case isFalse => cases found

/-- Nothing is cut just when every dot is inside of brackets. -/
theorem splitLastDotFrom?_eq_none_iff {depth : Int} : splitLastDotFrom? depth text = none ↔
    ∀ left right, text = left ++ '.' :: right → depth + level true left ≠ 0 := by
  constructor
  · rintro uncut left right rfl outside
    rw [splitLastDotFrom?_append, outside, splitLastDotFrom?_cons] at uncut
    cases later : splitLastDotFrom? (0 + weight true '.') right with
    | none =>
      rw [later] at uncut
      cases uncut
    | some parts =>
      rw [later] at uncut
      cases uncut
  · intro inside
    rw [Option.eq_none_iff_forall_ne_some]
    rintro ⟨left, right⟩ found
    obtain ⟨same, outside, -⟩ := of_splitLastDotFrom? found
    exact inside left right same outside

theorem splitLastDotFrom?_eq_none {depth : Int} (undotted : '.' ∉ text) :
    splitLastDotFrom? depth text = none := by
  refine splitLastDotFrom?_eq_none_iff.mpr fun left right same => ?_
  rw [same] at undotted
  exact absurd (List.mem_append_right _ List.mem_cons_self) undotted

end SourceCapture.Text
