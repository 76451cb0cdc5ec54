/-
Small searches in a text: taking a known piece off an end, finding a piece inside, and
cutting at the first or the last place where a piece or a character stands.
-/

namespace SourceCapture.Text

/-- What follows the piece, if the text starts with it. -/
def stripStart? : List Char → List Char → Option (List Char)
  | [], text => some text
  | _ :: _, [] => none
  | expected :: piece, char :: rest =>
    if char = expected then stripStart? piece rest else none

/-- What precedes the piece, if the text ends with it. -/
def stripEnd? (piece text : List Char) : Option (List Char) :=
  (stripStart? piece.reverse text.reverse).map List.reverse

/-- The text without the piece at its start and the other piece at its end, if it has
both. -/
def stripBoth? (opening closing text : List Char) : Option (List Char) :=
  (stripStart? opening text).bind (stripEnd? closing)

/-- The parts before and after the first place where the piece stands. -/
def splitOnce? (piece : List Char) : List Char → Option (List Char × List Char)
  | [] => if piece.isEmpty then some ([], []) else none
  | char :: rest =>
    match stripStart? piece (char :: rest) with
    | some after => some ([], after)
    | none => (splitOnce? piece rest).map fun parts => (char :: parts.1, parts.2)

/-- Whether the piece stands anywhere in the text. -/
def containsPiece (piece text : List Char) : Bool := (splitOnce? piece text).isSome

/-- The parts before and after the last place where the character stands. -/
def splitLast? (separator : Char) (text : List Char) : Option (List Char × List Char) :=
  (splitOnce? [separator] text.reverse).map fun parts =>
    (parts.2.reverse, parts.1.reverse)

/-- The text with `substitute` in place of every character that satisfies the test. -/
def replaceWhere (test : Char → Bool) (substitute : Char) (text : List Char) : List Char :=
  text.map fun char => if test char then substitute else char

/-- The words of a text: its longest parts that hold no separator. -/
def wordsBy (isSeparator : Char → Bool) (text : List Char) : List (List Char) :=
  (text.splitOnP isSeparator).filter (!·.isEmpty)

/-- What is taken off the start and what is left make up the text. -/
theorem stripStart?_eq_some {piece text rest : List Char} :
    stripStart? piece text = some rest ↔ text = piece ++ rest := by
  induction piece generalizing text with
  | nil => simp [stripStart?]
  | cons expected piece inductionHypothesis =>
    cases text with
    | nil => simp [stripStart?]
    | cons char tail =>
      by_cases same : char = expected
      · simp [stripStart?, same, inductionHypothesis]
      · simp [stripStart?, same]

/-- What is taken off the end and what is left make up the text. -/
theorem stripEnd?_eq_some {piece text rest : List Char} :
    stripEnd? piece text = some rest ↔ text = rest ++ piece := by
  simp only [stripEnd?, Option.map_eq_some_iff, stripStart?_eq_some]
  constructor
  · rintro ⟨reversed, split, rfl⟩
    have turned := congrArg List.reverse split
    simpa using turned
  · rintro rfl
    exact ⟨rest.reverse, by simp, by simp⟩

theorem stripBoth?_append (opening inner closing : List Char) :
    stripBoth? opening closing (opening ++ (inner ++ closing)) = some inner := by
  rw [stripBoth?, stripStart?_eq_some.mpr rfl, Option.bind_some]
  exact stripEnd?_eq_some.mpr rfl

theorem stripBoth?_surrounded (opening closing : Char) (inner : List Char) :
    stripBoth? [opening] [closing] (opening :: (inner ++ [closing])) = some inner :=
  stripBoth?_append [opening] inner [closing]

/-- The parts of a text at a piece, with the piece between them, make up the text. -/
theorem eq_append_of_splitOnce? {piece text left right : List Char}
    (split : splitOnce? piece text = some (left, right)) : text = left ++ (piece ++ right) := by
  induction text generalizing left with
  | nil =>
    unfold splitOnce? at split
    split at split
    case isTrue none =>
      simp only [Option.some.injEq, Prod.mk.injEq] at split
      simp [← split.1, ← split.2, List.isEmpty_iff.mp none]
    case isFalse => simp at split
  | cons char rest inductionHypothesis =>
    unfold splitOnce? at split
    split at split
    case h_1 after found =>
      simp only [Option.some.injEq, Prod.mk.injEq] at split
      rw [stripStart?_eq_some.mp found, ← split.1, ← split.2, List.nil_append]
    case h_2 =>
      simp only [Option.map_eq_some_iff, Prod.mk.injEq, Prod.exists] at split
      obtain ⟨before, after, found, rfl, rfl⟩ := split
      rw [inductionHypothesis found, List.cons_append]

end SourceCapture.Text
