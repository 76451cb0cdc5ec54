/-
Brackets in source text. Types, parameters and arguments are cut out of their source text
at characters that stand outside of all brackets. The brackets are counted, not matched by
kind; the tip of an arrow closes nothing, and neither does anything inside a quoted text.
-/

import SourceCapture.Text.Blank

namespace SourceCapture.Text

/-! ### Cutting at a separator -/

/-- What is known of the text before a character: how many brackets are open, whether it
stands inside quotes and after a backslash there, and the character just before it. -/
structure Nesting where
  depth : Int := 0
  isQuoted : Bool := false
  isEscaped : Bool := false
  previous : Option Char := none
  deriving Repr, DecidableEq

namespace Nesting

/-- The characters that open a bracket. -/
def opens (char : Char) : Bool := char = '(' || char = '[' || char = '<' || char = '{'

/-- The characters that close a bracket. -/
def closes (char : Char) : Bool := char = ')' || char = ']' || char = '>' || char = '}'

/-- What is known after one more character. -/
def next (state : Nesting) (char : Char) : Nesting :=
  let moved :=
    if state.isQuoted then
      if state.isEscaped then { state with isEscaped := false }
      else if char = '\\' then { state with isEscaped := true }
      else if char = '"' then { state with isQuoted := false }
      else state
    else if char = '"' then { state with isQuoted := true }
    else if opens char then { state with depth := state.depth + 1 }
    else if char = '>' && state.previous = some '-' then state
    else if closes char then { state with depth := state.depth - 1 }
    else state
  { moved with previous := some char }

/-- Whether the character is a separator that stands outside of brackets and quotes. -/
def separates (state : Nesting) (separator char : Char) : Bool :=
  char = separator && !state.isQuoted && state.depth = 0 &&
    !(char = '"' || opens char || closes char)

/-- What is known after a text. -/
def after (state : Nesting) (text : List Char) : Nesting := text.foldl next state

end Nesting

/-- Puts a character in front of the first piece. -/
def extendFirst (char : Char) : List (List Char) → List (List Char)
  | [] => [[char]]
  | first :: others => (char :: first) :: others

/-- The pieces of a text between the separators that stand outside of brackets. -/
def piecesFrom (separator : Char) (state : Nesting) : List Char → List (List Char)
  | [] => [[]]
  | char :: rest =>
    let pieces := piecesFrom separator (state.next char) rest
    if state.separates separator char then [] :: pieces else extendFirst char pieces

/-- The parts of a text between the separators that stand outside of brackets, without the
white space around them. Parts of white space are left out. -/
def splitTopLevel (separator : Char) (text : List Char) : List (List Char) :=
  ((piecesFrom separator {} text).map trim).filter (!·.isEmpty)

/-! ### Arrows, parentheses, angles and dots -/

/-- The parts of a text before and after the first arrow outside of brackets. Braces are no
brackets here and quotes quote nothing, since types have neither. -/
def splitArrowFrom? (depth : Int) (previous : Option Char) :
    List Char → Option (List Char × List Char)
  | [] => none
  | char :: rest =>
    if char = '-' && depth = 0 && rest.head? = some '>' then some ([], rest.tail)
    else
      let deeper :=
        if char = '(' || char = '[' || char = '<' then depth + 1
        else if char = '>' && previous = some '-' then depth
        else if char = ')' || char = ']' || char = '>' then depth - 1
        else depth
      (splitArrowFrom? deeper (some char) rest).map fun parts => (char :: parts.1, parts.2)

/-- The parts of a type before and after its arrow. -/
def splitArrow? (text : List Char) : Option (List Char × List Char) :=
  splitArrowFrom? 0 none text

/-- What follows the parenthesis that closes the outermost of those open. -/
def afterParenthesis? (depth : Nat) : List Char → Option (List Char)
  | [] => none
  | char :: rest =>
    if char = '(' then afterParenthesis? (depth + 1) rest
    else if char = ')' then
      if depth ≤ 1 then some rest else afterParenthesis? (depth - 1) rest
    else afterParenthesis? depth rest

/-- The text up to and with the angle that closes the outermost of those open, and what
follows it. -/
def splitClosingAngleFrom? (depth : Int) : List Char → Option (List Char × List Char)
  | [] => none
  | char :: rest =>
    let deeper := if char = '<' then depth + 1 else if char = '>' then depth - 1 else depth
    if char = '>' && deeper = 0 then some ([char], rest)
    else (splitClosingAngleFrom? deeper rest).map fun parts => (char :: parts.1, parts.2)

/-- The parts of a text up to and after the angle that closes its first one. -/
def splitClosingAngle? (text : List Char) : Option (List Char × List Char) :=
  splitClosingAngleFrom? 0 text

/-- The parts of a text before and after the last dot outside of brackets. -/
def splitLastDotFrom? (depth : Int) : List Char → Option (List Char × List Char)
  | [] => none
  | char :: rest =>
    let deeper :=
      if char = '<' || char = '(' then depth + 1
      else if char = '>' || char = ')' then depth - 1
      else depth
    match splitLastDotFrom? deeper rest with
    | some parts => some (char :: parts.1, parts.2)
    | none => if char = '.' && depth = 0 then some ([], rest) else none

/-- The parts of a text before and after its last dot outside of brackets. -/
def splitLastDot? (text : List Char) : Option (List Char × List Char) :=
  splitLastDotFrom? 0 text

/-! ### Parts are no longer than the whole -/

theorem length_dropEndWhile_le (test : Char → Bool) (text : List Char) :
    (dropEndWhile test text).length ≤ text.length := by
  have shorter := (text.reverse.dropWhile_sublist test).length_le
  simpa [dropEndWhile] using shorter

theorem length_trimStart_le (text : List Char) : (trimStart text).length ≤ text.length :=
  (text.dropWhile_sublist isBlank).length_le

theorem length_trim_le (text : List Char) : (trim text).length ≤ text.length :=
  Nat.le_trans (length_dropEndWhile_le isBlank (trimStart text)) (length_trimStart_le text)

theorem length_le_of_mem_extendFirst {char : Char} {pieces : List (List Char)} {bound : Nat}
    (bounded : ∀ piece ∈ pieces, piece.length ≤ bound) :
    ∀ piece ∈ extendFirst char pieces, piece.length ≤ bound + 1 := by
  intro piece member
  cases pieces with
  | nil =>
    simp only [extendFirst, List.mem_singleton] at member
    simp [member]
  | cons first others =>
    simp only [extendFirst, List.mem_cons] at member
    rcases member with same | member
    · have short := bounded first List.mem_cons_self
      simp only [same, List.length_cons]
      omega
    · have short := bounded piece (List.mem_cons_of_mem _ member)
      omega

theorem length_le_of_mem_piecesFrom (separator : Char) (text : List Char) :
    ∀ state, ∀ piece ∈ piecesFrom separator state text, piece.length ≤ text.length := by
  induction text with
  | nil =>
    intro state piece member
    simp only [piecesFrom, List.mem_singleton] at member
    simp [member]
  | cons char rest inductionHypothesis =>
    intro state piece member
    simp only [piecesFrom] at member
    split at member
    · simp only [List.mem_cons] at member
      rcases member with same | member
      · simp [same]
      · have short := inductionHypothesis _ _ member
        simp only [List.length_cons]
        omega
    · have short := length_le_of_mem_extendFirst
        (inductionHypothesis (state.next char)) piece member
      simpa using short

theorem length_le_of_mem_splitTopLevel {separator : Char} {text part : List Char}
    (member : part ∈ splitTopLevel separator text) : part.length ≤ text.length := by
  simp only [splitTopLevel, List.mem_filter, List.mem_map] at member
  obtain ⟨⟨piece, pieceMember, rfl⟩, -⟩ := member
  exact Nat.le_trans (length_trim_le piece)
    (length_le_of_mem_piecesFrom separator text _ _ pieceMember)

theorem length_of_splitArrowFrom? {text left right : List Char} :
    ∀ {depth previous}, splitArrowFrom? depth previous text = some (left, right) →
      left.length + right.length + 2 ≤ text.length := by
  induction text generalizing left with
  | nil => intro depth previous result; simp [splitArrowFrom?] at result
  | cons char rest inductionHypothesis =>
    intro depth previous result
    unfold splitArrowFrom? at result
    split at result
    case isTrue atArrow =>
      simp only [Option.some.injEq, Prod.mk.injEq] at result
      obtain ⟨rfl, rfl⟩ := result
      cases rest with
      | nil => simp at atArrow
      | cons tip tail => simp
    case isFalse =>
      simp only [Option.map_eq_some_iff, Prod.mk.injEq, Prod.exists] at result
      obtain ⟨inner, others, found, rfl, rfl⟩ := result
      have short := inductionHypothesis found
      simp only [List.length_cons]
      omega

theorem length_lt_of_afterParenthesis? {text rest : List Char} :
    ∀ {depth}, afterParenthesis? depth text = some rest → rest.length < text.length := by
  induction text with
  | nil => intro depth result; simp [afterParenthesis?] at result
  | cons char tail inductionHypothesis =>
    intro depth result
    unfold afterParenthesis? at result
    simp only [List.length_cons]
    split at result
    · have short := inductionHypothesis result
      omega
    · split at result
      · split at result
        · cases result
          omega
        · have short := inductionHypothesis result
          omega
      · have short := inductionHypothesis result
        omega

end SourceCapture.Text
