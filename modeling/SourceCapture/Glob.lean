/-
Patterns of paths. A question mark stands for one character, a star for any characters, a
class in brackets for one of its characters or for one outside it, and two stars that make
up a whole component stand for any folders. Slashes are characters like any other, except
that two stars end only where a component starts or the text ends.

A match is looked for from left to right, and each star is tried with as little as possible
first. When the text runs out under what follows a star, no earlier star can do better by
taking more, so the search ends there.
-/

namespace SourceCapture

/-- Why a text is no pattern. -/
inductive GlobError where
  /-- There are more than two stars in a row. -/
  | starsInARow
  /-- Two stars stand next to something other than a slash. -/
  | partOfComponent
  /-- A class is not closed, or has nothing in it. -/
  | openClass
  deriving Repr, DecidableEq, Inhabited

namespace GlobError

/-- The wording of the error. -/
def message : GlobError → String
  | .starsInARow => "wildcards are either regular \x60*\x60 or recursive \x60**\x60"
  | .partOfComponent => "recursive wildcards must form a single path component"
  | .openClass => "invalid range pattern"

end GlobError

/-- The characters from a first one to a last one. -/
structure CharRange where
  first : Char
  last : Char
  deriving Repr, DecidableEq, Inhabited

/-- Whether a character is in the range. -/
def CharRange.contains (range : CharRange) (char : Char) : Bool :=
  range.first ≤ char && char ≤ range.last

/-- The ranges of a class as it is written. A dash between two characters makes a range of
them, and every other character stands for itself. -/
def CharRange.listOfText : List Char → List CharRange
  | first :: '-' :: last :: rest => ⟨first, last⟩ :: listOfText rest
  | char :: rest => ⟨char, char⟩ :: listOfText rest
  | [] => []

/-- A part of a pattern. -/
inductive Wildcard where
  /-- This character. -/
  | char (char : Char)
  /-- Any one character. -/
  | anyChar
  /-- One character in the class. -/
  | within (ranges : List CharRange)
  /-- One character outside the class. -/
  | outside (ranges : List CharRange)
  /-- Any characters. -/
  | anyText
  /-- Any folders, with the slash after each, or all the rest. -/
  | anyFolders
  deriving Repr, DecidableEq, Inhabited

/-- A pattern of paths. -/
abbrev Glob := List Wildcard

namespace Glob

/-! ### Reading a pattern -/

/-- The class at the start of a text that follows an opening bracket, and what follows its
closing one. An exclamation mark makes it the class of all other characters. The first
character of a class does not close it. -/
def readClass? : List Char → Option (Wildcard × List Char)
  | '!' :: first :: rest =>
    if rest.contains ']' then
      some (.outside (CharRange.listOfText (first :: rest.takeWhile (· ≠ ']'))),
        (rest.dropWhile (· ≠ ']')).tail)
    else none
  | first :: rest =>
    if rest.contains ']' then
      some (.within (CharRange.listOfText (first :: rest.takeWhile (· ≠ ']'))),
        (rest.dropWhile (· ≠ ']')).tail)
    else none
  | [] => none

theorem length_tail_dropWhile_le (test : Char → Bool) (text : List Char) :
    (text.dropWhile test).tail.length ≤ text.length := by
  rw [List.length_tail]
  exact Nat.le_trans (Nat.sub_le _ _) (List.dropWhile_suffix test).length_le

/-- What follows a class is shorter than the text that the class starts. -/
theorem length_lt_of_readClass? {text rest : List Char} {wildcard : Wildcard}
    (read : readClass? text = some (wildcard, rest)) : rest.length < text.length := by
  unfold readClass? at read
  split at read
  case h_1 first after =>
    split at read
    · simp only [Option.some.injEq, Prod.mk.injEq] at read
      have short := length_tail_dropWhile_le (· ≠ ']') after
      rw [← read.2, List.length_cons, List.length_cons]
      omega
    · exact absurd read (by simp)
  case h_2 first after _ =>
    split at read
    · simp only [Option.some.injEq, Prod.mk.injEq] at read
      have short := length_tail_dropWhile_le (· ≠ ']') after
      rw [← read.2, List.length_cons]
      omega
    · exact absurd read (by simp)
  case h_3 => exact absurd read (by simp)

/-- Reads a pattern, or what is left of one. The flag says whether a component starts. -/
def parseFrom (componentStarts : Bool) (text : List Char) : Except GlobError Glob :=
  match text with
  | [] => .ok []
  | '?' :: rest => (parseFrom false rest).map (.anyChar :: ·)
  | '*' :: '*' :: '*' :: _ => .error .starsInARow
  | '*' :: '*' :: rest =>
    if componentStarts then
      match rest with
      | [] => .ok [.anyFolders]
      | '/' :: below => (parseFrom true below).map (.anyFolders :: ·)
      | _ => .error .partOfComponent
    else .error .partOfComponent
  | '*' :: rest => (parseFrom false rest).map (.anyText :: ·)
  | '[' :: rest =>
    match read : readClass? rest with
    | some (wildcard, after) =>
      have := length_lt_of_readClass? read
      (parseFrom false after).map (wildcard :: ·)
    | none => .error .openClass
  | char :: rest => (parseFrom (char = '/') rest).map (.char char :: ·)
termination_by text.length

/-- Reads a pattern. -/
def parse (text : List Char) : Except GlobError Glob := parseFrom true text

/-- The text that a pattern without wildcards stands for. -/
def literal? : Glob → Option (List Char)
  | [] => some []
  | .char char :: rest => (literal? rest).map (char :: ·)
  | _ => none

/-! ### Matching -/

/-- How matching a text against a pattern ends. -/
inductive Outcome where
  | matched
  /-- Something in the text does not fit. -/
  | mismatch
  /-- The text ends before the pattern does. -/
  | textEnded
  deriving Repr, DecidableEq, Inhabited

/-- Whether a character fits a part of a pattern that stands for one character. -/
def accepts : Wildcard → Char → Bool
  | .char expected, char => char = expected
  | .anyChar, _ => true
  | .within ranges, char => ranges.any (·.contains char)
  | .outside ranges, char => !ranges.any (·.contains char)
  | .anyText, _ => false
  | .anyFolders, _ => false

/-- Tries every text that is left after some characters, the longest first, until one does
not mismatch. -/
def tryRests (attempt : List Char → Outcome) : List Char → Outcome
  | [] => attempt []
  | char :: rest =>
    match attempt (char :: rest) with
    | .mismatch => tryRests attempt rest
    | ended => ended

/-- Tries every text that is left after a slash, the longest first, and at last the empty
one, until one does not mismatch. -/
def tryFolders (attempt : List Char → Outcome) : List Char → Outcome
  | [] => attempt []
  | '/' :: rest =>
    match attempt rest with
    | .mismatch => tryFolders attempt rest
    | ended => ended
  | _ :: rest => tryFolders attempt rest

/-- Matches a text against a pattern. -/
def run : Glob → List Char → Outcome
  | [], [] => .matched
  | [], _ :: _ => .mismatch
  | .anyText :: pattern, text => tryRests (run pattern) text
  | .anyFolders :: pattern, text =>
    match run pattern text with
    | .mismatch => tryFolders (run pattern) text
    | ended => ended
  | _ :: _, [] => .textEnded
  | wildcard :: pattern, char :: rest =>
    if accepts wildcard char then run pattern rest else .mismatch

/-- Whether the pattern matches the whole text. -/
def isMatch (pattern : Glob) (text : List Char) : Bool := run pattern text = .matched

end Glob

end SourceCapture
