/-
Texts of identifiers and other characters, with quotes around some of the identifiers. Whatever
looks for a character that is no part of an identifier finds it at the same place with the quotes
and without them. So both texts are cut into the same parts, and the parts are again texts of this
form.
-/

import Mathlib.Data.List.DropRight
import Mathlib.Data.List.Infix
import SourceCapture.Name
import SourceCapture.Proofs.Text.Lists
import SourceCapture.Proofs.Types.SourceTypes

namespace SourceCapture

/-! ### Characters of identifiers -/

namespace Text

/-- The characters of identifiers. -/
def isIdentifierChar (char : Char) : Bool := isAlphanumeric char || char = '_'

/-- The characters of identifiers in quotes, the quotes included. -/
def isInWord (char : Char) : Bool := isIdentifierChar char || char = Name.quote

variable {char other : Char}

theorem isNameChar_of_isIdentifierChar (inside : isIdentifierChar char = true) :
    isNameChar char = true := by
  rw [isNameChar, ← isIdentifierChar, inside, Bool.true_or]

theorem ne_quote_of_isIdentifierChar (inside : isIdentifierChar char = true) :
    char ≠ Name.quote :=
  ne_of_isNameChar (isNameChar_of_isIdentifierChar inside) (by decide)

theorem isInWord_of_isIdentifierChar (inside : isIdentifierChar char = true) :
    isInWord char = true := by
  rw [isInWord, inside, Bool.true_or]

theorem isInWord_quote : isInWord Name.quote = true := by decide

theorem ne_of_isInWord (inside : isInWord char = true) (outside : isInWord other = false) :
    char ≠ other := by
  rintro rfl
  rw [inside] at outside
  cases outside

theorem isOrdinary_of_isInWord (inside : isInWord char = true) : isOrdinary char = true :=
  isOrdinary_of_holds (show specials.any isInWord = false by decide) inside

theorem isBlank_of_isInWord (inside : isInWord char = true) : isBlank char = false := by
  rw [isInWord, Bool.or_eq_true, decide_eq_true_iff] at inside
  rcases inside with identifier | rfl
  · exact isBlank_of_isNameChar (isNameChar_of_isIdentifierChar identifier)
  · decide

end Text

open Text (isIdentifierChar isInWord isBlank dropEndWhile)

/-! ### Tokens -/

/-- An identifier. -/
structure Identifier where
  chars : List Char
  nonempty : chars ≠ []
  inside : ∀ char ∈ chars, isIdentifierChar char = true

/-- A character that is no part of an identifier, and no quote either. -/
structure Mark where
  char : Char
  outside : isInWord char = false

/-- A part of a text: an identifier, which can be in quotes, or another character. -/
inductive Token where
  | word (identifier : Identifier) (isQuoted : Bool)
  | between (mark : Mark)

namespace Token

/-- The token as it is written, or without its quotes. -/
def text (quotes : Bool) : Token → List Char
  | word identifier isQuoted =>
    if quotes && isQuoted then Name.quote :: (identifier.chars ++ [Name.quote])
    else identifier.chars
  | between mark => [mark.char]

/-- Tokens as they are written, or without their quotes. -/
def textOf (quotes : Bool) (tokens : List Token) : List Char := tokens.flatMap (text quotes)

variable {quotes isQuoted : Bool} {identifier : Identifier} {char : Char}
  {tokens rest front back : List Token}

@[simp] theorem textOf_nil (quotes : Bool) : textOf quotes [] = [] := rfl

@[simp] theorem textOf_cons (quotes : Bool) (token : Token) (rest : List Token) :
    textOf quotes (token :: rest) = token.text quotes ++ textOf quotes rest := rfl

@[simp] theorem textOf_append (quotes : Bool) (front back : List Token) :
    textOf quotes (front ++ back) = textOf quotes front ++ textOf quotes back :=
  List.flatMap_append

@[simp] theorem text_between (quotes : Bool) (mark : Mark) :
    (Token.between mark).text quotes = [mark.char] := rfl

theorem isInWord_of_mem_text (member : char ∈ (word identifier isQuoted).text quotes) :
    isInWord char = true := by
  have bare : ∀ char ∈ identifier.chars, isInWord char = true := fun char member =>
    Text.isInWord_of_isIdentifierChar (identifier.inside char member)
  rw [text] at member
  split at member
  · simp only [List.mem_cons, List.mem_append, List.not_mem_nil, or_false] at member
    rcases member with rfl | member | rfl
    · exact Text.isInWord_quote
    · exact bare char member
    · exact Text.isInWord_quote
  · exact bare char member

theorem text_nonempty (quotes : Bool) (token : Token) : token.text quotes ≠ [] := by
  cases token with
  | between => exact List.cons_ne_nil _ _
  | word identifier isQuoted =>
    rw [text]
    split
    · exact List.cons_ne_nil _ _
    · exact identifier.nonempty

theorem not_mem_text (outside : isInWord char = false) :
    char ∉ (word identifier isQuoted).text quotes := fun member =>
  Text.ne_of_isInWord (isInWord_of_mem_text member) outside rfl

theorem exists_text (quotes : Bool) (identifier : Identifier) (isQuoted : Bool) :
    ∃ first others, (word identifier isQuoted).text quotes = first :: others ∧
      isInWord first = true := by
  obtain ⟨first, others, same⟩ :=
    List.exists_cons_of_ne_nil (text_nonempty quotes (word identifier isQuoted))
  have member : first ∈ (word identifier isQuoted).text quotes := by
    rw [same]
    exact List.mem_cons_self
  exact ⟨first, others, same, isInWord_of_mem_text member⟩

theorem textOf_eq_nil_iff : textOf quotes tokens = [] ↔ tokens = [] := by
  refine ⟨fun empty => ?_, fun empty => congrArg (textOf quotes) empty⟩
  cases tokens with
  | nil => rfl
  | cons token rest => exact absurd (List.append_eq_nil_iff.mp empty).1 (text_nonempty quotes token)

/-- Without the quotes, nothing else is missing. -/
theorem textOf_false (tokens : List Token) :
    textOf false tokens = (textOf true tokens).filter (· ≠ Name.quote) := by
  have bare : ∀ identifier : Identifier,
      identifier.chars.filter (· ≠ Name.quote) = identifier.chars := fun identifier =>
    List.filter_eq_self.mpr fun char member =>
      decide_eq_true (Text.ne_quote_of_isIdentifierChar (identifier.inside char member))
  induction tokens with
  | nil => rfl
  | cons token rest inductionHypothesis =>
    rw [textOf_cons, textOf_cons, List.filter_append, inductionHypothesis]
    refine congrArg (· ++ _) ?_
    cases token with
    | between mark =>
      have other : mark.char ≠ Name.quote := fun same =>
        Text.ne_of_isInWord Text.isInWord_quote mark.outside same.symm
      rw [text_between, text_between, List.filter_singleton, decide_eq_true other]
      rfl
    | word identifier isQuoted =>
      cases isQuoted with
      | false => exact (bare identifier).symm
      | true =>
        have quote : [Name.quote].filter (· ≠ Name.quote) = [] := by decide
        show identifier.chars =
          ([Name.quote] ++ (identifier.chars ++ [Name.quote])).filter (· ≠ Name.quote)
        rw [List.filter_append, List.filter_append, quote, bare, List.append_nil]
        rfl

/-! ### Single characters -/

/-- A character that is no part of an identifier is first in a text if it is the first token. -/
theorem head?_textOf_iff (outside : isInWord char = false) :
    (textOf quotes tokens).head? = some char ↔
      ∃ mark rest, tokens = .between mark :: rest ∧ mark.char = char := by
  constructor
  · intro first
    cases tokens with
    | nil => cases first
    | cons token rest =>
      rw [textOf_cons, List.head?_append_of_ne_nil _ (text_nonempty quotes token)] at first
      cases token with
      | between mark => exact ⟨mark, rest, rfl, Option.some.inj first⟩
      | word => exact absurd (List.mem_of_mem_head? first) (not_mem_text outside)
  · rintro ⟨mark, rest, rfl, rfl⟩
    rfl

theorem getLast?_textOf_iff (outside : isInWord char = false) :
    (textOf quotes tokens).getLast? = some char ↔
      ∃ front mark, tokens = front ++ [.between mark] ∧ mark.char = char := by
  constructor
  · intro last
    rcases List.eq_nil_or_concat' tokens with rfl | ⟨front, token, rfl⟩
    · cases last
    · rw [textOf_append, textOf_cons, textOf_nil, List.append_nil,
        List.getLast?_append_of_ne_nil _ (text_nonempty quotes token)] at last
      cases token with
      | between mark => exact ⟨front, mark, rfl, Option.some.inj last⟩
      | word => exact absurd (List.mem_of_mem_getLast? last) (not_mem_text outside)
  · rintro ⟨front, mark, rfl, rfl⟩
    rw [textOf_append, textOf_cons, textOf_nil, text_between, List.append_nil, List.getLast?_concat]

theorem mem_textOf_iff (outside : isInWord char = false) :
    char ∈ textOf quotes tokens ↔ ∃ mark, .between mark ∈ tokens ∧ mark.char = char := by
  rw [textOf, List.mem_flatMap]
  constructor
  · rintro ⟨token, member, inside⟩
    cases token with
    | between mark => exact ⟨mark, member, (List.mem_singleton.mp inside).symm⟩
    | word => exact absurd inside (not_mem_text outside)
  · rintro ⟨mark, member, rfl⟩
    exact ⟨.between mark, member, List.mem_singleton_self _⟩

theorem textOf_eq_singleton_iff (outside : isInWord char = false) :
    textOf quotes tokens = [char] ↔ ∃ mark, tokens = [.between mark] ∧ mark.char = char := by
  constructor
  · intro single
    obtain ⟨mark, rest, rfl, same⟩ :=
      (head?_textOf_iff outside).mp (congrArg List.head? single)
    have empty : textOf quotes rest = [] := congrArg List.tail single
    rw [textOf_eq_nil_iff.mp empty]
    exact ⟨mark, rfl, same⟩
  · rintro ⟨mark, rfl, rfl⟩
    rfl

/-! ### Scans -/

/-- A test of characters as one of tokens, if it comes out the same for all parts of identifiers. -/
def holds (inWords : Bool) (test : Char → Bool) : Token → Bool
  | word _ _ => inWords
  | between mark => test mark.char

section

variable {test : Char → Bool} {inWords : Bool}
  (words : ∀ char, isInWord char = true → test char = inWords)

include words

theorem dropWhile_textOf (quotes : Bool) (tokens : List Token) :
    (textOf quotes tokens).dropWhile test = textOf quotes (tokens.dropWhile (holds inWords test)) := by
  induction tokens with
  | nil => rfl
  | cons token rest inductionHypothesis =>
    cases token with
    | between mark =>
      rw [textOf_cons, text_between, List.singleton_append, List.dropWhile_cons, List.dropWhile_cons,
        inductionHypothesis]
      show _ = textOf quotes (if test mark.char = true then _ else _)
      split <;> rfl
    | word identifier isQuoted =>
      cases inWords with
      | true =>
        rw [textOf_cons, List.dropWhile_append_of_pos fun char member =>
            words char (isInWord_of_mem_text member), inductionHypothesis,
          List.dropWhile_cons_of_pos rfl]
      | false =>
        obtain ⟨first, others, same, inside⟩ := exists_text quotes identifier isQuoted
        rw [textOf_cons, same, List.cons_append, List.dropWhile_cons_of_neg (by simp [words, inside]),
          List.dropWhile_cons_of_neg (by simp [holds]), textOf_cons, same]
        rfl

theorem takeWhile_textOf (quotes : Bool) (tokens : List Token) :
    (textOf quotes tokens).takeWhile test = textOf quotes (tokens.takeWhile (holds inWords test)) := by
  have whole : textOf quotes (tokens.takeWhile (holds inWords test)) ++
      textOf quotes (tokens.dropWhile (holds inWords test)) = textOf quotes tokens := by
    rw [← textOf_append, List.takeWhile_append_dropWhile]
  have split := List.takeWhile_append_dropWhile (p := test) (l := textOf quotes tokens)
  rw [dropWhile_textOf words, ← whole] at split
  rw [← whole]
  exact List.append_cancel_right split

theorem dropEndWhile_textOf (outside : inWords = false) (quotes : Bool) (tokens : List Token) :
    dropEndWhile test (textOf quotes tokens) =
      textOf quotes (tokens.rdropWhile (holds inWords test)) := by
  subst outside
  induction tokens using List.reverseRecOn with
  | nil => rfl
  | append_singleton front token inductionHypothesis =>
    rw [textOf_append, textOf_cons, textOf_nil, List.append_nil]
    by_cases dropped : holds false test token = true
    · rw [List.rdropWhile_concat_pos _ _ _ dropped, ← inductionHypothesis]
      cases token with
      | word => cases dropped
      | between mark =>
        rw [text_between, dropEndWhile, List.reverse_concat, List.dropWhile_cons_of_pos (show test mark.char = true from dropped)]
        rfl
    · rw [List.rdropWhile_concat_neg _ _ _ dropped, textOf_append, textOf_cons, textOf_nil,
        List.append_nil]
      obtain ⟨others, last, same⟩ :=
        (List.eq_nil_or_concat' (token.text quotes)).resolve_left (text_nonempty quotes token)
      have stays : test last = false := by
        have member : last ∈ token.text quotes := same ▸ List.mem_concat_self
        cases token with
        | word => exact words last (isInWord_of_mem_text member)
        | between mark =>
          rw [List.mem_singleton.mp member]
          exact Bool.eq_false_iff.mpr dropped
      rw [same, ← List.append_assoc, Text.dropEndWhile_append_cons stays]
      rfl

end

/-- The tokens without the white space at the ends. -/
def trim (tokens : List Token) : List Token :=
  (tokens.dropWhile (holds false isBlank)).rdropWhile (holds false isBlank)

theorem trim_textOf (quotes : Bool) (tokens : List Token) :
    Text.trim (textOf quotes tokens) = textOf quotes (trim tokens) := by
  have words : ∀ char, isInWord char = true → isBlank char = false :=
    fun _ => Text.isBlank_of_isInWord
  rw [Text.trim, Text.trimEnd, Text.trimStart, dropWhile_textOf words,
    dropEndWhile_textOf words rfl]
  rfl

theorem trim_isInfix (tokens : List Token) : trim tokens <:+: tokens :=
  (List.rdropWhile_prefix _ _).isInfix.trans (List.dropWhile_suffix _).isInfix

theorem removeBlanks_textOf (quotes : Bool) (tokens : List Token) :
    Text.removeBlanks (textOf quotes tokens) =
      textOf quotes (tokens.filter (holds true (!isBlank ·))) := by
  induction tokens with
  | nil => rfl
  | cons token rest inductionHypothesis =>
    rw [Text.removeBlanks] at inductionHypothesis ⊢
    rw [textOf_cons, List.filter_append, inductionHypothesis, List.filter_cons]
    cases token with
    | word identifier isQuoted =>
      have stays : ((word identifier isQuoted).text quotes).filter (!isBlank ·) =
          (word identifier isQuoted).text quotes := by
        refine List.filter_eq_self.mpr fun char member => ?_
        rw [Text.isBlank_of_isInWord (isInWord_of_mem_text member)]
        rfl
      rw [stays]
      rfl
    | between mark =>
      have stays : holds true (!isBlank ·) (.between mark) = !isBlank mark.char := rfl
      rw [text_between, List.filter_singleton, stays]
      cases isBlank mark.char <;> rfl

/-! ### Pieces around a token -/

/-- What is between the first and the last character, if these are no parts of identifiers. -/
theorem tail_dropLast_textOf {mark : Mark} (first : tokens = .between mark :: rest)
    (last : ∃ front mark, tokens = front ++ [.between mark]) (quotes : Bool) :
    (textOf quotes tokens).tail.dropLast = textOf quotes rest.dropLast := by
  obtain ⟨front, closing, same⟩ := last
  subst first
  rw [textOf_cons, text_between, List.singleton_append, List.tail_cons]
  rcases List.eq_nil_or_concat' rest with rfl | ⟨inner, token, rfl⟩
  · rfl
  · have isLast : token = .between closing := by
      rw [← List.cons_append] at same
      exact List.singleton_inj.mp (List.append_inj_right' same rfl)
    rw [isLast, List.dropLast_concat, textOf_append, textOf_cons, textOf_nil, text_between,
      List.append_nil, List.dropLast_concat]

theorem stripStart?_textOf (outside : isInWord char = false) (tokens : List Token) :
    ∃ result : Option (List Token), (∀ part ∈ result, part <:+ tokens) ∧ ∀ quotes,
      Text.stripStart? [char] (textOf quotes tokens) = result.map (textOf quotes) := by
  by_cases first : ∃ mark rest, tokens = .between mark :: rest ∧ mark.char = char
  · obtain ⟨mark, rest, rfl, rfl⟩ := first
    refine ⟨some rest, ?_, fun quotes => Text.stripStart?_eq_some.mpr rfl⟩
    rintro _ ⟨⟩
    exact List.suffix_cons _ _
  · refine ⟨none, nofun, fun quotes => Option.eq_none_iff_forall_ne_some.mpr fun part found => ?_⟩
    rw [Text.stripStart?_eq_some] at found
    exact first ((head?_textOf_iff outside).mp (congrArg List.head? found))

theorem stripEnd?_textOf (outside : isInWord char = false) (tokens : List Token) :
    ∃ result : Option (List Token), (∀ part ∈ result, part <+: tokens) ∧ ∀ quotes,
      Text.stripEnd? [char] (textOf quotes tokens) = result.map (textOf quotes) := by
  by_cases last : ∃ front mark, tokens = front ++ [.between mark] ∧ mark.char = char
  · obtain ⟨front, mark, rfl, rfl⟩ := last
    refine ⟨some front, ?_, fun quotes => Text.stripEnd?_eq_some.mpr ?_⟩
    · rintro _ ⟨⟩
      exact List.prefix_append _ _
    · rw [textOf_append]
      rfl
  · refine ⟨none, nofun, fun quotes => Option.eq_none_iff_forall_ne_some.mpr fun part found => ?_⟩
    rw [Text.stripEnd?_eq_some] at found
    have ends : (textOf quotes tokens).getLast? = some char := by
      rw [found, List.getLast?_concat]
    exact last ((getLast?_textOf_iff outside).mp ends)

theorem stripBoth?_textOf {opening closing : Char} (opens : isInWord opening = false)
    (closes : isInWord closing = false) (tokens : List Token) :
    ∃ result : Option (List Token), (∀ part ∈ result, part <:+: tokens) ∧ ∀ quotes,
      Text.stripBoth? [opening] [closing] (textOf quotes tokens) = result.map (textOf quotes) := by
  obtain ⟨front?, inFront, started⟩ := stripStart?_textOf opens tokens
  cases front? with
  | none => exact ⟨none, nofun, fun quotes => by rw [Text.stripBoth?, started]; rfl⟩
  | some rest =>
    obtain ⟨result, inside, ended⟩ := stripEnd?_textOf closes rest
    refine ⟨result, fun part member =>
      (inside part member).isInfix.trans (inFront rest rfl).isInfix, fun quotes => ?_⟩
    rw [Text.stripBoth?, started, Option.map_some, Option.bind_some, ended]

/-! ### Parentheses and arrows -/

theorem afterParenthesis?_append {text : List Char} (opening : '(' ∉ text) (closing : ')' ∉ text)
    (depth : Nat) (rest : List Char) :
    Text.afterParenthesis? depth (text ++ rest) = Text.afterParenthesis? depth rest := by
  induction text with
  | nil => rfl
  | cons char text inductionHypothesis =>
    rw [List.mem_cons, not_or] at opening closing
    rw [List.cons_append, Text.afterParenthesis?, if_neg (Ne.symm opening.1),
      if_neg (Ne.symm closing.1), inductionHypothesis opening.2 closing.2]

theorem afterParenthesis?_textOf (depth : Nat) (tokens : List Token) :
    ∃ result : Option (List Token), (∀ part ∈ result, part <:+ tokens) ∧ ∀ quotes,
      Text.afterParenthesis? depth (textOf quotes tokens) = result.map (textOf quotes) := by
  induction tokens generalizing depth with
  | nil => exact ⟨none, nofun, fun _ => rfl⟩
  | cons token rest inductionHypothesis =>
    have later (deeper : Nat) (passed : ∀ quotes,
        Text.afterParenthesis? depth (textOf quotes (token :: rest)) =
          Text.afterParenthesis? deeper (textOf quotes rest)) :
        ∃ result : Option (List Token), (∀ part ∈ result, part <:+ token :: rest) ∧ ∀ quotes,
          Text.afterParenthesis? depth (textOf quotes (token :: rest)) =
            result.map (textOf quotes) := by
      obtain ⟨result, inside, found⟩ := inductionHypothesis deeper
      exact ⟨result, fun part member => (inside part member).trans (List.suffix_cons _ _),
        fun quotes => (passed quotes).trans (found quotes)⟩
    cases token with
    | word identifier isQuoted =>
      exact later depth fun quotes => afterParenthesis?_append (not_mem_text (by decide))
        (not_mem_text (by decide)) depth (textOf quotes rest)
    | between mark =>
      by_cases opening : mark.char = '('
      · refine later (depth + 1) fun quotes => ?_
        rw [textOf_cons, text_between, List.singleton_append, Text.afterParenthesis?,
          if_pos opening]
      by_cases closing : mark.char = ')'
      · by_cases last : depth ≤ 1
        · refine ⟨some rest, ?_, fun quotes => ?_⟩
          · rintro _ ⟨⟩
            exact List.suffix_cons _ _
          · rw [textOf_cons, text_between, List.singleton_append, Text.afterParenthesis?,
              if_neg opening, if_pos closing, if_pos last]
            rfl
        · refine later (depth - 1) fun quotes => ?_
          rw [textOf_cons, text_between, List.singleton_append, Text.afterParenthesis?,
            if_neg opening, if_pos closing, if_neg last]
      · refine later depth fun quotes => ?_
        rw [textOf_cons, text_between, List.singleton_append, Text.afterParenthesis?,
          if_neg opening, if_neg closing]

theorem skipsTo_text (depth : Int) (previous : Option Char) (quotes : Bool)
    (identifier : Identifier) (isQuoted : Bool) :
    Text.SkipsTo depth previous ((word identifier isQuoted).text quotes) depth := by
  have ordinary {text : List Char} (inside : ∀ char ∈ text, isInWord char = true) :
      ∀ previous, previous ≠ some '-' → Text.SkipsTo depth previous text depth := by
    induction text with
    | nil => exact fun _ => Text.SkipsTo.nil
    | cons char text inductionHypothesis =>
      rw [List.forall_mem_cons] at inside
      refine fun _ _ => .ordinary (Text.isOrdinary_of_isInWord inside.1)
        (inductionHypothesis inside.2 _ fun same => ?_)
      exact Text.ne_of_isInWord inside.1 (by decide) (Option.some.inj same)
  obtain ⟨first, others, same, firstInside⟩ := exists_text quotes identifier isQuoted
  have inside : ∀ char ∈ others, isInWord char = true := fun char member =>
    isInWord_of_mem_text (same ▸ List.mem_cons_of_mem first member)
  rw [same]
  exact .ordinary (Text.isOrdinary_of_isInWord firstInside) (ordinary inside _ fun arrow =>
    Text.ne_of_isInWord firstInside (by decide) (Option.some.inj arrow))

/-- Whether the outermost arrow is found at one place in tokens, with quotes and without them. Of the
character in front of the tokens it only counts whether it is the first half of an arrow. -/
def SplitsArrow (depth : Int) (halfArrow : Bool) (tokens : List Token) : Prop :=
  ∃ result : Option (List Token × List Token),
    (∀ parts ∈ result, parts.1 <+: tokens ∧ parts.2 <:+ tokens) ∧
    ∀ quotes previous, decide (previous = some '-') = halfArrow →
      Text.splitArrowFrom? depth previous (textOf quotes tokens) =
        result.map (Prod.map (textOf quotes) (textOf quotes))

namespace SplitsArrow

variable {depth deeper : Int} {halfArrow half : Bool} {token : Token} {mark tip : Mark}

/-- Behind a token that is passed over the arrow is where it is in the other tokens. -/
theorem cons (splits : SplitsArrow deeper half rest)
    (passed : ∀ quotes previous, decide (previous = some '-') = halfArrow →
      ∃ last, decide (last = some '-') = half ∧
        Text.splitArrowFrom? depth previous (textOf quotes (token :: rest)) =
          (Text.splitArrowFrom? deeper last (textOf quotes rest)).map
            fun parts => (token.text quotes ++ parts.1, parts.2)) :
    SplitsArrow depth halfArrow (token :: rest) := by
  obtain ⟨result, inside, found⟩ := splits
  refine ⟨result.map fun parts => (token :: parts.1, parts.2), ?_, fun quotes previous same => ?_⟩
  · rintro _ member
    obtain ⟨parts, inner, rfl⟩ := Option.map_eq_some_iff.mp member
    obtain ⟨front, back⟩ := inside parts inner
    exact ⟨List.cons_prefix_cons.mpr ⟨rfl, front⟩, back.trans (List.suffix_cons _ _)⟩
  · obtain ⟨last, ends, step⟩ := passed quotes previous same
    rw [step, found quotes last ends, Option.map_map, Option.map_map]
    rfl

theorem arrow (dash : mark.char = '-') (isTip : tip.char = '>') :
    SplitsArrow 0 halfArrow (.between mark :: .between tip :: rest) := by
  refine ⟨some ([], rest), ?_, fun quotes previous _ => ?_⟩
  · rintro _ ⟨⟩
    exact ⟨List.nil_prefix, (List.suffix_cons _ _).trans (List.suffix_cons _ _)⟩
  · rw [textOf_cons, text_between, List.singleton_append, Text.splitArrowFrom?, if_pos]
    · rfl
    · simp [dash, isTip]

theorem word {identifier : Identifier} {isQuoted : Bool} (splits : SplitsArrow depth false rest) :
    SplitsArrow depth halfArrow (.word identifier isQuoted :: rest) := by
  refine splits.cons fun quotes previous _ => ?_
  obtain ⟨last, other, step⟩ := skipsTo_text depth previous quotes identifier isQuoted
  exact ⟨last, decide_eq_false other, step (textOf quotes rest)⟩

theorem between (noArrow : ¬((mark.char = '-' ∧ depth = 0) ∧
      ∃ tip inner, rest = .between tip :: inner ∧ tip.char = '>'))
    (splits : ∀ deeper half, SplitsArrow deeper half rest) :
    SplitsArrow depth halfArrow (.between mark :: rest) := by
  let deeper :=
    if mark.char = '(' || mark.char = '[' || mark.char = '<' then depth + 1
    else if mark.char = '>' && halfArrow then depth
    else if mark.char = ')' || mark.char = ']' || mark.char = '>' then depth - 1
    else depth
  refine (splits deeper (decide (mark.char = '-'))).cons fun quotes previous same => ?_
  refine ⟨some mark.char, by simp, ?_⟩
  have passed : ¬((decide (mark.char = '-') && decide (depth = 0) &&
      decide ((textOf quotes rest).head? = some '>')) = true) := by
    rw [Bool.and_eq_true, Bool.and_eq_true, decide_eq_true_iff, decide_eq_true_iff,
      decide_eq_true_iff, head?_textOf_iff (by decide)]
    exact noArrow
  rw [textOf_cons, text_between, List.singleton_append, Text.splitArrowFrom?, if_neg passed, same]
  rfl

end SplitsArrow

theorem splitsArrow (depth : Int) (halfArrow : Bool) (tokens : List Token) :
    SplitsArrow depth halfArrow tokens := by
  induction tokens generalizing depth halfArrow with
  | nil => exact ⟨none, nofun, fun _ _ _ => rfl⟩
  | cons token rest inductionHypothesis =>
    cases token with
    | word identifier isQuoted => exact .word (inductionHypothesis depth false)
    | between mark =>
      by_cases arrow : (mark.char = '-' ∧ depth = 0) ∧
          ∃ tip inner, rest = .between tip :: inner ∧ tip.char = '>'
      · obtain ⟨⟨dash, rfl⟩, tip, inner, rfl, isTip⟩ := arrow
        exact .arrow dash isTip
      · exact .between arrow inductionHypothesis

/-! ### Pairs of characters -/

theorem splitOnce?_append {first : Char} {text : List Char} (absent : first ∉ text)
    (piece rest : List Char) :
    Text.splitOnce? (first :: piece) (text ++ rest) =
      (Text.splitOnce? (first :: piece) rest).map fun parts => (text ++ parts.1, parts.2) := by
  induction text with
  | nil => exact Option.map_id'.symm
  | cons char text inductionHypothesis =>
    rw [List.mem_cons, not_or] at absent
    rw [List.cons_append, Text.splitOnce?, Text.stripStart?, if_neg (Ne.symm absent.1),
      inductionHypothesis absent.2]
    dsimp only
    rw [Option.map_map]
    rfl

/-- Whether the first place where two characters stand one behind the other is at one place in
tokens, with quotes and without them. -/
def SplitsOnce (first second : Char) (tokens : List Token) : Prop :=
  (∀ quotes, Text.splitOnce? [first, second] (textOf quotes tokens) = none) ∨
    ∃ front mark next back, tokens = front ++ .between mark :: .between next :: back ∧
      mark.char = first ∧ next.char = second ∧
      ∀ quotes, Text.splitOnce? [first, second] (textOf quotes tokens) =
        some (textOf quotes front, textOf quotes back)

/-- Behind a token that is passed over the place is the one in the other tokens. -/
theorem SplitsOnce.cons {first second : Char} {token : Token}
    (splits : SplitsOnce first second rest)
    (passed : ∀ quotes, Text.splitOnce? [first, second] (textOf quotes (token :: rest)) =
      (Text.splitOnce? [first, second] (textOf quotes rest)).map
        fun parts => (token.text quotes ++ parts.1, parts.2)) :
    SplitsOnce first second (token :: rest) := by
  rcases splits with none | ⟨front, mark, next, back, rfl, isFirst, isSecond, found⟩
  · refine .inl fun quotes => ?_
    rw [passed, none]
    rfl
  · refine .inr ⟨token :: front, mark, next, back, rfl, isFirst, isSecond, fun quotes => ?_⟩
    rw [passed, found]
    rfl

/-- Two characters, one behind the other, that are no parts of identifiers. -/
theorem splitsOnce {first second : Char} (firstOutside : isInWord first = false)
    (secondOutside : isInWord second = false) (tokens : List Token) :
    SplitsOnce first second tokens := by
  induction tokens with
  | nil => exact .inl fun _ => rfl
  | cons token rest inductionHypothesis =>
    cases token with
    | word identifier isQuoted =>
      exact inductionHypothesis.cons fun quotes =>
        splitOnce?_append (not_mem_text firstOutside) _ _
    | between mark =>
      by_cases here : mark.char = first ∧ ∃ next back, rest = .between next :: back ∧
          next.char = second
      · obtain ⟨isFirst, next, back, rfl, isSecond⟩ := here
        refine .inr ⟨[], mark, next, back, rfl, isFirst, isSecond, fun quotes => ?_⟩
        have starts : Text.stripStart? [first, second]
            (mark.char :: textOf quotes (.between next :: back)) = some (textOf quotes back) := by
          rw [Text.stripStart?_eq_some, isFirst, textOf_cons, text_between, isSecond]
          rfl
        rw [textOf_cons, text_between, List.singleton_append, Text.splitOnce?, starts]
        rfl
      · refine inductionHypothesis.cons fun quotes => ?_
        have stays : Text.stripStart? [first, second] (mark.char :: textOf quotes rest) = none := by
          refine Option.eq_none_iff_forall_ne_some.mpr fun part found => here ?_
          obtain ⟨isFirst, starts⟩ := List.cons.inj (Text.stripStart?_eq_some.mp found)
          exact ⟨isFirst, (head?_textOf_iff secondOutside).mp (congrArg List.head? starts)⟩
        rw [textOf_cons, text_between, List.singleton_append, Text.splitOnce?, stays]
        rfl

end Token

/-! ### Parts between separators -/

namespace Text.Nesting

variable {state other : Nesting} {char : Char} {text : List Char}

/-- What is known after a part of an identifier, but for which one it is. -/
def afterWord (state : Nesting) : Nesting :=
  { state with isEscaped := state.isEscaped && !state.isQuoted, previous := none }

theorem alike_next_of_isInWord (alike : state.Alike other) (inside : isInWord char = true) :
    state.afterWord.Alike (other.next char) := by
  obtain ⟨depth, quoted, escaped, previous⟩ := state
  obtain ⟨otherDepth, otherQuoted, otherEscaped, otherPrevious⟩ := other
  obtain ⟨rfl, rfl, rfl, -⟩ := alike
  have ordinary := isOrdinary_of_isInWord inside
  have apart := And.intro (ne_of_isInWord inside (show isInWord '\\' = false by decide))
    (ne_of_isInWord inside (show isInWord '-' = false by decide))
  simp only [isOrdinary, Bool.not_eq_true', Bool.or_eq_false_iff, decide_eq_false_iff_not]
    at ordinary
  cases quoted <;> cases escaped <;> simp [next, afterWord, ordinary, apart] <;>
    exact ⟨rfl, rfl, rfl, by simp [apart]⟩

theorem afterWord_afterWord (state : Nesting) : state.afterWord.afterWord = state.afterWord := by
  obtain ⟨depth, quoted, escaped, previous⟩ := state
  cases quoted <;> cases escaped <;> rfl

theorem alike_after_of_isInWord (alike : state.Alike other) (nonempty : text ≠ [])
    (inside : ∀ char ∈ text, isInWord char = true) : state.afterWord.Alike (other.after text) := by
  induction text generalizing state other with
  | nil => exact absurd rfl nonempty
  | cons char rest inductionHypothesis =>
    rw [List.forall_mem_cons] at inside
    have step := alike_next_of_isInWord alike inside.1
    cases rest with
    | nil => exact step
    | cons next rest =>
      rw [← afterWord_afterWord]
      exact inductionHypothesis step (List.cons_ne_nil _ _) inside.2

end Text.Nesting

namespace Token

theorem walks_text {separator : Char} (outside : isInWord separator = false) {text : List Char}
    (inside : ∀ char ∈ text, isInWord char = true) (state : Text.Nesting) :
    Text.Walks separator state text (state.after text) := by
  induction text generalizing state with
  | nil => exact .nil separator state
  | cons char rest inductionHypothesis =>
    rw [List.forall_mem_cons] at inside
    refine .cons ?_ (inductionHypothesis inside.2 _)
    simp [Text.Nesting.separates, Text.ne_of_isInWord inside.1 outside]

theorem piecesFrom_textOf {separator : Char} (outside : isInWord separator = false)
    (state : Text.Nesting) (tokens : List Token) :
    ∃ first others, first <+: tokens ∧ (∀ piece ∈ others, piece <:+: tokens) ∧
      ∀ quotes (other : Text.Nesting), state.Alike other →
        Text.piecesFrom separator other (textOf quotes tokens) =
          (first :: others).map (textOf quotes) := by
  induction tokens generalizing state with
  | nil => exact ⟨[], [], List.nil_prefix, nofun, fun _ _ _ => rfl⟩
  | cons token rest inductionHypothesis =>
    have extended {first : List Token} {others : List (List Token)} (front : first <+: rest)
        (inside : ∀ piece ∈ others, piece <:+: rest) :
        token :: first <+: token :: rest ∧ ∀ piece ∈ others, piece <:+: token :: rest :=
      ⟨List.cons_prefix_cons.mpr ⟨rfl, front⟩, fun piece member =>
        (inside piece member).trans (List.suffix_cons _ _).isInfix⟩
    cases token with
    | word identifier isQuoted =>
      obtain ⟨first, others, front, inside, found⟩ := inductionHypothesis state.afterWord
      obtain ⟨longer, further⟩ := extended front inside
      refine ⟨_ :: first, others, longer, further, fun quotes other alike => ?_⟩
      have inWord : ∀ char ∈ (word identifier isQuoted).text quotes, isInWord char = true :=
        fun _ => isInWord_of_mem_text
      have after := Text.Nesting.alike_after_of_isInWord alike (text_nonempty quotes _) inWord
      rw [textOf_cons, walks_text outside inWord other, found quotes _ after, List.map_cons,
        Text.foldr_extendFirst]
      rfl
    | between mark =>
      obtain ⟨first, others, front, inside, found⟩ := inductionHypothesis (state.next mark.char)
      obtain ⟨longer, further⟩ := extended front inside
      by_cases separates : state.separates separator mark.char = true
      · refine ⟨[], first :: others, List.nil_prefix, ?_, fun quotes other alike => ?_⟩
        · rw [List.forall_mem_cons]
          exact ⟨front.isInfix.trans (List.suffix_cons _ _).isInfix, further⟩
        · rw [textOf_cons, text_between, List.singleton_append, Text.piecesFrom,
            ← alike.separates, if_pos separates, found quotes _ (alike.next mark.char)]
          rfl
      · refine ⟨_ :: first, others, longer, further, fun quotes other alike => ?_⟩
        rw [textOf_cons, text_between, List.singleton_append, Text.piecesFrom,
          ← alike.separates, if_neg separates, found quotes _ (alike.next mark.char)]
        rfl

theorem splitTopLevel_textOf {separator : Char} (outside : isInWord separator = false)
    (tokens : List Token) :
    ∃ parts : List (List Token), (∀ part ∈ parts, part <:+: tokens) ∧ ∀ quotes,
      Text.splitTopLevel separator (textOf quotes tokens) = parts.map (textOf quotes) := by
  obtain ⟨first, others, front, inside, found⟩ := piecesFrom_textOf outside {} tokens
  refine ⟨((first :: others).map trim).filter (!·.isEmpty), fun part member => ?_, fun quotes => ?_⟩
  · obtain ⟨piece, pieceMember, rfl⟩ := List.mem_map.mp (List.mem_of_mem_filter member)
    refine (trim_isInfix piece).trans ?_
    rcases List.mem_cons.mp pieceMember with rfl | other
    · exact front.isInfix
    · exact inside piece other
  · have empty : ∀ part, (textOf quotes part).isEmpty = part.isEmpty := fun part => by
      rw [Bool.eq_iff_iff, List.isEmpty_iff, List.isEmpty_iff, textOf_eq_nil_iff]
    have trimmed : Text.trim ∘ textOf quotes = textOf quotes ∘ trim :=
      funext (trim_textOf quotes)
    have alike : Text.Nesting.Alike {} {} := ⟨rfl, rfl, rfl, Iff.rfl⟩
    rw [Text.splitTopLevel, found quotes {} alike, List.map_map, trimmed, ← List.map_map,
      List.filter_map]
    refine congrArg (List.map _) (List.filter_congr fun part _ => ?_)
    rw [Function.comp_apply, empty]

end Token

end SourceCapture
