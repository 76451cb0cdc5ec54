/-
Types with quotes around some of the identifiers in them. Every cut that reading a type makes is at
a character that is no part of an identifier, so the type is taken apart in the same way with the
quotes and without them. But the quotes stay on the names of classes, which are looked up with them.
So a type means the same with the quotes exactly if no class in it is quoted.
-/

import SourceCapture.Proofs.Text.Tokens
import SourceCapture.Proofs.Types.Meaning

namespace SourceCapture

open Text (isIdentifierChar isInWord isBlank isNoteChar)

/-! ### Quotes around names -/

namespace Token

def isWord : Token → Bool
  | word _ _ => true
  | between _ => false

/-- Whether the token is an identifier in quotes. -/
def isQuoted : Token → Bool
  | word _ isQuoted => isQuoted
  | between _ => false

/-- The words that mean something in a type. -/
def keywords : List (List Char) := ["in".toList, "out".toList, "suspend".toList]

/-- Whether the identifiers of a text could be in quotes or not: they are apart from each other, and
none in quotes is a word with a meaning of its own or belongs to an annotation. -/
structure QuotesNames (tokens : List Token) : Prop where
  apart : ∀ first second : Token, [first, second] <:+: tokens → first.isWord = true →
    second.isWord = false
  keywords : ∀ identifier : Identifier, word identifier true ∈ tokens →
    identifier.chars ∉ keywords
  notes : ∀ mark name, mark.char = '@' → between mark :: name <:+: tokens →
    (∀ token ∈ name, token.holds true isNoteChar = true) → ∀ token ∈ name, token.isQuoted = false

variable {tokens part rest : List Token} {identifier : Identifier}

theorem QuotesNames.of_isInfix (quotes : QuotesNames tokens) (inside : part <:+: tokens) :
    QuotesNames part where
  apart first second pair := quotes.apart first second (pair.trans inside)
  keywords identifier member := quotes.keywords identifier (inside.subset member)
  notes mark name note start := quotes.notes mark name note (start.trans inside)

/-! ### Words with a meaning of their own -/

theorem isIdentifierChar_of_mem_keyword {keyword : List Char} (isKeyword : keyword ∈ keywords) :
    ∀ char ∈ keyword, isIdentifierChar char = true := by
  have all : (keywords.all (·.all isIdentifierChar)) = true := by decide
  exact List.all_eq_true.mp (List.all_eq_true.mp all keyword isKeyword)

theorem keyword_nonempty {keyword : List Char} (isKeyword : keyword ∈ keywords) : keyword ≠ [] := by
  have all : ∀ keyword ∈ keywords, keyword ≠ [] := by decide
  exact all keyword isKeyword

/-- An identifier ends at the first character that is no part of one. -/
theorem chars_eq_of_append {quotes : Bool} {word after : List Char} {char : Char}
    (apart : ∀ token ∈ rest.head?, token.isWord = false)
    (inside : ∀ char ∈ word, isIdentifierChar char = true) (outside : isInWord char = false)
    (same : identifier.chars ++ textOf quotes rest = word ++ char :: after) :
    identifier.chars = word ∧ ∃ mark back, rest = between mark :: back ∧ mark.char = char := by
  rcases List.append_eq_append_iff.mp same with ⟨more, longer, others⟩ | ⟨more, longer, others⟩
  · cases more with
    | nil =>
      rw [List.append_nil] at longer
      exact ⟨longer.symm, (head?_textOf_iff outside).mp (congrArg List.head? others)⟩
    | cons first more =>
      have firstInside : isIdentifierChar first = true := inside first (by simp [longer])
      cases rest with
      | nil => cases others
      | cons token rest =>
        cases token with
        | word => cases apart _ rfl
        | between mark =>
          have next : mark.char = first := (List.cons.inj others).1
          have inWord := mark.outside
          rw [next, Text.isInWord_of_isIdentifierChar firstInside] at inWord
          cases inWord
  · cases more with
    | nil =>
      rw [List.append_nil] at longer
      exact ⟨longer, (head?_textOf_iff outside).mp (congrArg List.head? others.symm)⟩
    | cons first more =>
      have isChar : char = first := (List.cons.inj others).1
      have firstInside := identifier.inside first (by simp [longer])
      rw [isChar, Text.isInWord_of_isIdentifierChar firstInside] at outside
      cases outside

/-- A keyword in front of white space is a word of its own, and not in quotes. -/
theorem exists_of_keyword (names : QuotesNames tokens) {keyword : List Char}
    (isKeyword : keyword ∈ keywords) {quotes : Bool} {char : Char} {after : List Char}
    (outside : isInWord char = false) (starts : textOf quotes tokens = keyword ++ char :: after) :
    ∃ identifier mark rest, tokens = word identifier false :: between mark :: rest ∧
      identifier.chars = keyword ∧ mark.char = char := by
  have inside := isIdentifierChar_of_mem_keyword isKeyword
  obtain ⟨first, others, spelled⟩ := List.exists_cons_of_ne_nil (keyword_nonempty isKeyword)
  have firstInside : isIdentifierChar first = true := inside first (spelled ▸ List.mem_cons_self)
  have begins : (textOf quotes tokens).head? = some first := by
    rw [starts, spelled]
    rfl
  cases tokens with
  | nil => cases begins
  | cons token rest =>
    cases token with
    | between mark =>
      have inWord := mark.outside
      rw [Option.some.inj (begins : some mark.char = some first),
        Text.isInWord_of_isIdentifierChar firstInside] at inWord
      cases inWord
    | word identifier isQuoted =>
      have bare : (word identifier isQuoted).text quotes = identifier.chars := by
        rw [text]
        split
        case isTrue shown =>
          rw [textOf_cons, text, if_pos shown] at begins
          have quote : Name.quote = first := Option.some.inj begins
          exact absurd quote.symm (Text.ne_quote_of_isIdentifierChar firstInside)
        case isFalse => rfl
      have apart : ∀ token ∈ rest.head?, token.isWord = false := by
        intro token member
        obtain ⟨back, rfl⟩ := List.head?_eq_some_iff.mp member
        exact names.apart _ _ (List.prefix_append [_, _] back).isInfix rfl
      rw [textOf_cons, bare] at starts
      obtain ⟨isWhole, mark, back, rfl, same⟩ := chars_eq_of_append apart inside outside starts
      cases isQuoted with
      | false => exact ⟨identifier, mark, back, rfl, isWhole, same⟩
      | true =>
        exact absurd (isWhole ▸ isKeyword) (names.keywords identifier List.mem_cons_self)

theorem isInWord_of_isBlank {char : Char} (blank : isBlank char = true) : isInWord char = false :=
  Bool.eq_false_iff.mpr fun inside => by
    rw [Text.isBlank_of_isInWord inside] at blank
    cases blank

theorem stripWord_textOf (names : QuotesNames tokens) {keyword : List Char}
    (isKeyword : keyword ∈ keywords) :
    ∃ part, part <:+ tokens ∧ ∀ quotes,
      Text.stripWord keyword (textOf quotes tokens) = textOf quotes part := by
  by_cases found : ∃ identifier mark rest, tokens = word identifier false :: between mark :: rest ∧
      identifier.chars = keyword ∧ isBlank mark.char = true
  · obtain ⟨identifier, mark, rest, rfl, rfl, blank⟩ := found
    refine ⟨(between mark :: rest).dropWhile (holds false isBlank), ?_, fun quotes => ?_⟩
    · exact (List.dropWhile_suffix _).trans (List.suffix_cons _ _)
    · have bare : (word identifier false).text quotes = identifier.chars := by
        rw [text, Bool.and_false, if_neg Bool.false_ne_true]
      have starts : Text.stripStart? identifier.chars
          (textOf quotes (word identifier false :: between mark :: rest)) =
            some (mark.char :: textOf quotes rest) := by
        rw [Text.stripStart?_eq_some, textOf_cons, bare]
        rfl
      rw [Text.stripWord, starts]
      dsimp only
      rw [if_pos blank, ← dropWhile_textOf fun _ => Text.isBlank_of_isInWord]
      rfl
  · refine ⟨tokens, List.suffix_refl _, fun quotes => ?_⟩
    rw [Text.stripWord]
    split
    case h_2 => rfl
    case h_1 char after starts =>
      refine if_neg fun blank => found ?_
      obtain ⟨identifier, mark, rest, same, whole, isChar⟩ := exists_of_keyword names isKeyword
        (isInWord_of_isBlank blank) (Text.stripStart?_eq_some.mp starts)
      exact ⟨identifier, mark, rest, same, whole, isChar ▸ blank⟩

/-! ### Annotations -/

/-- The name of an annotation is passed over as it is written, as it is not in quotes. -/
theorem dropWhile_note (unquoted : ∀ token ∈ tokens.takeWhile (holds true isNoteChar),
    token.isQuoted = false) (quotes : Bool) :
    (textOf quotes tokens).dropWhile isNoteChar =
      textOf quotes (tokens.dropWhile (holds true isNoteChar)) := by
  have passed : ∀ char ∈ textOf quotes (tokens.takeWhile (holds true isNoteChar)),
      isNoteChar char = true := by
    intro char member
    obtain ⟨token, inside, charInside⟩ := List.mem_flatMap.mp member
    cases token with
    | between mark =>
      have note : holds true isNoteChar (.between mark) = true := List.mem_takeWhile_imp inside
      rw [List.mem_singleton.mp charInside]
      exact note
    | word identifier isQuoted =>
      obtain rfl : isQuoted = false := unquoted _ inside
      rw [text, Bool.and_false, if_neg Bool.false_ne_true] at charInside
      have identifierChar := identifier.inside char charInside
      rw [isIdentifierChar] at identifierChar
      rw [isNoteChar, identifierChar, Bool.true_or, Bool.true_or]
  have stops : (textOf quotes (tokens.dropWhile (holds true isNoteChar))).dropWhile isNoteChar =
      textOf quotes (tokens.dropWhile (holds true isNoteChar)) := by
    have first := List.head?_dropWhile_not (holds true isNoteChar) tokens
    generalize tokens.dropWhile (holds true isNoteChar) = rest at first
    cases rest with
    | nil => rfl
    | cons token rest =>
      cases token with
      | word => cases first
      | between mark =>
        exact List.dropWhile_cons_of_neg (Bool.eq_false_iff.mp first)
  have split := List.takeWhile_append_dropWhile (p := holds true isNoteChar) (l := tokens)
  calc (textOf quotes tokens).dropWhile isNoteChar
      = (textOf quotes (tokens.takeWhile (holds true isNoteChar)) ++
          textOf quotes (tokens.dropWhile (holds true isNoteChar))).dropWhile isNoteChar := by
        rw [← textOf_append, split]
    _ = _ := by rw [List.dropWhile_append_of_pos passed, stops]

/-- Behind the name of an annotation its arguments are passed over. -/
theorem afterArguments_textOf (tokens : List Token) :
    ∃ part, part <:+ tokens ∧ ∀ quotes,
      (if (textOf quotes tokens).head? = some '(' then
        some ((Text.afterParenthesis? 0 (textOf quotes tokens)).getD [])
      else some (textOf quotes tokens)) = some (textOf quotes part) := by
  obtain ⟨closing?, inside, closed⟩ := afterParenthesis?_textOf 0 tokens
  by_cases opened : ∃ mark back, tokens = between mark :: back ∧ mark.char = '('
  · refine ⟨closing?.getD [], ?_, fun quotes => ?_⟩
    · cases closing? with
      | none => exact List.nil_suffix
      | some part => exact inside part rfl
    · rw [if_pos ((head?_textOf_iff (by decide)).mpr opened), closed]
      cases closing? <;> rfl
  · refine ⟨tokens, List.suffix_refl _, fun quotes => ?_⟩
    rw [if_neg (mt (head?_textOf_iff (by decide)).mp opened)]

theorem afterNote?_textOf (names : QuotesNames tokens) :
    ∃ result : Option (List Token), (∀ part ∈ result, part <:+ tokens) ∧ ∀ quotes,
      Text.afterNote? (textOf quotes tokens) = result.map (textOf quotes) := by
  have started (quotes : Bool) : Text.trimStart (textOf quotes tokens) =
      textOf quotes (tokens.dropWhile (holds false isBlank)) :=
    dropWhile_textOf (fun _ => Text.isBlank_of_isInWord) quotes tokens
  have suffix : tokens.dropWhile (holds false isBlank) <:+ tokens := List.dropWhile_suffix _
  generalize tokens.dropWhile (holds false isBlank) = inner at started suffix
  by_cases noted : ∃ mark rest, inner = between mark :: rest ∧ mark.char = '@'
  · obtain ⟨mark, rest, rfl, isAt⟩ := noted
    have unquoted : ∀ token ∈ rest.takeWhile (holds true isNoteChar), token.isQuoted = false :=
      names.notes mark _ isAt
        ((List.cons_prefix_cons.mpr ⟨rfl, List.takeWhile_prefix _⟩).isInfix.trans suffix.isInfix)
        fun _ => List.mem_takeWhile_imp
    obtain ⟨part, inside, passed⟩ :=
      afterArguments_textOf (rest.dropWhile (holds true isNoteChar))
    refine ⟨some part, ?_, fun quotes => ?_⟩
    · rintro _ ⟨⟩
      exact inside.trans ((List.dropWhile_suffix _).trans ((List.suffix_cons _ _).trans suffix))
    · have after := passed quotes
      rw [← dropWhile_note unquoted] at after
      rw [Text.afterNote?, started, textOf_cons, text_between, isAt]
      exact after
  · refine ⟨none, fun _ member => absurd member (Option.not_mem_none _), fun quotes => ?_⟩
    rw [Text.afterNote?, started]
    split
    case h_1 rest same =>
      have first : (textOf quotes inner).head? = some '@' := congrArg List.head? same
      exact absurd ((head?_textOf_iff (by decide)).mp first) noted
    case h_2 => rfl

theorem stripNotes_textOf (names : QuotesNames tokens) :
    ∃ part, part <:+ tokens ∧ ∀ quotes,
      Text.stripNotes (textOf quotes tokens) = textOf quotes part := by
  induction length : (textOf false tokens).length using Nat.strong_induction_on generalizing tokens with
  | _ length inductionHypothesis =>
    subst length
    obtain ⟨result, suffix, found⟩ := afterNote?_textOf names
    cases result with
    | none =>
      refine ⟨tokens.dropWhile (holds false isBlank), List.dropWhile_suffix _, fun quotes => ?_⟩
      rw [Text.stripNotes_of_afterNote?_eq_none (found quotes), Text.trimStart,
        dropWhile_textOf fun _ => Text.isBlank_of_isInWord]
    | some rest =>
      have inside := suffix rest rfl
      have shorter := Text.length_lt_of_afterNote? (found false)
      obtain ⟨part, partSuffix, stripped⟩ :=
        inductionHypothesis _ shorter (names.of_isInfix inside.isInfix) rfl
      refine ⟨part, partSuffix.trans inside, fun quotes => ?_⟩
      rw [Text.stripNotes_of_afterNote? (found quotes), stripped]

end Token

/-! ### The outermost form -/

/-- The outermost form of a type in tokens. -/
inductive TokenShape where
  | star
  | function (parts : List (List Token)) (result : List Token)
  | group (inner : List Token)
  | named (name : List Token) (arguments : List (List Token))

namespace TokenShape

open Token

/-- The form with its texts as they are written, or without the quotes in them. -/
def written (quotes : Bool) : TokenShape → TypeShape
  | star => .star
  | function parts result => .function (parts.map (textOf quotes)) (textOf quotes result)
  | group inner => .group (textOf quotes inner)
  | named name arguments =>
    .named (String.ofList (textOf quotes name)) (arguments.map (textOf quotes))

/-- The types directly inside. -/
def inner : TokenShape → List (List Token)
  | star => []
  | function parts result => parts ++ [result]
  | group inner => [inner]
  | named _ arguments => arguments

theorem inner_written (quotes : Bool) (shape : TokenShape) :
    (shape.written quotes).inner = shape.inner.map (textOf quotes) := by
  cases shape <;> simp [written, inner, TypeShape.inner]

end TokenShape

namespace Token

variable {tokens part : List Token}

theorem parameterType_textOf (tokens : List Token) :
    ∃ part, part <:+: tokens ∧ ∀ quotes,
      TypeShape.parameterType (textOf quotes tokens) = textOf quotes part := by
  obtain ⟨parts, inside, found⟩ := splitTopLevel_textOf (show isInWord ':' = false by decide) tokens
  have whole : ∃ part, part <:+: tokens ∧ ∀ quotes, textOf quotes tokens = textOf quotes part :=
    ⟨tokens, List.infix_refl _, fun _ => rfl⟩
  simp only [TypeShape.parameterType, found]
  rcases parts with _ | ⟨name, _ | ⟨type, _ | ⟨third, others⟩⟩⟩
  · exact whole
  · exact whole
  · exact ⟨type, inside type (by simp), fun _ => rfl⟩
  · exact whole

/-- A list of parts that are read one by one. -/
theorem exists_map {read : List Char → List Char} {parts : List (List Token)}
    (reads : ∀ part ∈ parts, ∃ other, other <:+: part ∧ ∀ quotes,
      read (textOf quotes part) = textOf quotes other) (inside : ∀ part ∈ parts, part <:+: tokens) :
    ∃ others : List (List Token), (∀ other ∈ others, other <:+: tokens) ∧ ∀ quotes,
      (parts.map (textOf quotes)).map read = others.map (textOf quotes) := by
  induction parts with
  | nil => exact ⟨[], nofun, fun _ => rfl⟩
  | cons part parts inductionHypothesis =>
    rw [List.forall_mem_cons] at reads inside
    obtain ⟨other, within, found⟩ := reads.1
    obtain ⟨others, allWithin, allFound⟩ := inductionHypothesis reads.2 inside.2
    refine ⟨other :: others, ?_, fun quotes => ?_⟩
    · rw [List.forall_mem_cons]
      exact ⟨within.trans inside.1, allWithin⟩
    · rw [List.map_cons, List.map_cons, found, allFound, List.map_cons]

theorem splitReceiver_textOf (tokens : List Token) :
    ∃ (receiver? : Option (List Token)) (list : List Token),
      (∀ receiver ∈ receiver?, receiver <:+: tokens) ∧ list <:+: tokens ∧ ∀ quotes,
        TypeShape.splitReceiver (textOf quotes tokens) =
          (receiver?.map (textOf quotes), textOf quotes list) := by
  have opening : isInWord '(' = false := by decide
  by_cases opened : ∃ mark rest, tokens = between mark :: rest ∧ mark.char = '('
  · refine ⟨none, tokens, nofun, List.infix_refl _, fun quotes => ?_⟩
    rw [TypeShape.splitReceiver, if_pos ((head?_textOf_iff opening).mpr opened)]
    rfl
  · have closed (quotes : Bool) : (textOf quotes tokens).head? ≠ some '(' :=
      fun first => opened ((head?_textOf_iff opening).mp first)
    rcases splitsOnce (show isInWord '.' = false by decide) opening tokens with
      undotted | ⟨front, dot, paren, back, rfl, isDot, isParen, found⟩
    · refine ⟨none, tokens, nofun, List.infix_refl _, fun quotes => ?_⟩
      rw [TypeShape.splitReceiver, if_neg (closed quotes), undotted]
      rfl
    · refine ⟨some front, between paren :: back, ?_, ?_, fun quotes => ?_⟩
      · rintro _ ⟨⟩
        exact (List.prefix_append _ _).isInfix
      · exact ((List.suffix_cons _ _).trans (List.suffix_append _ _)).isInfix
      · rw [TypeShape.splitReceiver, if_neg (closed quotes), found, textOf_cons, text_between,
          isParen]
        rfl

theorem functionParts_textOf (names : QuotesNames tokens) :
    ∃ parts : List (List Token), (∀ part ∈ parts, part <:+: tokens) ∧ ∀ quotes,
      TypeShape.functionParts (textOf quotes tokens) = parts.map (textOf quotes) := by
  obtain ⟨rest, restSuffix, stripped⟩ :=
    stripWord_textOf (names.of_isInfix (trim_isInfix tokens)) (show "suspend".toList ∈ keywords by decide)
  have restInside : rest <:+: tokens := restSuffix.isInfix.trans (trim_isInfix tokens)
  obtain ⟨receiver?, list, receiverInside, listInside, split⟩ := splitReceiver_textOf rest
  obtain ⟨inner?, innerInside, bare⟩ := stripBoth?_textOf (show isInWord '(' = false by decide)
    (show isInWord ')' = false by decide) (trim list)
  have listWithin : list <:+: tokens := listInside.trans restInside
  have insideInside : inner?.getD list <:+: tokens := by
    cases inner? with
    | none => exact listWithin
    | some inner => exact (innerInside inner rfl).trans ((trim_isInfix list).trans listWithin)
  obtain ⟨parameters, parametersInside, found⟩ :=
    splitTopLevel_textOf (show isInWord ',' = false by decide) (inner?.getD list)
  obtain ⟨types, typesInside, read⟩ := exists_map (fun part _ => parameterType_textOf part)
    fun part member => (parametersInside part member).trans insideInside
  refine ⟨receiver?.toList ++ types, ?_, fun quotes => ?_⟩
  · rw [List.forall_mem_append]
    refine ⟨fun part member => ?_, typesInside⟩
    exact (receiverInside part (Option.mem_toList.mp member)).trans restInside
  · have chosen : (inner?.map (textOf quotes)).getD (textOf quotes list) =
        textOf quotes (inner?.getD list) := by
      cases inner? <;> rfl
    rw [TypeShape.functionParts, trim_textOf, stripped, split]
    dsimp only
    rw [trim_textOf, bare, chosen, found, read, List.map_append]
    cases receiver? <;> rfl

theorem withoutVariance_textOf (names : QuotesNames tokens) :
    ∃ part, part <:+: tokens ∧ ∀ quotes,
      TypeShape.withoutVariance (textOf quotes tokens) = textOf quotes part := by
  obtain ⟨rest, restSuffix, out⟩ :=
    stripWord_textOf names (show "out".toList ∈ keywords by decide)
  obtain ⟨part, partSuffix, found⟩ := stripWord_textOf (names.of_isInfix restSuffix.isInfix)
    (show "in".toList ∈ keywords by decide)
  refine ⟨part, (partSuffix.trans restSuffix).isInfix, fun quotes => ?_⟩
  rw [TypeShape.withoutVariance, out, found]

/-- Behind the tokens that pass a test comes one that does not. -/
theorem exists_dropWhile_eq (test : Char → Bool) {mark : Mark} (member : between mark ∈ tokens)
    (fails : test mark.char = false) :
    ∃ mark rest, tokens.dropWhile (holds true test) = between mark :: rest := by
  have stops := List.head?_dropWhile_not (holds true test) tokens
  cases dropped : tokens.dropWhile (holds true test) with
  | nil =>
    have passes : holds true test (between mark) = true :=
      List.dropWhile_eq_nil_iff.mp dropped _ member
    rw [holds, fails] at passes
    cases passes
  | cons token rest =>
    rw [dropped] at stops
    cases token with
    | word => cases stops
    | between mark => exact ⟨mark, rest, rfl⟩

theorem exists_concat_of_suffix {front : List Token} {mark : Mark} (suffix : part <:+ tokens)
    (nonempty : part ≠ []) (same : tokens = front ++ [between mark]) :
    ∃ front mark, part = front ++ [between mark] := by
  obtain ⟨before, whole⟩ := suffix
  obtain ⟨others, last, rfl⟩ := (List.eq_nil_or_concat' part).resolve_left nonempty
  rw [same, ← List.append_assoc] at whole
  exact ⟨others, mark, by rw [List.singleton_inj.mp (List.append_inj_right' whole rfl)]⟩

/-- Whether a reading gives one form with the quotes and without them, and the types in it are parts
of the tokens. -/
def HasForm (read : List Char → TypeShape) (tokens : List Token) : Prop :=
  ∃ shape : TokenShape, (∀ part ∈ shape.inner, part <:+: tokens) ∧ ∀ quotes,
    read (textOf quotes tokens) = shape.written quotes

/-- A class with the types of a list of arguments. -/
theorem HasForm.named (names : QuotesNames tokens) {read : List Char → TypeShape}
    (name : List Token) {arguments : List Token} (inside : arguments <:+: tokens)
    (cut : ∀ quotes, read (textOf quotes tokens) =
      .named (String.ofList (Text.removeBlanks (textOf quotes name)))
        ((Text.splitTopLevel ',' (textOf quotes arguments)).map TypeShape.withoutVariance)) :
    HasForm read tokens := by
  obtain ⟨parts, partsInside, split⟩ :=
    splitTopLevel_textOf (show isInWord ',' = false by decide) arguments
  have within : ∀ part ∈ parts, part <:+: tokens := fun part member =>
    (partsInside part member).trans inside
  obtain ⟨types, typesInside, found⟩ := exists_map
    (fun part member => withoutVariance_textOf (names.of_isInfix (within part member))) within
  refine ⟨.named (name.filter (holds true (!isBlank ·))) types, typesInside, fun quotes => ?_⟩
  rw [cut, split, found, removeBlanks_textOf]
  rfl

/-- The brackets behind the name of a class are found at the same tokens. -/
theorem isBracketed_iff (quotes : Bool) (tokens : List Token) :
    ((textOf quotes tokens).contains '<' &&
        decide ((textOf quotes tokens).getLast? = some '>')) = true ↔
      (∃ mark, between mark ∈ tokens ∧ mark.char = '<') ∧
        ∃ front mark, tokens = front ++ [between mark] ∧ mark.char = '>' := by
  rw [Bool.and_eq_true, List.contains_iff_mem, decide_eq_true_iff, mem_textOf_iff (by decide),
    getLast?_textOf_iff (by decide)]

theorem hasForm_ofClass (names : QuotesNames tokens) : HasForm TypeShape.ofClass tokens := by
  have beforeAngle : ∀ char, isInWord char = true → (!decide (char = '<')) = true :=
    fun char inside => by simpa using Text.ne_of_isInWord inside (by decide)
  by_cases bracketed : (∃ mark, between mark ∈ tokens ∧ mark.char = '<') ∧
      ∃ front mark, tokens = front ++ [between mark] ∧ mark.char = '>'
  · have isBracketed (quotes : Bool) := (isBracketed_iff quotes tokens).mpr bracketed
    obtain ⟨⟨angle, member, isAngle⟩, front, closing, same, -⟩ := bracketed
    obtain ⟨mark, rest, found⟩ :=
      exists_dropWhile_eq (fun char => !decide (char = '<')) member (by simp [isAngle])
    have suffix : between mark :: rest <:+ tokens := found ▸ List.dropWhile_suffix _
    have last : ∃ others last, between mark :: rest = others ++ [between last] :=
      exists_concat_of_suffix suffix (List.cons_ne_nil _ _) same
    have inside : rest.dropLast <:+: tokens :=
      (List.dropLast_prefix _).isInfix.trans ((List.suffix_cons _ _).trans suffix).isInfix
    refine .named names (tokens.takeWhile (holds true fun char => !decide (char = '<'))) inside
      fun quotes => ?_
    rw [TypeShape.ofClass, if_pos (isBracketed quotes)]
    dsimp only
    rw [takeWhile_textOf beforeAngle, dropWhile_textOf beforeAngle, found,
      tail_dropLast_textOf rfl last]
  · refine .named names tokens List.nil_infix fun quotes => ?_
    rw [TypeShape.ofClass, if_neg (mt (isBracketed_iff quotes tokens).mp bracketed)]
    rfl

theorem HasForm.function (names : QuotesNames tokens) {left result : List Token}
    (front : left <+: tokens) (back : result <:+ tokens)
    {read : List Char → TypeShape}
    (cut : ∀ quotes, read (textOf quotes tokens) =
      .function (TypeShape.functionParts (textOf quotes left)) (textOf quotes result)) :
    HasForm read tokens := by
  obtain ⟨types, typesInside, found⟩ := functionParts_textOf (names.of_isInfix front.isInfix)
  refine ⟨.function types result, ?_, fun quotes => ?_⟩
  · refine List.forall_mem_append.mpr ⟨fun part type => ?_, fun part only => ?_⟩
    · exact (typesInside part type).trans front.isInfix
    · rw [List.mem_singleton.mp only]
      exact back.isInfix
  · rw [cut, found]
    rfl

theorem exists_of_afterParenthesis? {depth : Nat} {text rest : List Char}
    (closed : Text.afterParenthesis? depth text = some rest) :
    ∃ front, text = front ++ ')' :: rest := by
  induction text generalizing depth with
  | nil => cases closed
  | cons char text inductionHypothesis =>
    have later {deeper : Nat} (found : Text.afterParenthesis? deeper text = some rest) :
        ∃ front, char :: text = front ++ ')' :: rest := by
      obtain ⟨front, same⟩ := inductionHypothesis found
      exact ⟨char :: front, congrArg (char :: ·) same⟩
    rw [Text.afterParenthesis?] at closed
    split at closed
    · exact later closed
    · split at closed
      case isTrue isClosing =>
        split at closed
        · cases closed
          exact ⟨[], by rw [isClosing]; rfl⟩
        · exact later closed
      case isFalse => exact later closed

/-- Whether the tokens are between one pair of parentheses. -/
def IsGroup (tokens : List Token) : Prop :=
  (∃ mark rest, tokens = between mark :: rest ∧ mark.char = '(') ∧
    Text.afterParenthesis? 0 (textOf true tokens) = some []

theorem isGroup_iff (quotes : Bool) (tokens : List Token) :
    (decide ((textOf quotes tokens).head? = some '(') &&
        decide (Text.afterParenthesis? 0 (textOf quotes tokens) = some [])) = true ↔
      IsGroup tokens := by
  obtain ⟨closing?, -, closed⟩ := afterParenthesis?_textOf 0 tokens
  have ends (quotes : Bool) : closing?.map (textOf quotes) = some [] ↔ closing? = some [] := by
    cases closing? <;> simp [textOf_eq_nil_iff]
  rw [Bool.and_eq_true, decide_eq_true_iff, decide_eq_true_iff, head?_textOf_iff (by decide),
    IsGroup, closed, closed, ends, ends]

theorem IsGroup.exists_rest (group : IsGroup tokens) :
    ∃ mark rest, tokens = between mark :: rest ∧
      ∃ front last, tokens = front ++ [between last] := by
  obtain ⟨⟨mark, rest, same, -⟩, closed⟩ := group
  obtain ⟨before, whole⟩ := exists_of_afterParenthesis? closed
  have ends : (textOf true tokens).getLast? = some ')' := by
    rw [whole]
    exact List.getLast?_concat
  obtain ⟨front, closing, concat, -⟩ := (getLast?_textOf_iff (by decide)).mp ends
  exact ⟨mark, rest, same, front, closing, concat⟩

theorem hasForm_ofText (names : QuotesNames tokens) : HasForm TypeShape.ofText tokens := by
  have star : isInWord '*' = false := by decide
  by_cases isStar : ∃ mark, tokens = [between mark] ∧ mark.char = '*'
  · refine ⟨.star, nofun, fun quotes => ?_⟩
    rw [TypeShape.ofText, if_pos ((textOf_eq_singleton_iff star).mpr isStar)]
    rfl
  have notStar (quotes : Bool) : textOf quotes tokens ≠ ['*'] :=
    mt (textOf_eq_singleton_iff star).mp isStar
  obtain ⟨arrow?, inside, split⟩ := splitsArrow 0 false tokens
  have cut (quotes : Bool) : Text.splitArrow? (textOf quotes tokens) =
      arrow?.map (Prod.map (textOf quotes) (textOf quotes)) := split quotes none rfl
  cases arrow? with
  | some parts =>
    obtain ⟨front, back⟩ := inside _ rfl
    refine .function names front back fun quotes => ?_
    rw [TypeShape.ofText, if_neg (notStar quotes), cut]
    rfl
  | none =>
    have read (quotes : Bool) : TypeShape.ofText (textOf quotes tokens) =
        if decide ((textOf quotes tokens).head? = some '(') &&
            decide (Text.afterParenthesis? 0 (textOf quotes tokens) = some []) then
          .group (textOf quotes tokens).tail.dropLast
        else TypeShape.ofClass (textOf quotes tokens) := by
      rw [TypeShape.ofText, if_neg (notStar quotes), cut]
      rfl
    by_cases group : IsGroup tokens
    · obtain ⟨mark, rest, same, last⟩ := group.exists_rest
      refine ⟨.group rest.dropLast, List.forall_mem_singleton.mpr ?_, fun quotes => ?_⟩
      · rw [same]
        exact (List.dropLast_prefix _).isInfix.trans (List.suffix_cons _ _).isInfix
      · rw [read, if_pos ((isGroup_iff quotes tokens).mpr group), tail_dropLast_textOf same last]
        rfl
    · obtain ⟨shape, shapeInside, found⟩ := hasForm_ofClass names
      refine ⟨shape, shapeInside, fun quotes => ?_⟩
      rw [read, if_neg (mt (isGroup_iff quotes tokens).mp group), found]

/-! ### Reading a type -/

theorem core_textOf (names : QuotesNames tokens) :
    ∃ part, part <:+: tokens ∧ ∃ nullable, ∀ quotes,
      WrittenType.core (textOf quotes tokens) = (textOf quotes part, nullable) := by
  obtain ⟨bare, bareSuffix, stripped⟩ := stripNotes_textOf (names.of_isInfix (trim_isInfix tokens))
  have inside : bare <:+: tokens := bareSuffix.isInfix.trans (trim_isInfix tokens)
  have read (quotes : Bool) : WrittenType.core (textOf quotes tokens) =
      WrittenType.splitNullable (textOf quotes bare) := by
    rw [WrittenType.core, trim_textOf, stripped]
  have outside : isInWord '?' = false := by decide
  by_cases marked : ∃ front mark, bare = front ++ [between mark] ∧ mark.char = '?'
  · have words : ∀ char, isInWord char = true →
        (decide (char = '?') || isBlank char) = false := fun char inWord => by
      rw [Bool.or_eq_false_iff, decide_eq_false_iff_not]
      exact ⟨Text.ne_of_isInWord inWord outside, Text.isBlank_of_isInWord inWord⟩
    refine ⟨bare.rdropWhile (holds false fun char => char = '?' || isBlank char),
      (List.rdropWhile_prefix _ _).isInfix.trans inside, true, fun quotes => ?_⟩
    rw [read, WrittenType.splitNullable, if_pos ((getLast?_textOf_iff outside).mpr marked),
      dropEndWhile_textOf words rfl]
  · refine ⟨bare, inside, false, fun quotes => ?_⟩
    rw [read, WrittenType.splitNullable,
      if_neg fun last => marked ((getLast?_textOf_iff outside).mp last)]

end Token

namespace WrittenType

mutual

/-- The type with every class name in it changed. -/
def mapNames (change : String → String) : WrittenType → WrittenType
  | .star nullable => .star nullable
  | .named name arguments nullable =>
    .named (change name) (mapNamesInAll change arguments) nullable
  | .function parameters result nullable =>
    .function (mapNamesInAll change parameters) (mapNames change result) nullable

/-- The types with every class name in them changed. -/
def mapNamesInAll (change : String → String) : List WrittenType → List WrittenType
  | [] => []
  | first :: rest => mapNames change first :: mapNamesInAll change rest

end

variable {change : String → String}

theorem mapNamesInAll_eq_map (change : String → String) (types : List WrittenType) :
    mapNamesInAll change types = types.map (mapNames change) := by
  induction types with
  | nil => rfl
  | cons first rest inductionHypothesis => rw [mapNamesInAll, inductionHypothesis, List.map_cons]

theorem mapNames_orNullable (type : WrittenType) (more : Bool) :
    (type.orNullable more).mapNames change = (type.mapNames change).orNullable more := by
  cases type <;> simp [orNullable, mapNames]

mutual

/-- Changing the class names of a type changes nothing exactly if it changes none of them. -/
theorem mapNames_eq_self_iff : ∀ type : WrittenType,
    type.mapNames change = type ↔ ∀ name ∈ type.names, change name = name
  | .star nullable => by simp [mapNames, names]
  | .named name arguments nullable => by
    simp [mapNames, names, mapNamesInAll_eq_self_iff arguments, or_imp, forall_and, and_comm]
  | .function parameters result nullable => by
    simp [mapNames, names, mapNamesInAll_eq_self_iff parameters, mapNames_eq_self_iff result, or_imp,
      forall_and]

theorem mapNamesInAll_eq_self_iff : ∀ types : List WrittenType,
    mapNamesInAll change types = types ↔ ∀ name ∈ namesOfAll types, change name = name
  | [] => by simp [mapNamesInAll, namesOfAll]
  | first :: rest => by
    simp [mapNamesInAll, namesOfAll, mapNames_eq_self_iff first, mapNamesInAll_eq_self_iff rest,
      or_imp, forall_and]

end

/-- A name without the quotes in it. -/
def unquoted (name : String) : String := String.ofList (name.toList.filter (· ≠ Name.quote))

theorem unquoted_eq_self_iff {name : String} :
    unquoted name = name ↔ Name.quote ∉ name.toList := by
  rw [unquoted, ← String.toList_inj, String.toList_ofList, List.filter_eq_self]
  refine ⟨fun all member => ?_, fun absent char member => ?_⟩
  · exact absurd rfl (of_decide_eq_true (all Name.quote member))
  · rw [decide_eq_true_iff]
    rintro rfl
    exact absent member

end WrittenType

namespace Token

variable {tokens : List Token}

theorem unquoted_textOf (tokens : List Token) :
    WrittenType.unquoted (String.ofList (textOf true tokens)) = String.ofList (textOf false tokens) := by
  rw [WrittenType.unquoted, String.toList_ofList, textOf_false]

/-- Without the quotes a type is read as with them, but for the quotes in the names of classes. -/
theorem parse_textOf (names : QuotesNames tokens) :
    WrittenType.parse (textOf false tokens) =
      (WrittenType.parse (textOf true tokens)).mapNames WrittenType.unquoted := by
  induction length : (textOf false tokens).length using Nat.strong_induction_on generalizing tokens with
  | _ length inductionHypothesis =>
    subst length
    obtain ⟨part, partInside, nullable, core⟩ := core_textOf names
    obtain ⟨shape, inside, form⟩ := hasForm_ofText (names.of_isInfix partInside)
    have formed (quotes : Bool) :
        TypeShape.ofText (WrittenType.core (textOf quotes tokens)).1 = shape.written quotes := by
      rw [core, form]
    have shorter := WrittenType.length_lt_of_mem_core (textOf false tokens)
    rw [formed, TokenShape.inner_written, List.forall_mem_map] at shorter
    have inner : ∀ type ∈ shape.inner, WrittenType.parse (textOf false type) =
        (WrittenType.parse (textOf true type)).mapNames WrittenType.unquoted := fun type member =>
      inductionHypothesis _ (shorter type member)
        (names.of_isInfix ((inside type member).trans partInside)) rfl
    have all (types : List (List Token)) (within : ∀ type ∈ types, type ∈ shape.inner) :
        (types.map (textOf false)).map WrittenType.parse = WrittenType.mapNamesInAll
          WrittenType.unquoted ((types.map (textOf true)).map WrittenType.parse) := by
      rw [WrittenType.mapNamesInAll_eq_map, List.map_map, List.map_map, List.map_map]
      exact List.map_congr_left fun type member => inner type (within type member)
    rw [WrittenType.parse_eq, WrittenType.parse_eq, formed, formed, core, core]
    cases shape with
    | star => rfl
    | group type =>
      show WrittenType.orNullable _ _ = WrittenType.mapNames _ (WrittenType.orNullable _ _)
      rw [WrittenType.mapNames_orNullable, inner type (List.mem_singleton_self _)]
    | named name arguments =>
      show WrittenType.named _ _ _ = WrittenType.named _ _ _
      rw [unquoted_textOf, all arguments fun _ member => member]
    | function parts result =>
      show WrittenType.function _ _ _ = WrittenType.function _ _ _
      rw [all parts fun type member => List.mem_append_left _ member,
        inner result (List.mem_append_right _ (List.mem_singleton_self _))]

/-- A type means the same with the quotes and without them, whatever its class names mean, exactly
if none of its class names is in quotes. -/
theorem resolve_textOf_iff (names : QuotesNames tokens) :
    (∀ lookUp, (WrittenType.parse (textOf true tokens)).resolve lookUp =
        (WrittenType.parse (textOf false tokens)).resolve lookUp) ↔
      ∀ name ∈ (WrittenType.parse (textOf true tokens)).names, Name.quote ∉ name.toList := by
  have same : (∀ lookUp, (WrittenType.parse (textOf true tokens)).resolve lookUp =
      (WrittenType.parse (textOf false tokens)).resolve lookUp) ↔
      WrittenType.parse (textOf false tokens) = WrittenType.parse (textOf true tokens) :=
    ⟨fun all => (WrittenType.resolve_dotted_injective (all _)).symm, fun same _ => by rw [same]⟩
  rw [same, parse_textOf names, WrittenType.mapNames_eq_self_iff]
  simp only [WrittenType.unquoted_eq_self_iff]

end Token

end SourceCapture
