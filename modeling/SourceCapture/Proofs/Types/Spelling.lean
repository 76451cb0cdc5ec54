/-
The texts of types. In the text of a type every bracket is closed, a comma or a colon stands inside
of brackets only, and so does an arrow unless the type is a function. The text starts with a name or
a parenthesis, and ends, but for a question mark, with a name or a bracket. This is all that reading
a type has to know of the types inside.
-/

import SourceCapture.Proofs.Text.Brackets
import SourceCapture.Proofs.Types.SourceTypes

namespace SourceCapture

/-! ### Names and words -/

namespace Text

variable {char : Char} {word text left right : List Char}

theorem isOrdinary_of_isNameChar (inName : isNameChar char = true) : isOrdinary char = true :=
  isOrdinary_of_holds (show specials.any isNameChar = false by decide) inName

/-- Whether no white space follows right after the first characters of a text that could be a
name. -/
def IsUnspaced (text : List Char) : Prop :=
  ∀ char ∈ (text.dropWhile isNameChar).head?, isBlank char = false

theorem IsUnspaced.of_name (name : ∀ char ∈ text, isNameChar char = true) : IsUnspaced text := by
  intro char member
  rw [List.dropWhile_eq_nil_iff.mpr name] at member
  cases member

theorem IsUnspaced.append (first : IsUnspaced left) (second : IsUnspaced right) :
    IsUnspaced (left ++ right) := by
  rw [IsUnspaced, List.dropWhile_append]
  split
  · exact second
  case isFalse inside =>
    rw [List.head?_append_of_ne_nil _ (by simpa using inside)]
    exact first

theorem IsUnspaced.cons (outside : isNameChar char = false) (bare : isBlank char = false)
    (rest : List Char) : IsUnspaced (char :: rest) := by
  rw [IsUnspaced, List.dropWhile_cons_of_neg (by rw [outside]; exact Bool.false_ne_true)]
  rintro _ ⟨⟩
  exact bare

/-- A word is only taken off if white space follows. -/
theorem stripWord_of_isUnspaced (name : ∀ char ∈ word, isNameChar char = true)
    (unspaced : IsUnspaced text) : stripWord word text = text := by
  rw [stripWord]
  split
  case h_2 => rfl
  case h_1 char rest found =>
    have bare : isBlank char = false := by
      rw [stripStart?_eq_some.mp found, IsUnspaced,
        List.dropWhile_append_of_pos name] at unspaced
      by_cases inName : isNameChar char = true
      · exact isBlank_of_isNameChar inName
      · rw [List.dropWhile_cons_of_neg inName] at unspaced
        exact unspaced char rfl
    rw [bare, if_neg Bool.false_ne_true]

theorem stripNotes_of_afterNote? {rest : List Char} (found : afterNote? text = some rest) :
    stripNotes text = stripNotes rest := by
  rw [stripNotes]
  split
  case h_1 same =>
    rw [found] at same
    cases same
    rfl
  case h_2 none =>
    rw [found] at none
    cases none

theorem stripNotes_of_afterNote?_eq_none (none : afterNote? text = none) :
    stripNotes text = trimStart text := by
  rw [stripNotes]
  split
  case h_1 found =>
    rw [none] at found
    cases found
  case h_2 => rfl

/-- Only what starts with an annotation is cut. -/
theorem stripNotes_of_head?_ne (unnoted : (trimStart text).head? ≠ some '@') :
    stripNotes text = trimStart text := by
  refine stripNotes_of_afterNote?_eq_none ?_
  rw [afterNote?]
  split
  case h_1 same =>
    rw [same] at unnoted
    exact absurd rfl unnoted
  case h_2 => rfl

theorem stripNotes_eq_self (bare : ∀ char ∈ text.head?, isBlank char = false ∧ char ≠ '@') :
    stripNotes text = text := by
  have nothing : allBlank [] = true := rfl
  have started : trimStart text = text := trimStart_append nothing fun char first => (bare char first).1
  rw [stripNotes_of_head?_ne, started]
  rw [started]
  exact fun at' => (bare '@' at').2 rfl

/-- Whether a text ends with a name or a bracket. -/
def EndsSolid (text : List Char) : Prop :=
  ∃ front char, text = front ++ [char] ∧
    (isNameChar char = true ∨ char = '>' ∨ char = ')')

theorem EndsSolid.append (ends : EndsSolid right) (left : List Char) :
    EndsSolid (left ++ right) := by
  obtain ⟨front, char, rfl, solid⟩ := ends
  exact ⟨left ++ front, char, (List.append_assoc _ _ _).symm, solid⟩

/-- Whether a text starts with a name or a parenthesis. -/
def BeginsSolid (text : List Char) : Prop :=
  ∃ char rest, text = char :: rest ∧ (isNameChar char = true ∨ char = '(')

theorem BeginsSolid.append (begins : BeginsSolid left) (right : List Char) :
    BeginsSolid (left ++ right) := by
  obtain ⟨char, rest, rfl, solid⟩ := begins
  exact ⟨char, rest ++ right, rfl, solid⟩

theorem BeginsSolid.bare (begins : BeginsSolid text) : ∀ char ∈ text.head?, isBlank char = false := by
  obtain ⟨char, rest, rfl, solid⟩ := begins
  rintro _ ⟨⟩
  rcases solid with inName | rfl
  · exact isBlank_of_isNameChar inName
  · decide

theorem BeginsSolid.isTight (begins : BeginsSolid text) (ends : EndsSolid text) : IsTight text := by
  refine ⟨begins.bare, ?_⟩
  obtain ⟨front, char, rfl, solid⟩ := ends
  rw [List.getLast?_concat]
  rintro _ ⟨⟩
  rcases solid with inName | rfl | rfl
  · exact isBlank_of_isNameChar inName
  · decide
  · decide

end Text

/-! ### Question marks -/

namespace SourceType

open Text (EndsSolid BeginsSolid IsTight IsUnspaced Closed IsPart isNameChar isBlank)

/-- Whether the last character of a type is a question mark, its own or that of its result. -/
def endsInMark : SourceType → Bool
  | .named _ _ nullable => nullable
  | .function _ _ _ result nullable => nullable || result.endsInMark

/-- A text that is put together of a part without and a part with a question mark at the end, as
the text of a type. -/
structure Spells (text unmarked : List Char) (marked : Bool) : Prop where
  split : text = unmarked ++ mark marked
  begins : BeginsSolid unmarked
  ends : EndsSolid unmarked

namespace Spells

variable {text unmarked : List Char} {marked : Bool}

theorem prepend (spells : Spells text unmarked marked) {front : List Char}
    (begins : BeginsSolid front) : Spells (front ++ text) (front ++ unmarked) marked where
  split := by rw [spells.split, List.append_assoc]
  begins := begins.append unmarked
  ends := spells.ends.append front

/-- A function ends as its result does. -/
theorem plainFunction (spells : Spells text unmarked marked) {head : List Char}
    (begins : BeginsSolid head) :
    Spells (functionText head text false) (functionText head unmarked false) marked := by
  have prepended := spells.prepend (begins.append " -> ".toList)
  rwa [List.append_assoc, List.append_assoc] at prepended

theorem nonempty (spells : Spells text unmarked marked) : text ≠ [] := by
  obtain ⟨char, rest, same, -⟩ := spells.begins
  rw [spells.split, same, List.cons_append]
  exact List.cons_ne_nil _ _

theorem beginsSolid (spells : Spells text unmarked marked) : BeginsSolid text := by
  rw [spells.split]
  exact spells.begins.append _

theorem isTight (spells : Spells text unmarked marked) : IsTight text := by
  have tight := spells.begins.isTight spells.ends
  rw [spells.split]
  cases marked with
  | true =>
    rw [mark_true]
    refine ⟨(spells.begins.append ['?']).bare, ?_⟩
    rw [List.getLast?_concat]
    rintro _ ⟨⟩
    decide
  | false => rwa [mark_false, List.append_nil]

/-- The question mark is what is taken off the end. -/
theorem splitNullable (spells : Spells text unmarked marked) :
    WrittenType.splitNullable text = (unmarked, marked) := by
  obtain ⟨front, char, same, solid⟩ := spells.ends
  have stays : char ≠ '?' ∧ isBlank char = false := by
    rcases solid with inName | rfl | rfl
    · exact ⟨Text.ne_of_isNameChar inName (by decide), Text.isBlank_of_isNameChar inName⟩
    · decide
    · decide
  rw [spells.split, WrittenType.splitNullable]
  cases marked with
  | true =>
    rw [mark_true, List.getLast?_concat, if_pos rfl, Text.dropEndWhile, same]
    simp [stays]
  | false =>
    rw [mark_false, List.append_nil, same, List.getLast?_concat,
      if_neg fun last => stays.1 (Option.some.inj last)]

/-- White space around the text of a type is taken off, and so is the question mark. -/
theorem core (spells : Spells text unmarked marked) {before after : List Char}
    (beforeBlank : Text.allBlank before = true) (afterBlank : Text.allBlank after = true) :
    WrittenType.core (before ++ (text ++ after)) = (unmarked, marked) := by
  have trimmed : Text.trim (before ++ (text ++ after)) = text :=
    spells.isTight.trims.trim_append_append beforeBlank afterBlank
  have start : Text.trimStart text = text :=
    Text.trimStart_append (show Text.allBlank [] = true from rfl) spells.isTight.1
  have unnoted : (Text.trimStart text).head? ≠ some '@' := by
    obtain ⟨char, rest, same, solid⟩ := spells.beginsSolid
    rw [start, same]
    rintro ⟨⟩
    rcases solid with inName | isOpening
    · exact Text.ne_of_isNameChar inName (by decide) rfl
    · cases isOpening
  rw [WrittenType.core, trimmed, Text.stripNotes_of_head?_ne unnoted, start, spells.splitNullable]

end Spells

/-! ### The texts of types -/

/-- What may stand in a type outside of its brackets. -/
def allowedInType (char : Char) : Bool := char ≠ ',' && char ≠ ':'

/-- What may stand outside of brackets in front of an arrow. -/
def allowedInHead (char : Char) : Bool := char ≠ ',' && char ≠ ':' && char ≠ '-'

theorem allowedInType_of_allowedInHead (char : Char) (fine : allowedInHead char = true) :
    allowedInType char = true := by
  simp only [allowedInHead, Bool.and_eq_true] at fine
  simp only [allowedInType, Bool.and_eq_true]
  exact fine.1

section

variable {name : String} {texts : List (List Char)} {text head result : List Char}
  {suspends nullable : Bool}

theorem IsName.closed (isName : IsName name) : Closed allowedInHead name.toList := by
  refine .of_ordinary (fun char member => Text.isOrdinary_of_isNameChar (isName.2 char member))
    fun char member => ?_
  have apart {other : Char} (outside : isNameChar other = false) : char ≠ other :=
    Text.ne_of_isNameChar (isName.2 char member) outside
  simp [allowedInHead, apart (show isNameChar ',' = false by decide),
    apart (show isNameChar ':' = false by decide), apart (show isNameChar '-' = false by decide)]

theorem IsName.nonempty (isName : IsName name) : name.toList ≠ [] := fun empty =>
  isName.1 (String.toList_eq_nil_iff.mp empty)

theorem IsName.spells (isName : IsName name) : Spells name.toList name.toList false := by
  refine ⟨(List.append_nil _).symm, ?_, ?_⟩
  · obtain ⟨char, rest, same⟩ := List.exists_cons_of_ne_nil isName.nonempty
    exact ⟨char, rest, same, Or.inl (isName.2 char (same ▸ List.mem_cons_self))⟩
  · obtain ⟨front, char, same⟩ :=
      (List.eq_nil_or_concat' name.toList).resolve_left isName.nonempty
    exact ⟨front, char, same, Or.inl (isName.2 char (same ▸ List.mem_concat_self))⟩

theorem closed_listed (closed : ∀ text ∈ texts, Closed (fun _ => true) text) :
    Closed (fun _ => true) (listed texts) := by
  induction texts with
  | nil => exact .nil _
  | cons first others inductionHypothesis =>
    rw [List.forall_mem_cons] at closed
    cases others with
    | nil =>
      rw [listed_singleton]
      exact closed.1
    | cons second others =>
      rw [listed_cons_cons]
      exact closed.1.append (.ordinary rfl rfl (.ordinary rfl rfl (inductionHypothesis closed.2)))

theorem closed_inAngles (closed : ∀ text ∈ texts, Closed (fun _ => true) text)
    (allowed : Char → Bool) : Closed allowed (inAngles texts) := by
  cases texts with
  | nil => exact .nil allowed
  | cons first others => exact (closed_listed closed).inAngle

theorem closed_mark (nullable : Bool) : Closed allowedInHead (mark nullable) := by
  cases nullable with
  | true => exact .ordinary rfl rfl (.nil _)
  | false => exact .nil _

theorem closed_labelled {label : Option String} (names : ∀ name ∈ label, IsName name)
    (closed : Closed allowedInType text) : Closed (· ≠ ',') (labelled label text) := by
  have noComma (char : Char) (fine : allowedInType char = true) : decide (char ≠ ',') = true := by
    simp only [allowedInType, Bool.and_eq_true] at fine
    exact fine.1
  cases label with
  | none => exact closed.mono noComma
  | some name =>
    have nameClosed := (names name rfl).closed.mono allowedInType_of_allowedInHead
    rw [labelled_some]
    exact (nameClosed.mono noComma).append
      (.ordinary rfl rfl (.ordinary rfl rfl (closed.mono noComma)))

theorem closed_headText (closed : Closed allowedInHead text) (suspends : Bool) :
    Closed allowedInHead (headText suspends text) := by
  cases suspends with
  | true =>
    have word : Closed allowedInHead "suspend ".toList :=
      .of_ordinary (List.all_eq_true.mp (by decide)) (List.all_eq_true.mp (by decide))
    exact word.append closed
  | false => exact closed

theorem closed_plainFunctionText (closedHead : Closed allowedInHead head)
    (closedResult : Closed allowedInType result) :
    Closed allowedInType (functionText head result false) := by
  refine (closedHead.mono allowedInType_of_allowedInHead).append ?_
  exact .ordinary rfl rfl (.arrow rfl (.ordinary rfl rfl closedResult))

end

/-- A class with its type arguments, and maybe a question mark. -/
theorem IsName.spells_class {name : String} (isName : IsName name) (texts : List (List Char))
    (nullable : Bool) :
    Spells (name.toList ++ (inAngles texts ++ mark nullable)) (name.toList ++ inAngles texts)
      nullable := by
  refine ⟨(List.append_assoc _ _ _).symm, isName.spells.begins.append _, ?_⟩
  cases texts with
  | nil =>
    rw [inAngles, List.append_nil]
    exact isName.spells.ends
  | cons first others =>
    refine Text.EndsSolid.append ?_ _
    exact ⟨'<' :: listed (first :: others), '>', rfl, Or.inr (Or.inl rfl)⟩

/-- A text in parentheses, and maybe a question mark. -/
theorem spells_parenthesized (text : List Char) (nullable : Bool) :
    Spells (parenthesized text ++ mark nullable) (parenthesized text) nullable :=
  ⟨rfl, ⟨'(', _, rfl, Or.inr rfl⟩, ⟨'(' :: text, ')', rfl, Or.inr (Or.inr rfl)⟩⟩

/-- The text of a type without its question mark. -/
def unmarked (type : SourceType) : List Char := (WrittenType.splitNullable type.text).1

/-- What is known of the text of a type, whatever stands around it. -/
structure Prints (type : SourceType) : Prop where
  closed : Closed allowedInType type.text
  closedHead : type.isPlainFunction = false → Closed allowedInHead type.text
  spells : ∃ unmarked, Spells type.text unmarked type.endsInMark
  bare : TypeShape.withoutVariance type.text = type.text

namespace Prints

variable {type : SourceType}

theorem spells_unmarked (prints : type.Prints) :
    Spells type.text type.unmarked type.endsInMark := by
  obtain ⟨bare, spells⟩ := prints.spells
  rw [unmarked, spells.splitNullable]
  exact spells

theorem isPart {separator : Char} (prints : type.Prints) (without : allowedInType separator = false) :
    IsPart separator type.text := by
  obtain ⟨unmarked, spells⟩ := prints.spells
  exact prints.closed.isPart without spells.nonempty spells.isTight

theorem labelled {label : Option String} (prints : type.Prints)
    (names : ∀ name ∈ label, IsName name) :
    IsPart ',' (SourceType.labelled label type.text) := by
  have closed := closed_labelled names prints.closed
  obtain ⟨unmarked, spells⟩ := prints.spells
  cases label with
  | none => exact closed.isPart (by decide) spells.nonempty spells.isTight
  | some name =>
    have front : BeginsSolid (name.toList ++ [':', ' ']) :=
      (names name rfl).spells.begins.append _
    have whole : SourceType.labelled (some name) type.text = name.toList ++ [':', ' '] ++ type.text := by
      rw [labelled_some, List.append_assoc]
      rfl
    rw [whole] at closed ⊢
    exact closed.isPart (by decide) (spells.prepend front).nonempty (spells.prepend front).isTight

end Prints

theorem isUnspaced_named {name : String} (isName : IsName name) (texts : List (List Char))
    (nullable : Bool) : IsUnspaced (name.toList ++ (inAngles texts ++ mark nullable)) := by
  refine (IsUnspaced.of_name isName.2).append (.append ?_ ?_)
  · cases texts with
    | nil => exact .of_name (List.forall_mem_nil _)
    | cons first others => exact .cons (by decide) (by decide) _
  · cases nullable with
    | true => exact .cons (by decide) (by decide) _
    | false => exact .of_name (List.forall_mem_nil _)

theorem withoutVariance_of_isUnspaced {text : List Char} (unspaced : IsUnspaced text) :
    TypeShape.withoutVariance text = text := by
  rw [TypeShape.withoutVariance,
    Text.stripWord_of_isUnspaced (List.all_eq_true.mp (by decide)) unspaced,
    Text.stripWord_of_isUnspaced (List.all_eq_true.mp (by decide)) unspaced]

theorem closed_class {name : String} (isName : IsName name) {arguments : List SourceType}
    (prints : ∀ argument ∈ arguments, argument.Prints) :
    Closed allowedInHead (name.toList ++ inAngles (arguments.map text)) := by
  have inner : ∀ spelling ∈ arguments.map text, Closed (fun _ => true) spelling :=
    List.forall_mem_map.mpr fun argument member => (prints argument member).closed.all
  exact isName.closed.append (closed_inAngles inner _)

theorem prints_named {name : String} {arguments : List SourceType} {nullable : Bool}
    (isName : IsName name) (prints : ∀ argument ∈ arguments, argument.Prints) :
    (named name arguments nullable).Prints := by
  have closed : Closed allowedInHead (named name arguments nullable).text := by
    rw [text_named, ← List.append_assoc]
    exact (closed_class isName prints).append (closed_mark nullable)
  refine ⟨closed.mono allowedInType_of_allowedInHead, fun _ => closed, ?_, ?_⟩
  · rw [text_named]
    exact ⟨_, isName.spells_class _ nullable⟩
  · rw [text_named]
    exact withoutVariance_of_isUnspaced (isUnspaced_named isName _ nullable)

section

variable {suspends nullable : Bool} {receiver : Option SourceType}
  {parameters : List (Option String × SourceType)} {result : SourceType}

theorem beginsSolid_headText {signature : List Char} (begins : BeginsSolid signature)
    (suspends : Bool) : BeginsSolid (headText suspends signature) := by
  cases suspends with
  | true => exact ⟨'s', _, rfl, Or.inl (by decide)⟩
  | false => exact begins

theorem isUnspaced_of_not_isPlainFunction {type : SourceType} (named : type.OwnNames)
    (other : type.isPlainFunction = false) : IsUnspaced type.text := by
  cases type with
  | named name arguments nullable =>
    rw [text_named]
    exact isUnspaced_named named _ nullable
  | function suspends receiver parameters result nullable =>
    cases nullable with
    | false => cases other
    | true =>
      rw [text_function]
      exact .cons (by decide) (by decide) _

theorem mem_inputs_of_mem_receiver {type : SourceType} (member : type ∈ receiver) :
    type ∈ inputs receiver parameters :=
  List.mem_append_left _ (Option.mem_toList.mpr member)

theorem mem_inputs_of_mem_parameters {parameter : Option String × SourceType}
    (member : parameter ∈ parameters) : parameter.2 ∈ inputs receiver parameters :=
  List.mem_append_right _ (List.mem_map_of_mem member)

/-- What is known of a function type, whatever stands around it. -/
structure PrintsInside (receiver : Option SourceType)
    (parameters : List (Option String × SourceType)) (result : SourceType) : Prop where
  labels : ∀ parameter ∈ parameters, ∀ label ∈ parameter.1, IsName label
  receiverNamed : ∀ type ∈ receiver, type.OwnNames
  inputs : ∀ input ∈ inputs receiver parameters, input.Prints
  result : result.Prints

namespace PrintsInside

variable (printed : PrintsInside receiver parameters result)

include printed

theorem receivers : ∀ type ∈ receiver, type.Prints := fun type member =>
  printed.inputs type (mem_inputs_of_mem_receiver member)

theorem isPart_parameterTexts : ∀ text ∈ parameterTexts parameters, IsPart ',' text := by
  intro text member
  obtain ⟨parameter, inside, rfl⟩ := mem_parameterTexts.mp member
  exact (printed.inputs _ (mem_inputs_of_mem_parameters inside)).labelled
    (printed.labels parameter inside)

theorem closed_receiverText : Closed allowedInHead (receiverText receiver) := by
  cases receiver with
  | none => exact .nil _
  | some receiver =>
    have inside := printed.receivers receiver rfl
    refine .append ?_ (.ordinary rfl rfl (.nil _))
    split
    · exact inside.closed.inRound
    case isFalse other => exact inside.closedHead (Bool.eq_false_iff.mpr other)

theorem closed_signature : Closed allowedInHead (signature receiver parameters) := by
  refine printed.closed_receiverText.append (closed_listed fun spelling member => ?_).inRound
  obtain ⟨parameter, inside, rfl⟩ := mem_parameterTexts.mp member
  exact (closed_labelled (printed.labels parameter inside)
    (printed.inputs _ (mem_inputs_of_mem_parameters inside)).closed).all

theorem begins_signature : BeginsSolid (signature receiver parameters) := by
  cases receiver with
  | none => exact ⟨'(', _, rfl, Or.inr rfl⟩
  | some receiver =>
    refine .append (.append ?_ _) _
    split
    · exact ⟨'(', _, rfl, Or.inr rfl⟩
    · obtain ⟨unmarked, spells⟩ := (printed.receivers receiver rfl).spells
      exact spells.beginsSolid

theorem isUnspaced_signature (rest : List Char) :
    IsUnspaced (signature receiver parameters ++ rest) := by
  rw [signature, List.append_assoc]
  refine .append ?_ (.cons (by decide) (by decide) _)
  cases receiver with
  | none => exact .of_name nofun
  | some receiver =>
    refine .append ?_ (.of_name (List.all_eq_true.mp (by decide)))
    split
    · exact .cons (by decide) (by decide) _
    case isFalse other =>
      exact isUnspaced_of_not_isPlainFunction (printed.receiverNamed receiver rfl)
        (Bool.eq_false_iff.mpr other)

theorem closed_head (suspends : Bool) :
    Closed allowedInHead (headText suspends (signature receiver parameters)) :=
  closed_headText printed.closed_signature suspends

theorem spells_plain (suspends : Bool) {unmarked : List Char} {marked : Bool}
    (spells : Spells result.text unmarked marked) :
    Spells (function suspends receiver parameters result false).text
      (functionText (headText suspends (signature receiver parameters)) unmarked false) marked := by
  rw [text_function]
  exact spells.plainFunction (beginsSolid_headText printed.begins_signature suspends)

theorem prints_plain (suspends : Bool) :
    (function suspends receiver parameters result false).Prints := by
  obtain ⟨unmarked, spells⟩ := printed.result.spells
  refine ⟨?_, nofun, ⟨_, printed.spells_plain suspends spells⟩, ?_⟩
  · rw [text_function]
    exact closed_plainFunctionText (printed.closed_head suspends) printed.result.closed
  · rw [text_function]
    cases suspends with
    | true => rfl
    | false => exact withoutVariance_of_isUnspaced (printed.isUnspaced_signature _)

end PrintsInside

/-- A function with a question mark is written in parentheses. -/
theorem text_nullable (suspends : Bool) (receiver : Option SourceType)
    (parameters : List (Option String × SourceType)) (result : SourceType) :
    (function suspends receiver parameters result true).text =
      parenthesized (function suspends receiver parameters result false).text ++ mark true := by
  rw [text_function, text_function, functionText_true]

theorem PrintsInside.prints (printed : PrintsInside receiver parameters result)
    (suspends nullable : Bool) :
    (function suspends receiver parameters result nullable).Prints := by
  have plain := printed.prints_plain suspends
  cases nullable with
  | false => exact plain
  | true =>
    have closed : Closed allowedInHead
        (function suspends receiver parameters result true).text := by
      rw [text_nullable]
      exact plain.closed.inRound.append (closed_mark true)
    refine ⟨closed.mono allowedInType_of_allowedInHead, fun _ => closed, ?_, ?_⟩
    · rw [text_nullable]
      exact ⟨_, spells_parenthesized _ true⟩
    · rw [text_nullable]
      exact withoutVariance_of_isUnspaced (.cons (by decide) (by decide) _)

theorem WellNamed.printsInside_of
    (named : (function suspends receiver parameters result nullable).WellNamed)
    (inputs : ∀ input ∈ inputs receiver parameters, input.Prints) (last : result.Prints) :
    PrintsInside receiver parameters result := by
  obtain ⟨own, inner, -⟩ := everywhere_function_iff.mp named
  exact ⟨own, fun type member => inner type (mem_inputs_of_mem_receiver member) type (.self type),
    inputs, last⟩

/-- What is known of the text of a type holds of every type with dotted names. -/
theorem WellNamed.prints {type : SourceType} (named : type.WellNamed) : type.Prints := by
  induction type using SourceType.induction with
  | named name arguments nullable inductionHypothesis =>
    obtain ⟨own, inner⟩ := everywhere_named_iff.mp named
    exact prints_named own fun argument member =>
      inductionHypothesis argument member (inner argument member)
  | function suspends receiver parameters result nullable inputHypothesis resultHypothesis =>
    obtain ⟨-, inner, last⟩ := everywhere_function_iff.mp named
    have printed := named.printsInside_of
      (fun input member => inputHypothesis input member (inner input member))
      (resultHypothesis last)
    exact printed.prints suspends nullable

theorem WellNamed.printsInside
    (named : (function suspends receiver parameters result nullable).WellNamed) :
    PrintsInside receiver parameters result := by
  obtain ⟨-, inner, last⟩ := everywhere_function_iff.mp named
  exact named.printsInside_of (fun input member => WellNamed.prints (inner input member))
    (WellNamed.prints last)

end

end SourceType

end SourceCapture
