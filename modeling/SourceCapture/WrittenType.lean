/-
Types as a source file writes them. A type is read off its text: annotations in front and
question marks behind are taken off, then an arrow outside of brackets makes it a function
type, parentheses around all of it a group, and anything else is a class name with type
arguments. Reading never fails; what is no type reads as the name that it spells.
-/

import SourceCapture.Text.Letters
import SourceCapture.Text.Nesting
import SourceCapture.Text.Pieces
import SourceCapture.TypeRef

namespace SourceCapture

/-! ### Annotations and words in front of a type -/

namespace Text

/-- The characters of the name of an annotation with its target. -/
def isNoteChar (char : Char) : Bool :=
  isAlphanumeric char || char = '_' || char = '.' || char = ':'

/-- What follows the annotation at the start of a text, if there is one. An argument list
that is not closed takes all of the text. -/
def afterNote? (text : List Char) : Option (List Char) :=
  match trimStart text with
  | '@' :: rest =>
    let after := rest.dropWhile isNoteChar
    if after.head? = some '(' then some ((afterParenthesis? 0 after).getD []) else some after
  | _ => none

theorem length_lt_of_afterNote? {text rest : List Char} (found : afterNote? text = some rest) :
    rest.length < text.length := by
  unfold afterNote? at found
  split at found
  case h_1 inner same =>
    have start := length_trimStart_le text
    have named := (inner.dropWhile_sublist isNoteChar).length_le
    rw [same] at start
    simp only [List.length_cons] at start
    dsimp only at found
    split at found
    · cases closing : afterParenthesis? 0 (inner.dropWhile isNoteChar) with
      | none =>
        simp only [closing, Option.getD_none, Option.some.injEq] at found
        simp only [← found, List.length_nil]
        omega
      | some after =>
        have short := length_lt_of_afterParenthesis? closing
        simp only [closing, Option.getD_some, Option.some.injEq] at found
        rw [← found]
        omega
    · simp only [Option.some.injEq] at found
      rw [← found]
      omega
  case h_2 => simp at found

/-- The text without the annotations and the white space at its start. -/
def stripNotes (text : List Char) : List Char :=
  match found : afterNote? text with
  | some rest =>
    have := length_lt_of_afterNote? found
    stripNotes rest
  | none => trimStart text
termination_by text.length

theorem length_stripNotes_le (text : List Char) : (stripNotes text).length ≤ text.length := by
  fun_induction stripNotes text with
  | case1 text rest found inductionHypothesis =>
    have short := length_lt_of_afterNote? found
    omega
  | case2 text => exact length_trimStart_le text

/-- The text without a word at its start and the white space after it. A longer word that
only starts with it stays. -/
def stripWord (word text : List Char) : List Char :=
  match stripStart? word text with
  | some (char :: rest) => if isBlank char then trimStart (char :: rest) else text
  | _ => text

theorem length_stripWord_le (word text : List Char) :
    (stripWord word text).length ≤ text.length := by
  unfold stripWord
  split
  case h_1 char rest found =>
    have whole := stripStart?_eq_some.mp found
    have start := length_trimStart_le (char :: rest)
    split
    · rw [whole, List.length_append]
      omega
    · exact Nat.le_refl _
  case h_2 => exact Nat.le_refl _

end Text

/-! ### The outermost form of a type -/

/-- A type with the texts of the types inside it not yet read. -/
inductive TypeShape where
  /-- The type argument that stands for any type. -/
  | star
  /-- A function: receiver and parameters, and the result. -/
  | function (parts : List (List Char)) (result : List Char)
  /-- A type in parentheses. -/
  | group (inner : List Char)
  /-- A class with type arguments. -/
  | named (name : String) (arguments : List (List Char))
  deriving Repr, DecidableEq

namespace TypeShape

/-- The texts of the types directly inside. -/
def inner : TypeShape → List (List Char)
  | .star => []
  | .function parts result => parts ++ [result]
  | .group inner => [inner]
  | .named _ arguments => arguments

/-- The text of the type of a parameter, which may be preceded by a name and a colon. -/
def parameterType (parameter : List Char) : List Char :=
  match Text.splitTopLevel ':' parameter with
  | [_, type] => type
  | _ => parameter

/-- The receiver of a function type, if it has one, and its parameter list, given the text
before the arrow. -/
def splitReceiver (left : List Char) : Option (List Char) × List Char :=
  if left.head? = some '(' then (none, left)
  else match Text.splitOnce? ['.', '('] left with
    | some (receiver, parameters) => (some receiver, '(' :: parameters)
    | none => (none, left)

/-- The texts of the types before the arrow of a function type. -/
def functionParts (left : List Char) : List (List Char) :=
  let (receiver, list) := splitReceiver (Text.stripWord "suspend".toList (Text.trim left))
  let parameters := (Text.stripBoth? ['('] [')'] (Text.trim list)).getD list
  receiver.toList ++ (Text.splitTopLevel ',' parameters).map parameterType

/-- A type argument without the word for its variance. -/
def withoutVariance (argument : List Char) : List Char :=
  Text.stripWord "in".toList (Text.stripWord "out".toList argument)

/-- The name and the type arguments of a class. -/
def ofClass (text : List Char) : TypeShape :=
  let isOpening := fun char => char = '<'
  let (name, arguments) :=
    if text.contains '<' && text.getLast? = some '>' then
      (text.takeWhile (!isOpening ·), (text.dropWhile (!isOpening ·)).tail.dropLast)
    else (text, [])
  .named (String.ofList (Text.removeBlanks name))
    ((Text.splitTopLevel ',' arguments).map withoutVariance)

/-- The outermost form of a type without annotations and question marks. -/
def ofText (text : List Char) : TypeShape :=
  if text = ['*'] then .star
  else match Text.splitArrow? text with
    | some (left, result) => .function (functionParts left) result
    | none =>
      if text.head? = some '(' && Text.afterParenthesis? 0 text = some [] then
        .group text.tail.dropLast
      else ofClass text

/-! ### The types inside are shorter -/

theorem length_parameterType_le (parameter : List Char) :
    (parameterType parameter).length ≤ parameter.length := by
  unfold parameterType
  split
  case h_1 name type same =>
    have member : type ∈ Text.splitTopLevel ':' parameter := by simp [same]
    exact Text.length_le_of_mem_splitTopLevel member
  case h_2 => exact Nat.le_refl _

theorem length_stripWord_trim_le (word text : List Char) :
    (Text.stripWord word (Text.trim text)).length ≤ text.length :=
  Nat.le_trans (Text.length_stripWord_le word (Text.trim text)) (Text.length_trim_le text)

theorem length_splitReceiver {left parameters : List Char} {receiver : Option (List Char)}
    (split : splitReceiver left = (receiver, parameters)) :
    parameters.length ≤ left.length ∧ ∀ type ∈ receiver, type.length ≤ left.length := by
  unfold splitReceiver at split
  split at split
  · cases split
    simp
  · split at split
    case h_1 before after found =>
      cases split
      have whole := Text.eq_append_of_splitOnce? found
      simp only [whole, List.length_append, List.length_cons, Option.mem_some_iff]
      constructor
      · omega
      · rintro type rfl
        omega
    case h_2 =>
      cases split
      simp

theorem length_stripBoth?_le {opening closing text inner : List Char}
    (strip : Text.stripBoth? opening closing text = some inner) : inner.length ≤ text.length := by
  simp only [Text.stripBoth?, Option.bind_eq_some_iff, Text.stripStart?_eq_some,
    Text.stripEnd?_eq_some] at strip
  obtain ⟨rest, whole, ended⟩ := strip
  simp only [whole, ended, List.length_append]
  omega

theorem length_le_of_mem_functionParts {left part : List Char}
    (member : part ∈ functionParts left) : part.length ≤ left.length := by
  unfold functionParts at member
  have start := length_stripWord_trim_le "suspend".toList left
  generalize Text.stripWord "suspend".toList (Text.trim left) = rest at member start
  cases split : splitReceiver rest with
  | mk receiver list =>
    obtain ⟨listShort, receiverShort⟩ := length_splitReceiver split
    simp only [split, List.mem_append, Option.mem_toList, List.mem_map] at member
    rcases member with member | ⟨parameter, parameterMember, rfl⟩
    · have short := receiverShort part member
      omega
    · have typeShort := length_parameterType_le parameter
      have parameterShort := Text.length_le_of_mem_splitTopLevel parameterMember
      have inside : ((Text.stripBoth? ['('] [')'] (Text.trim list)).getD list).length
          ≤ list.length := by
        cases strip : Text.stripBoth? ['('] [')'] (Text.trim list) with
        | none => simp
        | some inner =>
          have short := length_stripBoth?_le strip
          have trimmed := Text.length_trim_le list
          simp only [Option.getD_some]
          omega
      omega

theorem length_lt_of_mem_ofClass {text part : List Char} (member : part ∈ (ofClass text).inner) :
    part.length < text.length := by
  unfold ofClass at member
  dsimp only at member
  split at member
  case isTrue bracketed =>
    simp only [inner, List.mem_map, withoutVariance] at member
    obtain ⟨argument, argumentMember, rfl⟩ := member
    have first := Text.length_stripWord_le "out".toList argument
    have second := Text.length_stripWord_le "in".toList (Text.stripWord "out".toList argument)
    have short := Text.length_le_of_mem_splitTopLevel argumentMember
    have rest := (text.dropWhile_sublist fun char => !decide (char = '<')).length_le
    have positive : 0 < text.length := by
      cases text with
      | nil => simp at bracketed
      | cons char tail => simp
    simp only [List.length_dropLast, List.length_tail] at short
    omega
  case isFalse => simp [inner, Text.splitTopLevel, Text.piecesFrom, Text.trim] at member

theorem length_lt_of_mem_ofText {text part : List Char} (member : part ∈ (ofText text).inner) :
    part.length < text.length := by
  unfold ofText at member
  split at member
  · simp [inner] at member
  · split at member
    case h_1 left result arrow =>
      have short := Text.length_of_splitArrowFrom? arrow
      simp only [inner, List.mem_append, List.mem_singleton] at member
      rcases member with member | rfl
      · have inside := length_le_of_mem_functionParts member
        omega
      · omega
    case h_2 =>
      split at member
      case isTrue opened =>
        simp only [inner, List.mem_singleton] at member
        cases text with
        | nil => simp at opened
        | cons char rest =>
          simp only [member, List.tail_cons, List.length_dropLast, List.length_cons]
          omega
      case isFalse => exact length_lt_of_mem_ofClass member

end TypeShape

/-! ### Reading a type -/

/-- A type as it is written. Every type says whether a question mark follows it. -/
inductive WrittenType where
  | star (nullable : Bool)
  | named (name : String) (arguments : List WrittenType) (nullable : Bool)
  /-- The receiver, if there is one, counts as the first parameter. -/
  | function (parameters : List WrittenType) (result : WrittenType) (nullable : Bool)
  deriving Repr, Inhabited

namespace WrittenType

/-- The type with a question mark after it, if `more` says so. -/
def orNullable (more : Bool) : WrittenType → WrittenType
  | .star nullable => .star (nullable || more)
  | .named name arguments nullable => .named name arguments (nullable || more)
  | .function parameters result nullable => .function parameters result (nullable || more)

/-- The text before the question marks at the end of a type, and whether there are any. -/
def splitNullable (text : List Char) : List Char × Bool :=
  if text.getLast? = some '?' then
    (Text.dropEndWhile (fun char => char = '?' || Text.isBlank char) text, true)
  else (text, false)

/-- The text of a type without annotations and question marks, and whether there are any
question marks. -/
def core (text : List Char) : List Char × Bool :=
  splitNullable (Text.stripNotes (Text.trim text))

theorem length_core_le (text : List Char) : (core text).1.length ≤ text.length := by
  have trimmed := Text.length_trim_le text
  have stripped := Text.length_stripNotes_le (Text.trim text)
  unfold core splitNullable
  split
  · have ended := Text.length_dropEndWhile_le
      (fun char => char = '?' || Text.isBlank char) (Text.stripNotes (Text.trim text))
    dsimp only
    omega
  · dsimp only
    omega

theorem length_lt_of_mem_core (text : List Char) :
    ∀ part ∈ (TypeShape.ofText (core text).1).inner, part.length < text.length :=
  fun _ member =>
    Nat.lt_of_lt_of_le (TypeShape.length_lt_of_mem_ofText member) (length_core_le text)

/-- Reads a type. -/
def parse (text : List Char) : WrittenType :=
  match TypeShape.ofText (core text).1, length_lt_of_mem_core text with
  | .star, _ => .star (core text).2
  | .function parts result, shorter =>
    have := shorter result (by simp [TypeShape.inner])
    .function
      (parts.attach.map fun part =>
        have := shorter part.1 (by simp [TypeShape.inner, part.2])
        parse part.1)
      (parse result) (core text).2
  | .group inner, shorter =>
    have := shorter inner (by simp [TypeShape.inner])
    (parse inner).orNullable (core text).2
  | .named name arguments, shorter =>
    .named name
      (arguments.attach.map fun argument =>
        have := shorter argument.1 (by simp [TypeShape.inner, argument.2])
        parse argument.1)
      (core text).2
termination_by text.length

/-- A type is read by its outermost form, and the types inside it in the same way. -/
theorem parse_eq (text : List Char) :
    parse text =
      match TypeShape.ofText (core text).1 with
      | .star => .star (core text).2
      | .function parts result => .function (parts.map parse) (parse result) (core text).2
      | .group inner => (parse inner).orNullable (core text).2
      | .named name arguments => .named name (arguments.map parse) (core text).2 := by
  rw [parse]
  split
  case h_1 form _ => rw [form]
  case h_2 form _ => simp [form]
  case h_3 form _ => rw [form]
  case h_4 form _ => simp [form]

/-! ### Resolving the names in a type -/

/-- The name of the class of functions with that many parameters. -/
def functionClass (arity : Nat) : String := s!"kotlin.Function{arity}"

mutual

/-- The type with every class name in it resolved. A function is a type of its own for each
number of parameters, with the result as the last argument. -/
def resolve (lookUp : String → String) : WrittenType → TypeRef
  | .star nullable => .of "*" [] nullable
  | .named name arguments nullable =>
    .of (lookUp name) (resolveAll lookUp arguments) nullable
  | .function parameters result nullable =>
    .of (functionClass parameters.length)
      (resolveAll lookUp parameters ++ [resolve lookUp result]) nullable

/-- The types with every class name in them resolved. -/
def resolveAll (lookUp : String → String) : List WrittenType → List TypeRef
  | [] => []
  | first :: rest => resolve lookUp first :: resolveAll lookUp rest

end

mutual

/-- The class names in a type, those of the arguments before that of the type itself. -/
def names : WrittenType → List String
  | .star _ => []
  | .named name arguments _ => namesOfAll arguments ++ [name]
  | .function parameters result _ => namesOfAll parameters ++ names result

/-- The class names in the types, in order. -/
def namesOfAll : List WrittenType → List String
  | [] => []
  | first :: rest => names first ++ namesOfAll rest

end

end WrittenType

end SourceCapture
