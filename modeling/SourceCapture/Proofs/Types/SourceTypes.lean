/-
Types as they are meant, and how they are written: classes with type arguments and functions with a
receiver and parameters, nested in any way, every one of which may admit null. A function is put in
parentheses where the text would otherwise mean another type: in front of a question mark, and where
it is a receiver. What such a type stands for is a reference in which a function is a class of its
own for each number of parameters.
-/

import Mathlib.Data.List.Basic
import SourceCapture.Text.Letters
import SourceCapture.TypeRef
import SourceCapture.WrittenType

namespace SourceCapture

/-- A type as it is meant. -/
inductive SourceType where
  | named (name : String) (arguments : List SourceType) (nullable : Bool)
  /-- Every parameter may have a name. -/
  | function (suspends : Bool) (receiver : Option SourceType)
      (parameters : List (Option String × SourceType)) (result : SourceType) (nullable : Bool)

namespace SourceType

/-! ### How types are written -/

/-- Texts with a comma between each two. -/
def listed (texts : List (List Char)) : List Char := [',', ' '].intercalate texts

/-- Type arguments, nothing if there are none. -/
def inAngles : List (List Char) → List Char
  | [] => []
  | first :: others => '<' :: (listed (first :: others) ++ ['>'])

def parenthesized (text : List Char) : List Char := '(' :: (text ++ [')'])

/-- The question mark behind a type that admits null. -/
def mark (nullable : Bool) : List Char := if nullable then ['?'] else []

/-- A parameter, with its name if it has one. -/
def labelled (label : Option String) (type : List Char) : List Char :=
  match label with
  | none => type
  | some name => [':', ' '].intercalate [name.toList, type]

/-- The part of a function type in front of the arrow. -/
def headText (suspends : Bool) (signature : List Char) : List Char :=
  (if suspends then "suspend ".toList else []) ++ signature

/-- A function type, in parentheses if a question mark follows. -/
def functionText (head result : List Char) (nullable : Bool) : List Char :=
  let text := head ++ (" -> ".toList ++ result)
  if nullable then parenthesized text ++ mark true else text

@[simp] theorem listed_nil : listed [] = [] := rfl

@[simp] theorem listed_singleton (text : List Char) : listed [text] = text :=
  List.intercalate_singleton

@[simp] theorem listed_cons_cons (first second : List Char) (others : List (List Char)) :
    listed (first :: second :: others) = first ++ ',' :: ' ' :: listed (second :: others) := by
  rw [listed, List.intercalate_cons_cons, List.append_assoc]
  rfl

theorem listed_cons (first : List Char) (others : List (List Char)) :
    listed (first :: others) = first ++ others.flatMap ([',', ' '] ++ ·) := by
  induction others generalizing first with
  | nil => rw [listed_singleton, List.flatMap_nil, List.append_nil]
  | cons second others inductionHypothesis =>
    rw [listed_cons_cons, inductionHypothesis, List.flatMap_cons, List.append_assoc]
    rfl

@[simp] theorem mark_true : mark true = ['?'] := rfl

@[simp] theorem mark_false : mark false = [] := rfl

@[simp] theorem labelled_none (type : List Char) : labelled none type = type := rfl

@[simp] theorem labelled_some (name : String) (type : List Char) :
    labelled (some name) type = name.toList ++ ':' :: ' ' :: type := by
  rw [labelled, List.intercalate_cons_cons, List.intercalate_singleton, List.append_assoc]
  rfl

@[simp] theorem functionText_false (head result : List Char) :
    functionText head result false = head ++ (" -> ".toList ++ result) := rfl

theorem functionText_true (head result : List Char) :
    functionText head result true =
      parenthesized (functionText head result false) ++ mark true := rfl

/-- Whether the type is a function without a question mark behind it. -/
def isPlainFunction : SourceType → Bool
  | .named _ _ _ => false
  | .function _ _ _ _ nullable => !nullable

mutual

/-- The type as it is written. -/
def text : SourceType → List Char
  | .named name arguments nullable => name.toList ++ (inAngles (texts arguments) ++ mark nullable)
  | .function suspends none parameters result nullable =>
    functionText (headText suspends (parenthesized (listed (parameterTexts parameters))))
      (text result) nullable
  | .function suspends (some receiver) parameters result nullable =>
    let before := if receiver.isPlainFunction then parenthesized (text receiver) else text receiver
    let signature := before ++ ['.'] ++ parenthesized (listed (parameterTexts parameters))
    functionText (headText suspends signature) (text result) nullable

/-- The types as they are written, in order. -/
def texts : List SourceType → List (List Char)
  | [] => []
  | first :: rest => text first :: texts rest

/-- The parameters as they are written, in order. -/
def parameterTexts : List (Option String × SourceType) → List (List Char)
  | [] => []
  | (label, type) :: rest => labelled label (text type) :: parameterTexts rest

end

/-- The receiver as it is written in front of the parameters, nothing if there is none. -/
def receiverText : Option SourceType → List Char
  | none => []
  | some receiver =>
    (if receiver.isPlainFunction then parenthesized receiver.text else receiver.text) ++ ['.']

/-- The receiver and the parameters as they are written. -/
def signature (receiver : Option SourceType) (parameters : List (Option String × SourceType)) :
    List Char :=
  receiverText receiver ++ parenthesized (listed (parameterTexts parameters))

theorem texts_eq_map (types : List SourceType) : texts types = types.map text := by
  induction types with
  | nil => rfl
  | cons first rest inductionHypothesis => rw [texts, inductionHypothesis, List.map_cons]

theorem parameterTexts_eq_map (parameters : List (Option String × SourceType)) :
    parameterTexts parameters = parameters.map fun parameter =>
      labelled parameter.1 parameter.2.text := by
  induction parameters with
  | nil => rfl
  | cons first rest inductionHypothesis => rw [parameterTexts, inductionHypothesis, List.map_cons]

theorem text_named (name : String) (arguments : List SourceType) (nullable : Bool) :
    (named name arguments nullable).text =
      name.toList ++ (inAngles (arguments.map text) ++ mark nullable) := by
  rw [text, texts_eq_map]

theorem mem_parameterTexts {spelling : List Char}
    {parameters : List (Option String × SourceType)} : spelling ∈ parameterTexts parameters ↔
      ∃ parameter ∈ parameters, labelled parameter.1 parameter.2.text = spelling := by
  rw [parameterTexts_eq_map, List.mem_map]

theorem text_function (suspends : Bool) (receiver : Option SourceType)
    (parameters : List (Option String × SourceType)) (result : SourceType) (nullable : Bool) :
    (function suspends receiver parameters result nullable).text =
      functionText (headText suspends (signature receiver parameters)) result.text nullable := by
  cases receiver with
  | none =>
    rw [text]
    rfl
  | some receiver =>
    rw [text]
    rfl

/-! ### What types stand for -/

mutual

/-- The type with every class name in it resolved. A function is applied to its receiver, its
parameters and its result, in that order. -/
def reference (lookUp : String → String) : SourceType → TypeRef
  | .named name arguments nullable => .of (lookUp name) (references lookUp arguments) nullable
  | .function _ none parameters result nullable =>
    .of s!"kotlin.Function{parameters.length}"
      (parameterReferences lookUp parameters ++ [reference lookUp result]) nullable
  | .function _ (some receiver) parameters result nullable =>
    .of s!"kotlin.Function{parameters.length + 1}"
      (reference lookUp receiver :: parameterReferences lookUp parameters ++
        [reference lookUp result]) nullable

/-- The types with every class name in them resolved, in order. -/
def references (lookUp : String → String) : List SourceType → List TypeRef
  | [] => []
  | first :: rest => reference lookUp first :: references lookUp rest

/-- The types of parameters with every class name in them resolved, in order. -/
def parameterReferences (lookUp : String → String) :
    List (Option String × SourceType) → List TypeRef
  | [] => []
  | (_, type) :: rest => reference lookUp type :: parameterReferences lookUp rest

end

/-- What a function is applied to but for its result: the receiver, if there is one, and the
parameters. -/
def inputs (receiver : Option SourceType) (parameters : List (Option String × SourceType)) :
    List SourceType :=
  receiver.toList ++ parameters.map Prod.snd

theorem references_eq_map (lookUp : String → String) (types : List SourceType) :
    references lookUp types = types.map (reference lookUp) := by
  induction types with
  | nil => rfl
  | cons first rest inductionHypothesis => rw [references, inductionHypothesis, List.map_cons]

theorem parameterReferences_eq_map (lookUp : String → String)
    (parameters : List (Option String × SourceType)) :
    parameterReferences lookUp parameters =
      (parameters.map Prod.snd).map (reference lookUp) := by
  induction parameters with
  | nil => rfl
  | cons first rest inductionHypothesis =>
    rw [parameterReferences, inductionHypothesis, List.map_cons, List.map_cons]

theorem reference_function (lookUp : String → String) (suspends : Bool)
    (receiver : Option SourceType) (parameters : List (Option String × SourceType))
    (result : SourceType) (nullable : Bool) :
    reference lookUp (.function suspends receiver parameters result nullable) =
      .of (WrittenType.functionClass (inputs receiver parameters).length)
        ((inputs receiver parameters).map (reference lookUp) ++ [reference lookUp result])
        nullable := by
  cases receiver with
  | none =>
    rw [reference, parameterReferences_eq_map, inputs, Option.toList_none, List.nil_append,
      List.length_map]
    rfl
  | some receiver =>
    rw [reference, parameterReferences_eq_map, inputs, Option.toList_some, List.singleton_append,
      List.length_cons, List.length_map, List.map_cons]
    rfl

/-! ### Parts -/

theorem sizeOf_lt_of_mem_inputs {suspends nullable : Bool} {receiver : Option SourceType}
    {parameters : List (Option String × SourceType)} {input result : SourceType}
    (member : input ∈ inputs receiver parameters) :
    sizeOf input < sizeOf (function suspends receiver parameters result nullable) := by
  rw [inputs, List.mem_append, Option.mem_toList, List.mem_map] at member
  rw [function.sizeOf_spec]
  rcases member with rfl | ⟨⟨label, type⟩, inside, rfl⟩
  · rw [Option.some.sizeOf_spec]
    omega
  · have small := List.sizeOf_lt_of_mem inside
    rw [Prod.mk.sizeOf_spec] at small
    dsimp only
    omega

/-- What holds of a type once it holds of the types it is made of holds of all types. -/
theorem induction {motive : SourceType → Prop}
    (named : ∀ name arguments nullable, (∀ argument ∈ arguments, motive argument) →
      motive (.named name arguments nullable))
    (function : ∀ suspends receiver parameters result nullable,
      (∀ input ∈ inputs receiver parameters, motive input) → motive result →
        motive (.function suspends receiver parameters result nullable)) :
    ∀ type, motive type
  | .named name arguments nullable => named name arguments nullable fun argument member =>
    have := List.sizeOf_lt_of_mem member
    induction named function argument
  | .function suspends receiver parameters result nullable =>
    function suspends receiver parameters result nullable
      (fun input member =>
        have : sizeOf input < sizeOf (SourceType.function suspends receiver parameters result
            nullable) := sizeOf_lt_of_mem_inputs member
        induction named function input)
      (induction named function result)
termination_by type => sizeOf type
decreasing_by
  · decreasing_tactic
  · assumption
  · decreasing_tactic

/-- Whether a type is another one or stands somewhere in it. -/
inductive IsPartOf : SourceType → SourceType → Prop where
  | self (type : SourceType) : IsPartOf type type
  | argument {part argument : SourceType} {name : String} {arguments : List SourceType}
      {nullable : Bool} (inside : IsPartOf part argument) (member : argument ∈ arguments) :
      IsPartOf part (.named name arguments nullable)
  | input {part input : SourceType} {suspends : Bool} {receiver : Option SourceType}
      {parameters : List (Option String × SourceType)} {result : SourceType} {nullable : Bool}
      (inside : IsPartOf part input) (member : input ∈ inputs receiver parameters) :
      IsPartOf part (.function suspends receiver parameters result nullable)
  | result {part : SourceType} {suspends : Bool} {receiver : Option SourceType}
      {parameters : List (Option String × SourceType)} {result : SourceType} {nullable : Bool}
      (inside : IsPartOf part result) :
      IsPartOf part (.function suspends receiver parameters result nullable)

/-- Whether something holds of a type and of all types in it. -/
def Everywhere (holds : SourceType → Prop) (type : SourceType) : Prop :=
  ∀ part, IsPartOf part type → holds part

section

variable {holds : SourceType → Prop} {name : String} {arguments : List SourceType}
  {suspends nullable : Bool} {receiver : Option SourceType}
  {parameters : List (Option String × SourceType)} {result : SourceType}

theorem everywhere_named_iff : Everywhere holds (.named name arguments nullable) ↔
    holds (.named name arguments nullable) ∧ ∀ argument ∈ arguments, Everywhere holds argument := by
  constructor
  · exact fun all => ⟨all _ (.self _), fun argument member part inside =>
      all part (.argument inside member)⟩
  · rintro ⟨here, inner⟩ part inside
    cases inside with
    | self => exact here
    | argument inside member => exact inner _ member part inside

theorem everywhere_function_iff :
    Everywhere holds (.function suspends receiver parameters result nullable) ↔
      holds (.function suspends receiver parameters result nullable) ∧
        (∀ input ∈ inputs receiver parameters, Everywhere holds input) ∧
          Everywhere holds result := by
  constructor
  · exact fun all => ⟨all _ (.self _), fun input member part inside =>
      all part (.input inside member), fun part inside => all part (.result inside)⟩
  · rintro ⟨here, inner, last⟩ part inside
    cases inside with
    | self => exact here
    | input inside member => exact inner _ member part inside
    | result inside => exact last part inside

end

/-! ### Names -/

end SourceType

namespace Text

/-- The characters of a dotted name. -/
def isNameChar (char : Char) : Bool := isAlphanumeric char || char = '_' || char = '.'

/-- The code points of white space. -/
def blankCodes : List Nat :=
  [0x09, 0x0A, 0x0B, 0x0C, 0x0D, 0x20, 0x85, 0xA0, 0x1680, 0x2000, 0x2001, 0x2002, 0x2003, 0x2004,
    0x2005, 0x2006, 0x2007, 0x2008, 0x2009, 0x200A, 0x2028, 0x2029, 0x202F, 0x205F, 0x3000]

theorem toNat_mem_blankCodes {char : Char} (blank : isBlank char = true) :
    char.toNat ∈ blankCodes := by
  simp only [isBlank, Bool.or_eq_true, Bool.and_eq_true, decide_eq_true_eq, beq_iff_eq] at blank
  simp only [blankCodes, List.mem_cons, List.not_mem_nil, or_false]
  omega

/-- White space is in no name. -/
theorem isBlank_of_isNameChar {char : Char} (inName : isNameChar char = true) :
    isBlank char = false := by
  refine Bool.eq_false_iff.mpr fun blank => ?_
  have others : ∀ code ∈ blankCodes, isNameChar (Char.ofNat code) = false := by
    decide +kernel
  have other := others _ (toNat_mem_blankCodes blank)
  rw [Char.ofNat_toNat, inName] at other
  cases other

/-- A name holds no character that is in no name. -/
theorem ne_of_isNameChar {char other : Char} (inName : isNameChar char = true)
    (outside : isNameChar other = false) : char ≠ other := by
  rintro rfl
  rw [inName] at outside
  cases outside

end Text

namespace SourceType

/-- Whether a text is a dotted name. -/
def IsName (name : String) : Prop :=
  name ≠ "" ∧ ∀ char ∈ name.toList, Text.isNameChar char = true

instance (name : String) : Decidable (IsName name) :=
  decidable_of_iff (name ≠ "" ∧ name.toList.all Text.isNameChar = true)
    (and_congr_right fun _ => List.all_eq_true)

/-- Whether the names that stand right in a type, and not in the types it is made of, are dotted
names. -/
def OwnNames : SourceType → Prop
  | .named name _ _ => IsName name
  | .function _ _ parameters _ _ =>
    ∀ parameter ∈ parameters, ∀ label ∈ parameter.1, IsName label

/-- Whether all names in a type are dotted names. -/
def WellNamed (type : SourceType) : Prop := Everywhere OwnNames type

end SourceType

end SourceCapture
