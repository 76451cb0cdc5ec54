/-
Reading the texts of types. A class is read with the types in its angle brackets, and a function
with its parameters and its result: its arrow is the first one outside of brackets, and everything
in front of it is closed. Two things go wrong. A question mark at the end of the result is taken off
before the arrow is looked for, so it goes to the function. And the receiver ends at the first dot in
front of a parenthesis, unless the text starts with a parenthesis, so a receiver is read only if it
is a class and no function in it has a receiver. Every other type is read as it is meant.
-/

import SourceCapture.Proofs.Types.Receivers

namespace SourceCapture

/-! ### The outermost form -/

namespace TypeShape

open SourceType (IsName inAngles parenthesized listed labelled headText signature parameterTexts
  allowedInHead)
open Text (Closed IsPart IsUnspaced BeginsSolid isNameChar)

theorem ofText_arrow {allowed : Char → Bool} {left : List Char} (closed : Closed allowed left)
    (without : allowed '-' = false) (result : List Char) :
    ofText (left ++ '-' :: '>' :: result) = .function (functionParts left) result := by
  have notStar : left ++ '-' :: '>' :: result ≠ ['*'] := by
    intro same
    have length := congrArg List.length same
    simp only [List.length_append, List.length_cons, List.length_nil] at length
    omega
  rw [ofText, if_neg notStar, closed.splitArrow?_append without]

theorem ofText_parenthesized {allowed : Char → Bool} {inner : List Char}
    (closed : Closed allowed inner) : ofText (parenthesized inner) = .group inner := by
  have whole : Closed (fun _ => false) (parenthesized inner) := closed.inRound
  have ended : Text.afterParenthesis? 0 (parenthesized inner) = some [] := by
    rw [parenthesized, Text.afterParenthesis?, if_pos rfl,
      closed.afterParenthesis?_append (Nat.succ_ne_zero 0)]
    rfl
  have notStar : parenthesized inner ≠ ['*'] := fun same =>
    absurd (List.cons.inj same).1 (by decide)
  have isGroup : (parenthesized inner).head? = some '(' &&
      Text.afterParenthesis? 0 (parenthesized inner) = some [] := by
    rw [ended]
    rfl
  rw [ofText, if_neg notStar, whole.splitArrow?_eq_none rfl]
  dsimp only
  rw [if_pos isGroup, parenthesized, List.tail_cons, List.dropLast_concat]

/-- A text without arrow and parentheses is a class. -/
theorem ofText_class {text : List Char} (closed : Closed allowedInHead text)
    (begins : ∃ char rest, text = char :: rest ∧ isNameChar char = true) :
    ofText text = ofClass text := by
  obtain ⟨char, rest, rfl, inName⟩ := begins
  have notStar : char :: rest ≠ ['*'] := fun same =>
    Text.ne_of_isNameChar inName (by decide) (List.cons.inj same).1
  have notOpening : decide ((char :: rest).head? = some '(') = false :=
    decide_eq_false fun same => Text.ne_of_isNameChar inName (by decide) (Option.some.inj same)
  rw [ofText, if_neg notStar, closed.splitArrow?_eq_none rfl]
  dsimp only
  rw [notOpening, Bool.false_and, if_neg Bool.false_ne_true]

theorem ofClass_bare {name : List Char} (absent : '<' ∉ name) :
    ofClass name = .named (String.ofList (Text.removeBlanks name)) [] := by
  have unopened : name.contains '<' = false := by
    rwa [List.contains_eq_mem, decide_eq_false_iff_not]
  rw [ofClass, unopened, Bool.false_and]
  rfl

theorem ofClass_angles {name : List Char} (absent : '<' ∉ name) (inner : List Char) :
    ofClass (name ++ '<' :: (inner ++ ['>'])) =
      .named (String.ofList (Text.removeBlanks name))
        ((Text.splitTopLevel ',' inner).map withoutVariance) := by
  have outside : ∀ char ∈ name, (!decide (char = '<')) = true := by
    intro char member
    rw [Bool.not_eq_true', decide_eq_false_iff_not]
    rintro rfl
    exact absent member
  have opened : (name ++ '<' :: (inner ++ ['>'])).contains '<' = true := by
    rw [List.contains_iff_mem]
    exact List.mem_append_right _ List.mem_cons_self
  have closed : (name ++ '<' :: (inner ++ ['>'])).getLast? = some '>' := by
    rw [← List.cons_append, ← List.append_assoc, List.getLast?_concat]
  have taken : (name ++ '<' :: (inner ++ ['>'])).takeWhile (fun char => !decide (char = '<')) =
      name := by
    rw [List.takeWhile_append_of_pos outside, List.takeWhile_cons_of_neg (by decide),
      List.append_nil]
  have dropped : (name ++ '<' :: (inner ++ ['>'])).dropWhile (fun char => !decide (char = '<')) =
      '<' :: (inner ++ ['>']) := by
    rw [List.dropWhile_append_of_pos outside, List.dropWhile_cons_of_neg (by decide)]
  have whole : (name ++ '<' :: (inner ++ ['>'])).contains '<' &&
      (name ++ '<' :: (inner ++ ['>'])).getLast? = some '>' := by
    rw [opened, closed]
    rfl
  rw [ofClass, if_pos whole]
  dsimp only
  rw [taken, dropped, List.tail_cons, List.dropLast_concat]

theorem ofClass_inAngles {name : String} (isName : IsName name) {texts : List (List Char)}
    (areParts : ∀ text ∈ texts, IsPart ',' text)
    (bare : ∀ text ∈ texts, withoutVariance text = text) :
    ofClass (name.toList ++ inAngles texts) = .named name texts := by
  have absent : '<' ∉ name.toList := fun member =>
    Text.ne_of_isNameChar (isName.2 _ member) (by decide) rfl
  have kept : String.ofList (Text.removeBlanks name.toList) = name := by
    have all : Text.removeBlanks name.toList = name.toList := by
      refine List.filter_eq_self.mpr fun char member => ?_
      rw [Text.isBlank_of_isNameChar (isName.2 char member)]
      rfl
    rw [all, String.ofList_toList]
  cases texts with
  | nil => rw [inAngles, List.append_nil, ofClass_bare absent, kept]
  | cons first others =>
    have items : Text.splitTopLevel ',' (listed (first :: others)) = first :: others :=
      Text.splitTopLevel_intercalate (by decide) (by decide) areParts
    rw [inAngles, ofClass_angles absent, kept, items, List.map_congr_left bare, List.map_id']

/-! ### Receivers and parameters -/

theorem isTight_parenthesized (text : List Char) : Text.IsTight (parenthesized text) :=
  BeginsSolid.isTight ⟨'(', _, rfl, Or.inr rfl⟩ ⟨'(' :: text, ')', rfl, Or.inr (Or.inr rfl)⟩

theorem stripWord_suspend {signature : List Char} (begins : BeginsSolid signature)
    (unspaced : IsUnspaced signature) (suspends : Bool) :
    Text.stripWord "suspend".toList (headText suspends signature) = signature := by
  cases suspends with
  | true =>
    have found : Text.stripStart? "suspend".toList (headText true signature) =
        some (' ' :: signature) := Text.stripStart?_eq_some.mpr rfl
    rw [Text.stripWord, found]
    exact Text.trimStart_append (show Text.allBlank [' '] = true from rfl) begins.bare
  | false => exact Text.stripWord_of_isUnspaced (List.all_eq_true.mp (by decide)) unspaced

/-- The receiver and the parameters of a function, given where its receiver ends. -/
theorem functionParts_headText {receiver : Option SourceType}
    {parameters : List (Option String × SourceType)} {result : SourceType}
    (printed : SourceType.PrintsInside receiver parameters result) {before : Option (List Char)}
    {inner : List Char}
    (split : splitReceiver (signature receiver parameters) = (before, parenthesized inner))
    (suspends : Bool) :
    functionParts (headText suspends (signature receiver parameters) ++ [' ']) =
      before.toList ++ (Text.splitTopLevel ',' inner).map parameterType := by
  have unspaced := printed.isUnspaced_signature []
  rw [List.append_nil] at unspaced
  have ends : Text.EndsSolid (headText suspends (signature receiver parameters)) := by
    rw [headText, signature]
    exact .append (.append ⟨'(' :: _, ')', rfl, Or.inr (Or.inr rfl)⟩ _) _
  have tight := (SourceType.beginsSolid_headText printed.begins_signature suspends).isTight ends
  have trimmed : Text.trim (headText suspends (signature receiver parameters) ++ [' ']) =
      headText suspends (signature receiver parameters) :=
    tight.trim_append_blank (show Text.allBlank [' '] = true from rfl)
  have list : Text.trim (parenthesized inner) = parenthesized inner :=
    (isTight_parenthesized inner).trims.trim_eq
  rw [functionParts, trimmed, stripWord_suspend printed.begins_signature unspaced, split]
  dsimp only
  rw [list, parenthesized, Text.stripBoth?_surrounded, Option.getD_some]

/-- The type of a parameter is what follows its name. -/
theorem parameterType_labelled {type : SourceType} (prints : type.Prints) {label : Option String}
    (names : ∀ name ∈ label, IsName name) :
    parameterType (labelled label type.text) = type.text := by
  have typePart : IsPart ':' type.text := prints.isPart (by decide)
  cases label with
  | none =>
    have single : Text.splitTopLevel ':' ([':', ' '].intercalate [type.text]) = [type.text] :=
      Text.splitTopLevel_intercalate (by decide) (by decide)
        (List.forall_mem_singleton.mpr typePart)
    rw [List.intercalate_singleton] at single
    rw [labelled, parameterType, single]
  | some name =>
    have isName := names name rfl
    have namePart : IsPart ':' name.toList :=
      isName.closed.isPart (by decide) isName.nonempty isName.spells.isTight
    have split : Text.splitTopLevel ':' (labelled (some name) type.text) =
        [name.toList, type.text] := by
      refine Text.splitTopLevel_intercalate (by decide) (by decide) ?_
      exact List.forall_mem_cons.mpr ⟨namePart, List.forall_mem_singleton.mpr typePart⟩
    rw [parameterType, split]

/-- The types of the parameters of a function are read off its parameter list. -/
theorem map_parameterType_listed {receiver : Option SourceType}
    {parameters : List (Option String × SourceType)} {result : SourceType}
    (printed : SourceType.PrintsInside receiver parameters result) :
    (Text.splitTopLevel ',' (listed (parameterTexts parameters))).map parameterType =
      (parameters.map Prod.snd).map SourceType.text := by
  rw [listed, Text.splitTopLevel_intercalate (by decide) (by decide) printed.isPart_parameterTexts,
    SourceType.parameterTexts_eq_map, List.map_map, List.map_map]
  exact List.map_congr_left fun parameter member => parameterType_labelled
    (printed.inputs _ (SourceType.mem_inputs_of_mem_parameters member))
    (printed.labels parameter member)

end TypeShape

/-! ### Reading a text -/

namespace WrittenType

variable {text unmarked : List Char} {marked : Bool} {name : String} {texts : List (List Char)}
  {result inner : List Char}

theorem parse_named (bare : core text = (unmarked, marked))
    (shape : TypeShape.ofText unmarked = .named name texts) :
    parse text = .named name (texts.map parse) marked := by
  rw [parse_eq, bare, shape]

theorem parse_function (bare : core text = (unmarked, marked))
    (shape : TypeShape.ofText unmarked = .function texts result) :
    parse text = .function (texts.map parse) (parse result) marked := by
  rw [parse_eq, bare, shape]

theorem parse_group (bare : core text = (unmarked, marked))
    (shape : TypeShape.ofText unmarked = .group inner) :
    parse text = (parse inner).orNullable marked := by
  rw [parse_eq, bare, shape]

theorem orNullable_false (type : WrittenType) : type.orNullable false = type := by
  cases type <;> rw [orNullable, Bool.or_false]

theorem orNullable_orNullable (type : WrittenType) (first second : Bool) :
    (type.orNullable first).orNullable second = type.orNullable (first || second) := by
  cases type <;> rw [orNullable, orNullable, orNullable, Bool.or_assoc]

theorem resolveAll_eq_map (lookUp : String → String) (types : List WrittenType) :
    resolveAll lookUp types = types.map (resolve lookUp) := by
  induction types with
  | nil => rfl
  | cons first rest inductionHypothesis => rw [resolveAll, inductionHypothesis, List.map_cons]

end WrittenType

namespace SourceType

open Text (Closed)
open WrittenType (parse)

namespace Spells

variable {text unmarked : List Char} {marked : Bool}

theorem core_eq (spells : Spells text unmarked marked) :
    WrittenType.core text = (unmarked, marked) := by
  have bare := spells.core (show Text.allBlank [] = true from rfl)
    (show Text.allBlank [] = true from rfl)
  rwa [List.append_nil, List.nil_append] at bare

theorem withoutMark (spells : Spells text unmarked marked) : Spells unmarked unmarked false :=
  ⟨(List.append_nil _).symm, spells.begins, spells.ends⟩

/-- A question mark at the end is read last. -/
theorem parse_eq (spells : Spells text unmarked marked) :
    parse text = (parse unmarked).orNullable marked := by
  rw [WrittenType.parse_eq, WrittenType.parse_eq unmarked, spells.core_eq, spells.withoutMark.core_eq]
  cases TypeShape.ofText unmarked with
  | star | function | named => rfl
  | group inner => exact (WrittenType.orNullable_orNullable (parse inner) false marked).symm

/-- The space behind an arrow does not matter. -/
theorem parse_spaced (spells : Spells text unmarked marked) : parse (' ' :: text) = parse text := by
  have spaced := spells.core (show Text.allBlank [' '] = true from rfl)
    (show Text.allBlank [] = true from rfl)
  rw [List.append_nil, List.singleton_append, ← spells.core_eq] at spaced
  rw [WrittenType.parse_eq, WrittenType.parse_eq text, spaced]

end Spells

/-! ### Types as they are read -/

mutual

/-- What reading the type should give. -/
def written : SourceType → WrittenType
  | .named name arguments nullable => .named name (writtenAll arguments) nullable
  | .function _ none parameters result nullable =>
    .function (writtenParameters parameters) (written result) nullable
  | .function _ (some receiver) parameters result nullable =>
    .function (written receiver :: writtenParameters parameters) (written result) nullable

/-- What reading the types should give, in order. -/
def writtenAll : List SourceType → List WrittenType
  | [] => []
  | first :: rest => written first :: writtenAll rest

/-- What reading the types of parameters should give, in order. -/
def writtenParameters : List (Option String × SourceType) → List WrittenType
  | [] => []
  | (_, type) :: rest => written type :: writtenParameters rest

end

theorem writtenAll_eq_map (types : List SourceType) : writtenAll types = types.map written := by
  induction types with
  | nil => rfl
  | cons first rest inductionHypothesis => rw [writtenAll, inductionHypothesis, List.map_cons]

theorem writtenParameters_eq_map (parameters : List (Option String × SourceType)) :
    writtenParameters parameters = (parameters.map Prod.snd).map written := by
  induction parameters with
  | nil => rfl
  | cons first rest inductionHypothesis =>
    rw [writtenParameters, inductionHypothesis, List.map_cons, List.map_cons]

theorem written_named (name : String) (arguments : List SourceType) (nullable : Bool) :
    (named name arguments nullable).written = .named name (arguments.map written) nullable := by
  rw [written, writtenAll_eq_map]

theorem written_function (suspends : Bool) (receiver : Option SourceType)
    (parameters : List (Option String × SourceType)) (result : SourceType) (nullable : Bool) :
    (function suspends receiver parameters result nullable).written =
      .function ((inputs receiver parameters).map written) result.written nullable := by
  cases receiver with
  | none => rw [written, writtenParameters_eq_map, inputs, Option.toList_none, List.nil_append]
  | some receiver =>
    rw [written, writtenParameters_eq_map, inputs, Option.toList_some, List.singleton_append,
      List.map_cons]

/-- A type that is read as it is meant stands for what it is meant to stand for. -/
theorem resolve_written (lookUp : String → String) (type : SourceType) :
    type.written.resolve lookUp = type.reference lookUp := by
  induction type using SourceType.induction with
  | named name arguments nullable inductionHypothesis =>
    rw [written_named, reference, WrittenType.resolve, WrittenType.resolveAll_eq_map,
      references_eq_map, List.map_map]
    exact congrArg (TypeRef.of _ · _) (List.map_congr_left inductionHypothesis)
  | function suspends receiver parameters result nullable inputHypothesis resultHypothesis =>
    have same : (inputs receiver parameters).map (WrittenType.resolve lookUp ∘ written) =
        (inputs receiver parameters).map (reference lookUp) :=
      List.map_congr_left inputHypothesis
    rw [written_function, reference_function, WrittenType.resolve, WrittenType.resolveAll_eq_map,
      List.map_map, List.length_map, resultHypothesis, same]

/-! ### Classes and functions -/

namespace Prints

variable {type : SourceType} (prints : type.Prints)

include prints

theorem unmarked_eq (ends : type.endsInMark = false) : type.unmarked = type.text := by
  have split := prints.spells_unmarked.split
  rw [ends] at split
  exact (split.trans (List.append_nil _)).symm

theorem parse_spaced : parse (' ' :: type.unmarked) = parse type.unmarked :=
  prints.spells_unmarked.withoutMark.parse_spaced

end Prints

/-- What a class is read as without its question mark. -/
theorem parse_unmarked_named {name : String} (isName : IsName name) {arguments : List SourceType}
    (prints : ∀ argument ∈ arguments, argument.Prints) (nullable : Bool) :
    parse (named name arguments nullable).unmarked =
      .named name (arguments.map (parse ∘ text)) false := by
  have spells := isName.spells_class (arguments.map text) nullable
  have same : (named name arguments nullable).unmarked =
      name.toList ++ inAngles (arguments.map text) := by
    rw [unmarked, text_named, spells.splitNullable]
  have areParts : ∀ spelling ∈ arguments.map text, Text.IsPart ',' spelling :=
    List.forall_mem_map.mpr fun argument member => (prints argument member).isPart (by decide)
  have bare : ∀ spelling ∈ arguments.map text, TypeShape.withoutVariance spelling = spelling :=
    List.forall_mem_map.mpr fun argument member => (prints argument member).bare
  have begins : ∃ char rest, name.toList ++ inAngles (arguments.map text) = char :: rest ∧
      Text.isNameChar char = true := by
    obtain ⟨char, rest, split⟩ := List.exists_cons_of_ne_nil isName.nonempty
    refine ⟨char, rest ++ inAngles (arguments.map text), ?_, ?_⟩
    · rw [split, List.cons_append]
    · exact isName.2 char (split ▸ List.mem_cons_self)
  have shape : TypeShape.ofText (name.toList ++ inAngles (arguments.map text)) =
      .named name (arguments.map text) :=
    (TypeShape.ofText_class (closed_class isName prints) begins).trans
      (TypeShape.ofClass_inAngles isName areParts bare)
  rw [same, WrittenType.parse_named spells.withoutMark.core_eq shape, List.map_map]

section

variable {receiver : Option SourceType} {parameters : List (Option String × SourceType)}
  {result : SourceType}

namespace PrintsInside

variable (printed : PrintsInside receiver parameters result)

include printed

/-- What a function is read as without a question mark, given where its receiver ends. -/
theorem parse_unmarked {before : Option (List Char)} {inner : List Char}
    (split : TypeShape.splitReceiver (signature receiver parameters) =
      (before, parenthesized inner)) (suspends : Bool) :
    parse (function suspends receiver parameters result false).unmarked =
      .function ((before.toList ++ (Text.splitTopLevel ',' inner).map
        TypeShape.parameterType).map parse) (parse result.unmarked) false := by
  have spells := printed.spells_plain suspends printed.result.spells_unmarked
  have same : (function suspends receiver parameters result false).unmarked =
      (headText suspends (signature receiver parameters) ++ [' ']) ++
        '-' :: '>' :: ' ' :: result.unmarked := by
    rw [unmarked, spells.splitNullable, List.append_assoc]
    rfl
  have closed : Closed allowedInHead (headText suspends (signature receiver parameters) ++ [' ']) :=
    (printed.closed_head suspends).append (.ordinary rfl rfl (.nil _))
  have shape := TypeShape.ofText_arrow closed rfl (' ' :: result.unmarked)
  rw [TypeShape.functionParts_headText printed split, ← same] at shape
  have bare := (printed.prints_plain suspends).spells_unmarked.withoutMark.core_eq
  rw [WrittenType.parse_function bare shape, printed.result.parse_spaced]

/-- Parentheses are read as what stands in them. -/
theorem parse_unmarked_nullable (suspends : Bool) :
    parse (function suspends receiver parameters result true).unmarked =
      parse (function suspends receiver parameters result false).text := by
  have spells := spells_parenthesized (function suspends receiver parameters result false).text true
  have same : (function suspends receiver parameters result true).unmarked =
      parenthesized (function suspends receiver parameters result false).text := by
    rw [unmarked, text_nullable, spells.splitNullable]
  rw [same, WrittenType.parse_group spells.withoutMark.core_eq
    (TypeShape.ofText_parenthesized (printed.prints_plain suspends).closed),
    WrittenType.orNullable_false]

/-- The question mark at the end of the result is read as one of the function. -/
theorem parse_text (suspends nullable : Bool) :
    parse (function suspends receiver parameters result nullable).text =
      (parse (function suspends receiver parameters result false).unmarked).orNullable
        (nullable || result.endsInMark) := by
  have plain : parse (function suspends receiver parameters result false).text =
      (parse (function suspends receiver parameters result false).unmarked).orNullable
        result.endsInMark :=
    (printed.prints_plain suspends).spells_unmarked.parse_eq
  cases nullable with
  | false => exact plain
  | true =>
    rw [(printed.prints suspends true).spells_unmarked.parse_eq,
      printed.parse_unmarked_nullable suspends, plain, WrittenType.orNullable_orNullable,
      Bool.or_comm]
    rfl

end PrintsInside

/-! ### Types that are read as they are meant -/

/-- Whether a type is read as it is meant, if those that it is made of are: the result of a function
must not end with a question mark, and its receiver must end at the first dot in front of a
parenthesis. -/
def ReadsHere : SourceType → Prop
  | .named _ _ _ => True
  | .function _ receiver _ result _ =>
    result.endsInMark = false ∧ ∀ type ∈ receiver, IsPlainClass type

/-- Whether a type is read as it is meant. -/
def Readable (type : SourceType) : Prop := Everywhere ReadsHere type

/-- The receiver and the parameters of a function are found in its text. -/
theorem WellNamed.parts_eq {suspends nullable : Bool}
    (named : (function suspends receiver parameters result nullable).WellNamed)
    (ends : ∀ type ∈ receiver, IsPlainClass type) :
    ∃ before, TypeShape.splitReceiver (signature receiver parameters) =
        (before, parenthesized (listed (parameterTexts parameters))) ∧
      before.toList ++ (Text.splitTopLevel ',' (listed (parameterTexts parameters))).map
        TypeShape.parameterType = (inputs receiver parameters).map text := by
  have printed := named.printsInside
  have list := TypeShape.map_parameterType_listed printed
  cases receiver with
  | none => exact ⟨none, splitReceiver_of_none parameters, list⟩
  | some receiver =>
    obtain ⟨-, inner, -⟩ := everywhere_function_iff.mp named
    have receiverNamed : receiver.WellNamed := inner _ (mem_inputs_of_mem_receiver rfl)
    refine ⟨_, splitReceiver_of_isPlainClass receiverNamed (ends receiver rfl) parameters, ?_⟩
    rw [list]
    rfl

/-- What a function is read as if its receiver is found. -/
theorem WellNamed.parse_unmarked {suspends nullable : Bool}
    (named : (function suspends receiver parameters result nullable).WellNamed)
    (ends : ∀ type ∈ receiver, IsPlainClass type) :
    parse (function suspends receiver parameters result false).unmarked =
      .function ((inputs receiver parameters).map (parse ∘ text)) (parse result.unmarked) false := by
  obtain ⟨before, split, parts⟩ := named.parts_eq ends
  rw [named.printsInside.parse_unmarked split suspends, parts, List.map_map]

end

/-- A type that is read as it is meant, is. -/
theorem WellNamed.parse_eq_written {type : SourceType} (named : type.WellNamed)
    (readable : type.Readable) : parse type.text = type.written := by
  induction type using SourceType.induction with
  | named name arguments nullable inductionHypothesis =>
    obtain ⟨own, inner⟩ := everywhere_named_iff.mp named
    obtain ⟨-, others⟩ := everywhere_named_iff.mp readable
    have prints : ∀ argument ∈ arguments, argument.Prints := fun argument member =>
      WellNamed.prints (inner argument member)
    have read : arguments.map (parse ∘ text) = arguments.map written :=
      List.map_congr_left fun argument member =>
        inductionHypothesis argument member (inner argument member) (others argument member)
    rw [named.prints.spells_unmarked.parse_eq, parse_unmarked_named own prints, read, written_named]
    exact congrArg (WrittenType.named name _) (Bool.false_or nullable)
  | function suspends receiver parameters result nullable inputHypothesis resultHypothesis =>
    obtain ⟨-, inner, last⟩ := everywhere_function_iff.mp named
    obtain ⟨⟨ends, receivers⟩, others, lastReadable⟩ := everywhere_function_iff.mp readable
    have printed := named.printsInside
    have read : (inputs receiver parameters).map (parse ∘ text) =
        (inputs receiver parameters).map written :=
      List.map_congr_left fun input member =>
        inputHypothesis input member (inner input member) (others input member)
    rw [named.printsInside.parse_text, named.parse_unmarked receivers, read,
      printed.result.unmarked_eq ends, resultHypothesis last lastReadable, written_function, ends,
      Bool.or_false]
    exact congrArg (WrittenType.function _ _) (Bool.false_or nullable)

end SourceType

end SourceCapture
