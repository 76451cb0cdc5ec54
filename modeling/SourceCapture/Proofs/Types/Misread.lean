/-
Types that are misread. If the result of a function ends with a question mark, the function is read
as one that may be null, and what is left of the result is no longer the type that was written. A
receiver that is a class with a receiver in it is cut at the first one, in front of an arrow, so
fewer functions are read than were written. A receiver that is a function is read as part of the
first parameter, so there is a parameter too few, or, if there are none, a name with a parenthesis.
-/

import SourceCapture.Proofs.Types.Arrows

namespace SourceCapture

namespace Text

/-- A text is cut at its first dot in front of a parenthesis, at the latest at one that is known. -/
theorem exists_splitOnce? (left right : List Char) (last : Char) :
    ∃ before inner, splitOnce? ['.', '('] (left ++ '.' :: '(' :: (right ++ [last])) =
      some (before, inner ++ [last]) ∧ before <+: left := by
  induction left with
  | nil => exact ⟨[], right, rfl, List.prefix_refl []⟩
  | cons char rest inductionHypothesis =>
    rw [List.cons_append, splitOnce?]
    split
    case h_1 after found =>
      have same := (List.cons.inj (stripStart?_eq_some.mp found)).2
      cases rest with
      | nil => exact absurd (List.cons.inj same).1 (by decide)
      | cons second others =>
        refine ⟨[], others ++ '.' :: '(' :: right, ?_, List.nil_prefix⟩
        rw [List.append_assoc]
        exact congrArg (fun after => some (([] : List Char), after)) (List.cons.inj same).2.symm
    case h_2 =>
      obtain ⟨before, inner, found, within⟩ := inductionHypothesis
      refine ⟨char :: before, inner, ?_, List.cons_prefix_cons.mpr ⟨rfl, within⟩⟩
      rw [found]
      rfl

end Text

/-! ### Names with a parenthesis -/

namespace WrittenType

theorem mem_namesOfAll {name : String} {types : List WrittenType} :
    name ∈ namesOfAll types ↔ ∃ type ∈ types, name ∈ type.names := by
  induction types with
  | nil => exact ⟨nofun, nofun⟩
  | cons first rest inductionHypothesis =>
    rw [namesOfAll, List.mem_append, inductionHypothesis, List.exists_mem_cons_iff]

theorem core_of_endsOpen {text : List Char} (noNote : '@' ∉ text)
    (ends : text.getLast? = some '(') :
    ∃ bare, core text = (bare, false) ∧ '@' ∉ bare ∧ bare.getLast? = some '(' := by
  obtain ⟨head, split, blank, start⟩ := Text.exists_trimStart text
  have inside : Text.trimStart text ≠ [] := by
    intro nothing
    rw [nothing, List.append_nil] at split
    have opened := List.all_eq_true.mp blank '(' (split ▸ List.mem_of_getLast? ends)
    revert opened
    decide
  have kept : (Text.trimStart text).getLast? = some '(' := by
    rw [split, List.getLast?_append_of_ne_nil _ inside] at ends
    exact ends
  have last : ∀ char ∈ (Text.trimStart text).getLast?, Text.isBlank char = false := by
    rw [kept]
    rintro _ ⟨⟩
    decide
  have trimmed : Text.trim text = Text.trimStart text := by
    have cut := Text.trimEnd_append (show Text.allBlank [] = true from rfl) last
    rwa [List.append_nil] at cut
  have again : Text.trimStart (Text.trimStart text) = Text.trimStart text :=
    Text.trimStart_append (show Text.allBlank [] = true from rfl) start
  have noNoteInside : '@' ∉ Text.trimStart text := fun member =>
    noNote ((Text.trimStart_sublist text).mem member)
  have unnoted : (Text.trimStart (Text.trimStart text)).head? ≠ some '@' := fun note =>
    noNoteInside (again ▸ List.mem_of_mem_head? note)
  refine ⟨Text.trimStart text, ?_, noNoteInside, kept⟩
  rw [core, trimmed, Text.stripNotes_of_head?_ne unnoted, again, splitNullable, kept,
    if_neg (by decide)]

/-- A text with an open parenthesis at its end is read as a type with a name that has one. -/
theorem exists_name_of_endsOpen (text : List Char) (noNote : '@' ∉ text)
    (ends : text.getLast? = some '(') : ∃ name ∈ (parse text).names, '(' ∈ name.toList := by
  induction text using text_induction with
  | step text inner =>
    obtain ⟨bare, split, noNoteInside, endsInside⟩ := core_of_endsOpen noNote ends
    rw [split] at inner
    rw [parse_eq, split]
    rcases TypeShape.ofText_cases bare with ⟨rfl, -⟩ | ⟨left, result, rfl, shape⟩ | ⟨closed, -⟩ |
      shape
    case inl => cases endsInside
    case inr.inl =>
      have nonempty : result ≠ [] := by
        rintro rfl
        rw [List.getLast?_append_of_ne_nil _ (List.cons_ne_nil _ _)] at endsInside
        cases endsInside
      have whole : left ++ '-' :: '>' :: result = (left ++ ['-', '>']) ++ result := by
        rw [List.append_assoc]
        rfl
      have endsResult : result.getLast? = some '(' := by
        rwa [whole, List.getLast?_append_of_ne_nil _ nonempty] at endsInside
      have noNoteResult : '@' ∉ result := by
        rw [whole] at noNoteInside
        exact fun member => noNoteInside (List.mem_append_right _ member)
      dsimp only at inner ⊢
      rw [shape] at inner ⊢
      obtain ⟨name, member, opening⟩ := inner result
        (List.mem_append_right _ (List.mem_singleton_self result)) noNoteResult endsResult
      exact ⟨name, List.mem_append_right _ member, opening⟩
    case inr.inr.inl =>
      obtain ⟨front, rfl⟩ := Text.exists_of_afterParenthesis? closed
      rw [List.getLast?_concat] at endsInside
      cases endsInside
    case inr.inr.inr =>
      have notClosed : (bare.contains '<' && bare.getLast? = some '>') = false := by
        rw [endsInside]
        exact Bool.and_false _
      have opening : '(' ∈ Text.removeBlanks bare :=
        List.mem_filter.mpr ⟨List.mem_of_getLast? endsInside, by decide⟩
      dsimp only
      rw [shape, TypeShape.ofClass, notClosed]
      refine ⟨_, List.mem_append_right _ (List.mem_singleton_self _), ?_⟩
      rwa [String.toList_ofList]

end WrittenType

namespace SourceType

open Text (IsPart Passes isBlank)
open WrittenType (parse)

/-! ### Parts and their texts -/

theorem isInfix_listed {text : List Char} {texts : List (List Char)} (member : text ∈ texts) :
    text <:+: listed texts := by
  induction texts with
  | nil => cases member
  | cons first others inductionHypothesis =>
    rcases List.mem_cons.mp member with rfl | later
    · rw [listed_cons]
      exact (List.prefix_append _ _).isInfix
    · refine (inductionHypothesis later).trans ?_
      cases others with
      | nil => cases later
      | cons second others =>
        rw [listed_cons_cons]
        exact (((List.suffix_cons _ _).trans (List.suffix_cons _ _)).trans
          (List.suffix_append first _)).isInfix

theorem isInfix_parenthesized (text : List Char) : text <:+: parenthesized text :=
  ⟨['('], [')'], rfl⟩

/-- The text of a function without its question mark stands in the text of the function. -/
theorem isInfix_plain (suspends : Bool) (receiver : Option SourceType)
    (parameters : List (Option String × SourceType)) (result : SourceType) (nullable : Bool) :
    (function suspends receiver parameters result false).text <:+:
      (function suspends receiver parameters result nullable).text := by
  cases nullable with
  | false => exact List.infix_refl _
  | true =>
    rw [text_nullable]
    exact (isInfix_parenthesized _).trans (List.prefix_append _ _).isInfix

theorem isInfix_signature (suspends : Bool) (receiver : Option SourceType)
    (parameters : List (Option String × SourceType)) (result : SourceType) (nullable : Bool) :
    signature receiver parameters <:+:
      (function suspends receiver parameters result nullable).text := by
  refine .trans ?_ (isInfix_plain suspends receiver parameters result nullable)
  rw [text_function]
  exact (List.suffix_append _ _).isInfix.trans (List.prefix_append _ _).isInfix

/-- The text of a part of a type stands in the text of the type. -/
theorem IsPartOf.isInfix {part type : SourceType} (inside : IsPartOf part type) :
    part.text <:+: type.text := by
  induction inside with
  | self => exact List.infix_refl _
  | @argument argument name arguments nullable _ member inductionHypothesis =>
    refine inductionHypothesis.trans ((isInfix_listed (List.mem_map_of_mem member)).trans ?_)
    rw [text_named]
    cases arguments with
    | nil => cases member
    | cons first others =>
      refine .trans ?_ (List.suffix_append _ _).isInfix
      refine .trans ?_ (List.prefix_append _ _).isInfix
      exact ⟨['<'], ['>'], rfl⟩
  | @input input suspends receiver parameters result nullable _ member inductionHypothesis =>
    refine inductionHypothesis.trans (.trans ?_
      (isInfix_signature suspends receiver parameters result nullable))
    rw [signature]
    rcases List.mem_append.mp member with first | other
    · rw [Option.mem_toList] at first
      cases first
      refine .trans ?_ (List.prefix_append _ _).isInfix
      refine .trans ?_ (List.prefix_append _ _).isInfix
      split
      · exact isInfix_parenthesized _
      · exact List.infix_refl _
    · obtain ⟨⟨label, type⟩, parameter, rfl⟩ := List.mem_map.mp other
      refine .trans ?_ (List.suffix_append _ _).isInfix
      refine .trans ?_ (isInfix_parenthesized _)
      refine .trans ?_ (isInfix_listed (mem_parameterTexts.mpr ⟨_, parameter, rfl⟩))
      cases label with
      | none => exact List.infix_refl _
      | some name =>
        rw [labelled_some]
        exact (((List.suffix_cons _ _).trans (List.suffix_cons _ _)).trans
          (List.suffix_append name.toList _)).isInfix
  | @result suspends receiver parameters result nullable _ inductionHypothesis =>
    refine inductionHypothesis.trans (.trans ?_ (isInfix_plain suspends receiver parameters result
      nullable))
    rw [text_function]
    exact (List.suffix_append _ _).isInfix.trans (List.suffix_append _ _).isInfix

/-- A function with a receiver stands behind a dot in front of a parenthesis, and its arrow stands
behind both. -/
theorem exists_dot {type : SourceType} (without : ¬Everywhere HasNoReceiver type) :
    ∃ left right, type.text = left ++ '.' :: '(' :: right ∧ '-' ∈ right := by
  obtain ⟨part, without⟩ := not_forall.mp without
  obtain ⟨inside, has⟩ := Classical.not_imp.mp without
  cases part with
  | named => exact absurd trivial has
  | function suspends receiver parameters result nullable =>
    cases receiver with
    | none => exact absurd rfl has
    | some receiver =>
      obtain ⟨before, after, whole⟩ :=
        (isInfix_plain suspends (some receiver) parameters result nullable).trans inside.isInfix
      generalize dotless : (if receiver.isPlainFunction then parenthesized receiver.text
        else receiver.text) = front
      have arrow : '-' ∈ " -> ".toList ++ result.text :=
        List.mem_append_left _ (by decide)
      rw [text_function, functionText_false, headText, signature,
        receiverText, dotless, parenthesized] at whole
      refine ⟨before ++ ((if suspends then "suspend ".toList else []) ++ front),
        listed (parameterTexts parameters) ++ ')' :: (" -> ".toList ++ result.text ++ after), ?_, ?_⟩
      · rw [← whole]
        simp only [List.append_assoc, List.cons_append, List.nil_append]
      · refine List.mem_append_right _ (List.mem_cons_of_mem _ ?_)
        exact List.mem_append_left _ arrow

/-! ### Receivers that are classes -/

section

variable {parameters : List (Option String × SourceType)} {left right : List Char}

/-- A receiver that is a class is cut at the latest at a known dot in front of a parenthesis. -/
theorem exists_splitReceiver_class {name : String} (isName : IsName name)
    {arguments : List SourceType} {nullable : Bool}
    (whole : signature (some (.named name arguments nullable)) parameters =
      left ++ '.' :: '(' :: (right ++ [')'])) :
    ∃ before inner, TypeShape.splitReceiver
        (signature (some (.named name arguments nullable)) parameters) =
      (some before, parenthesized inner) ∧ before <+: left := by
  obtain ⟨before, inner, found, within⟩ := Text.exists_splitOnce? left right ')'
  refine ⟨before, inner, ?_, within⟩
  rw [TypeShape.splitReceiver, if_neg (head_signature_class isName arguments nullable parameters),
    whole, found]
  rfl

/-- What is cut off has fewer arrows than the class has functions, if one of them has a receiver. -/
theorem exists_splitReceiver_lt {name : String} {arguments : List SourceType} {nullable : Bool}
    (isName : IsName name)
    (without : ¬Everywhere HasNoReceiver (.named name arguments nullable))
    (parameters : List (Option String × SourceType)) :
    ∃ before inner, TypeShape.splitReceiver
        (signature (some (.named name arguments nullable)) parameters) =
      (some before, parenthesized inner) ∧
        before.count '-' < (SourceType.named name arguments nullable).text.count '-' := by
  obtain ⟨left, right, split, dash⟩ := exists_dot without
  have whole : signature (some (.named name arguments nullable)) parameters =
      left ++ '.' :: '(' :: ((right ++ '.' :: '(' :: listed (parameterTexts parameters)) ++ [')']) := by
    rw [signature_class, split, parenthesized]
    simp only [List.append_assoc, List.cons_append]
  obtain ⟨before, inner, cut, within⟩ := exists_splitReceiver_class isName whole
  refine ⟨before, inner, cut, ?_⟩
  have fewer := within.sublist.count_le '-'
  have later := List.count_pos_iff.mpr dash
  rw [split, List.count_append, List.count_cons_of_ne (by decide), List.count_cons_of_ne (by decide)]
  omega

/-! ### Receivers that are functions -/

/-- What is read as the parameters of a function whose receiver is a function: the receiver is
open at its end. -/
def unclosed (receiver : List Char) (nullable : Bool) (parameters : List Char) : List Char :=
  receiver ++ ')' :: (mark nullable ++ '.' :: '(' :: parameters)

theorem splitReceiver_of_function (suspends : Bool) (receiver : Option SourceType)
    (others : List (Option String × SourceType)) (result : SourceType) (nullable : Bool) :
    TypeShape.splitReceiver
        (signature (some (.function suspends receiver others result nullable)) parameters) =
      (none, parenthesized (unclosed (function suspends receiver others result false).text nullable
        (listed (parameterTexts parameters)))) := by
  have whole : signature (some (.function suspends receiver others result nullable)) parameters =
      parenthesized (unclosed (function suspends receiver others result false).text nullable
        (listed (parameterTexts parameters))) := by
    cases nullable with
    | false =>
      have isPlain : (function suspends receiver others result false).isPlainFunction := rfl
      rw [signature, receiverText, if_pos isPlain]
      simp only [parenthesized, unclosed, mark, List.append_assoc, List.cons_append,
        List.nil_append, Bool.false_eq_true, if_false]
    | true =>
      have notPlain : ¬(function suspends receiver others result true).isPlainFunction :=
        Bool.false_ne_true
      rw [signature, receiverText, if_neg notPlain, text_nullable]
      simp only [parenthesized, unclosed, List.append_assoc, List.cons_append, List.nil_append]
  rw [whole]
  rfl

theorem isPart_unclosed {type : SourceType} (prints : type.Prints) {separator : Char}
    (without : allowedInType separator = false) (nullable : Bool) {rest : List Char}
    (last : rest = [] ∨ IsPart separator rest) :
    IsPart separator (unclosed type.text nullable rest) := by
  have begins := prints.spells_unmarked.beginsSolid
  have ends : ∀ char ∈ (unclosed type.text nullable rest).getLast?, isBlank char = false := by
    have opened : unclosed type.text nullable rest =
        type.text ++ ')' :: (mark nullable ++ ['.']) ++ ['('] ++ rest := by
      simp only [unclosed, List.append_assoc, List.cons_append, List.nil_append]
    rw [opened]
    rcases last with rfl | isPart
    · rw [List.append_nil, List.getLast?_concat]
      rintro _ ⟨⟩
      decide
    · rw [List.getLast?_append_of_ne_nil _ isPart.nonempty]
      exact isPart.tight.2
  refine ⟨?_, ⟨(begins.append _).bare, ends⟩, ?_⟩
  · exact List.append_ne_nil_of_right_ne_nil _ (List.cons_ne_nil _ _)
  · intro state calm outside
    have inner := prints.closed.passes calm (by omega) fun _ => without
    refine inner.append fun next nextCalm same => .closes nextCalm rfl fun below belowCalm deeper => ?_
    have marked : Passes separator below (mark nullable) (-1) := by
      have depth : below.depth = -1 := by omega
      rw [← depth]
      cases nullable with
      | false => exact .nil belowCalm
      | true =>
        exact .ordinary belowCalm (by decide) (fun zero => absurd zero (by omega))
          fun after afterCalm kept => kept ▸ .nil afterCalm
    refine marked.append fun after afterCalm low => ?_
    refine .ordinary afterCalm (by decide) (fun zero => absurd zero (by omega)) ?_
    intro dotted dottedCalm kept
    refine .opens dottedCalm rfl fun inside insideCalm opened => ?_
    have depth : inside.depth = 0 := by omega
    rcases last with rfl | isPart
    · rw [← depth]
      exact .nil insideCalm
    · exact isPart.passes inside insideCalm depth

/-- The parameters of a function whose receiver is a function are read with one too few, unless there
are none. -/
theorem splitTopLevel_unclosed {type : SourceType} (prints : type.Prints) (nullable : Bool)
    {first : List Char} {others : List (List Char)}
    (areParts : ∀ text ∈ first :: others, IsPart ',' text) :
    Text.splitTopLevel ',' (unclosed type.text nullable (listed (first :: others))) =
      unclosed type.text nullable first :: others := by
  rw [List.forall_mem_cons] at areParts
  have whole : unclosed type.text nullable (listed (first :: others)) =
      listed (unclosed type.text nullable first :: others) := by
    rw [listed_cons, listed_cons]
    simp only [unclosed, List.append_assoc, List.cons_append]
  rw [whole]
  refine Text.splitTopLevel_intercalate (by decide) (by decide) (List.forall_mem_cons.mpr ⟨?_, ?_⟩)
  · exact isPart_unclosed prints (by decide) nullable (Or.inr areParts.1)
  · exact areParts.2

/-- Without parameters, what is left of the receiver is read as one. -/
theorem parameterType_unclosed {type : SourceType} (prints : type.Prints) (nullable : Bool) :
    (Text.splitTopLevel ',' (unclosed type.text nullable [])).map TypeShape.parameterType =
      [unclosed type.text nullable []] := by
  have single {separator : Char} (ordinary : Text.isOrdinary separator = true)
      (notSpace : separator ≠ ' ') (without : allowedInType separator = false) :
      Text.splitTopLevel separator (unclosed type.text nullable []) =
        [unclosed type.text nullable []] := by
    have isPart := isPart_unclosed prints without nullable (Or.inl rfl)
    have split := Text.splitTopLevel_intercalate ordinary notSpace
      (List.forall_mem_singleton.mpr isPart)
    rwa [List.intercalate_singleton] at split
  rw [single (by decide) (by decide) (by decide), List.map_singleton, TypeShape.parameterType,
    single (by decide) (by decide) (by decide)]

end

/-! ### Receivers that are misread -/

section

variable {name : String} {arguments : List SourceType} {suspends nullable : Bool}
  {receiver : Option SourceType} {parameters : List (Option String × SourceType)}
  {result : SourceType}

/-- The names in a type that is meant are those that were written. -/
theorem WellNamed.isName_of_mem_names {type : SourceType} (named : type.WellNamed) :
    ∀ name ∈ type.written.names, IsName name := by
  have all {types : List SourceType} (each : ∀ type ∈ types, ∀ name ∈ type.written.names,
      IsName name) : ∀ name ∈ WrittenType.namesOfAll (types.map written), IsName name := by
    intro name member
    obtain ⟨_, inside, here⟩ := WrittenType.mem_namesOfAll.mp member
    obtain ⟨type, typeMember, rfl⟩ := List.mem_map.mp inside
    exact each type typeMember name here
  induction type using SourceType.induction with
  | named name arguments nullable inductionHypothesis =>
    obtain ⟨own, inner⟩ := everywhere_named_iff.mp named
    rw [written_named, WrittenType.names, List.forall_mem_append]
    exact ⟨all fun argument member => inductionHypothesis argument member (inner argument member),
      List.forall_mem_singleton.mpr own⟩
  | function suspends receiver parameters result nullable inputHypothesis resultHypothesis =>
    obtain ⟨-, inner, last⟩ := everywhere_function_iff.mp named
    rw [written_function, WrittenType.names, List.forall_mem_append]
    exact ⟨all fun input member => inputHypothesis input member (inner input member),
      resultHypothesis last⟩

/-- The text in front of the arrow is always read as a list of parameters. -/
theorem WellNamed.exists_splitReceiver
    (named : (function suspends receiver parameters result nullable).WellNamed) :
    ∃ before inner, TypeShape.splitReceiver (signature receiver parameters) =
      (before, parenthesized inner) := by
  obtain ⟨-, inputsNamed, -⟩ := everywhere_function_iff.mp named
  cases receiver with
  | none => exact ⟨none, _, splitReceiver_of_none parameters⟩
  | some receiver =>
    cases receiver with
    | named name arguments nullable =>
      obtain ⟨own, -⟩ := everywhere_named_iff.mp
        (inputsNamed _ (mem_inputs_of_mem_receiver rfl))
      obtain ⟨before, inner, split, -⟩ :=
        exists_splitReceiver_class own (signature_class name arguments nullable parameters)
      exact ⟨some before, inner, split⟩
    | function => exact ⟨none, _, splitReceiver_of_function ..⟩

theorem parenthesized_injective {left right : List Char}
    (same : parenthesized left = parenthesized right) : left = right :=
  List.append_cancel_right (List.cons.inj same).2

/-- A receiver that is a class is not read as it is meant if a function in it has a receiver. -/
theorem parse_ne_of_class {before : Option (List Char)} {inner : List Char}
    (named : (SourceType.named name arguments nullable).WellNamed)
    (without : ¬Everywhere HasNoReceiver (.named name arguments nullable))
    (split : TypeShape.splitReceiver
      (signature (some (.named name arguments nullable)) parameters) = (before, parenthesized inner)) :
    ∀ parts, (before.toList ++ parts).map parse ≠
      (inputs (some (.named name arguments nullable)) parameters).map written := by
  intro parts read
  obtain ⟨own, -⟩ := everywhere_named_iff.mp named
  obtain ⟨cut, rest, found, fewer⟩ := exists_splitReceiver_lt own without parameters
  obtain ⟨rfl, -⟩ := Prod.mk.inj (split.symm.trans found)
  have same : parse cut = (SourceType.named name arguments nullable).written :=
    (List.cons.inj read).1
  have functions := WrittenType.functions_parse_le cut
  rw [same, ← named.count_text] at functions
  omega

/-- A receiver that is open at its end is not read as it is meant: it is counted with the first
parameter, and if there is none, what is left of it has a name with a parenthesis. -/
theorem parse_unclosed_ne {type plain : SourceType} (prints : plain.Prints)
    (names : ∀ name ∈ type.written.names, IsName name)
    (areParts : ∀ text ∈ parameterTexts parameters, IsPart ',' text) (nullable : Bool) :
    ((Text.splitTopLevel ',' (unclosed plain.text nullable
        (listed (parameterTexts parameters)))).map TypeShape.parameterType).map parse ≠
      (inputs (some type) parameters).map written := by
  intro read
  cases parameters with
  | nil =>
    have single : (Text.splitTopLevel ',' (unclosed plain.text nullable
        (listed (parameterTexts [])))).map TypeShape.parameterType =
          [unclosed plain.text nullable []] := parameterType_unclosed prints nullable
    rw [single] at read
    have same : parse (unclosed plain.text nullable []) = type.written := (List.cons.inj read).1
    have noNote : '@' ∉ unclosed plain.text nullable [] := by
      rw [unclosed, List.mem_append, not_or]
      refine ⟨prints.closed.not_mem_at, ?_⟩
      cases nullable <;> decide
    have ends : (unclosed plain.text nullable []).getLast? = some '(' := by
      rw [unclosed, List.getLast?_append_of_ne_nil _ (List.cons_ne_nil _ _)]
      cases nullable <;> rfl
    obtain ⟨name, member, opening⟩ := WrittenType.exists_name_of_endsOpen _ noNote ends
    rw [same] at member
    exact Text.ne_of_isNameChar ((names name member).2 _ opening) (by decide) rfl
  | cons first others =>
    obtain ⟨label, input⟩ := first
    rw [parameterTexts] at areParts read
    rw [splitTopLevel_unclosed prints nullable areParts] at read
    have lengths := congrArg List.length read
    simp only [List.length_map, List.length_cons, inputs, Option.toList_some,
      List.singleton_append, parameterTexts_eq_map] at lengths
    omega

/-- If the inputs of a function are read as they are meant, its receiver is a class that ends where
it is looked for. -/
theorem WellNamed.isPlainClass_of_read
    (named : (function suspends receiver parameters result nullable).WellNamed)
    {before : Option (List Char)} {inner : List Char}
    (split : TypeShape.splitReceiver (signature receiver parameters) =
      (before, parenthesized inner))
    (read : (before.toList ++ (Text.splitTopLevel ',' inner).map TypeShape.parameterType).map parse =
      (inputs receiver parameters).map written) :
    ∀ type ∈ receiver, IsPlainClass type := by
  rintro type ⟨⟩
  obtain ⟨own, inputsNamed, -⟩ := everywhere_function_iff.mp named
  have typeNamed : type.WellNamed := inputsNamed _ (mem_inputs_of_mem_receiver rfl)
  cases type with
  | named name arguments nullable =>
    exact Classical.byContradiction fun without => parse_ne_of_class typeNamed without split _ read
  | function others =>
    obtain ⟨rfl, same⟩ := Prod.mk.inj (split.symm.trans (splitReceiver_of_function ..))
    cases parenthesized_injective same
    exact absurd read (parse_unclosed_ne (typeNamed.printsInside.prints_plain others)
      typeNamed.isName_of_mem_names named.printsInside.isPart_parameterTexts _)

/-! ### Types that are misread -/

/-- What is left of a type without the question mark at its end is not read as the type. -/
theorem WellNamed.parse_unmarked_ne {type : SourceType} (named : type.WellNamed)
    (ends : type.endsInMark = true) : parse type.unmarked ≠ type.written := by
  induction type using SourceType.induction with
  | named name arguments nullable =>
    obtain ⟨own, inner⟩ := everywhere_named_iff.mp named
    rw [parse_unmarked_named own fun argument member => WellNamed.prints (inner argument member),
      written_named]
    intro same
    exact Bool.false_ne_true ((WrittenType.named.inj same).2.2.trans ends)
  | function suspends receiver parameters result nullable _ resultHypothesis =>
    obtain ⟨before, inner, split⟩ := named.exists_splitReceiver
    obtain ⟨-, -, last⟩ := everywhere_function_iff.mp named
    have printed := named.printsInside
    have plain := printed.parse_unmarked split suspends
    cases nullable with
    | false =>
      rw [plain, written_function]
      intro same
      exact resultHypothesis last ends (WrittenType.function.inj same).2.1
    | true =>
      -- Inside of the parentheses the mark of the result is taken for one of the function.
      rw [printed.parse_unmarked_nullable suspends, printed.parse_text, plain, written_function]
      intro same
      obtain ⟨-, sameResult, marked⟩ := WrittenType.function.inj same
      rw [Bool.false_or, Bool.false_or] at marked
      exact resultHypothesis last marked sameResult

theorem WellNamed.parse_eq_written_iff {type : SourceType} (named : type.WellNamed) :
    parse type.text = type.written ↔ type.Readable := by
  refine ⟨fun read => ?_, named.parse_eq_written⟩
  have all {types : List SourceType} (same : types.map (parse ∘ text) = types.map written) :
      ∀ type ∈ types, parse type.text = type.written := List.map_inj_left.mp same
  induction type using SourceType.induction with
  | named name arguments nullable inductionHypothesis =>
    obtain ⟨own, inner⟩ := everywhere_named_iff.mp named
    rw [named.prints.spells_unmarked.parse_eq, parse_unmarked_named own fun argument member =>
      WellNamed.prints (inner argument member), written_named] at read
    have arguments := all (WrittenType.named.inj read).2.1
    exact everywhere_named_iff.mpr ⟨trivial, fun argument member =>
      inductionHypothesis argument member (inner argument member) (arguments argument member)⟩
  | function suspends receiver parameters result nullable inputHypothesis resultHypothesis =>
    obtain ⟨before, list, split⟩ := named.exists_splitReceiver
    obtain ⟨-, inner, last⟩ := everywhere_function_iff.mp named
    have printed := named.printsInside
    rw [printed.parse_text, printed.parse_unmarked split suspends, written_function] at read
    obtain ⟨sameInputs, sameResult, -⟩ := WrittenType.function.inj read
    have ends : result.endsInMark = false :=
      Bool.eq_false_iff.mpr fun ends => WellNamed.parse_unmarked_ne last ends sameResult
    have receivers := named.isPlainClass_of_read split sameInputs
    have resultRead : parse result.text = result.written := by
      rwa [printed.result.unmarked_eq ends] at sameResult
    have inputsRead : (inputs receiver parameters).map (parse ∘ text) =
        (inputs receiver parameters).map written := by
      have whole := named.parse_unmarked receivers
      rw [printed.parse_unmarked split suspends] at whole
      exact (WrittenType.function.inj whole).1.symm.trans sameInputs
    exact everywhere_function_iff.mpr ⟨⟨ends, receivers⟩, fun input member =>
      inputHypothesis input member (inner input member) (all inputsRead input member),
      resultHypothesis last resultRead⟩

end

end SourceType

end SourceCapture
