/-
Arrows and functions. Whatever a text is, reading it makes a function out of an arrow only, and
the texts of the types inside share out what else the text holds, so a type with more functions than
the text has dashes is never read. The text of a type has one dash for every function in it.
-/

import Mathlib.Data.List.Flatten
import SourceCapture.Proofs.Types.Reading

namespace SourceCapture

namespace Text

/-! ### What is cut out of a text -/

theorem exists_of_afterParenthesis? {text rest : List Char} {depth : Nat}
    (found : afterParenthesis? depth text = some rest) : ∃ front, text = front ++ ')' :: rest := by
  induction text generalizing depth with
  | nil => cases found
  | cons char tail inductionHypothesis =>
    rw [afterParenthesis?] at found
    split at found
    · obtain ⟨front, rfl⟩ := inductionHypothesis found
      exact ⟨char :: front, rfl⟩
    · split at found
      case isTrue closing =>
        split at found
        · cases found
          exact ⟨[], by rw [closing, List.nil_append]⟩
        · obtain ⟨front, rfl⟩ := inductionHypothesis found
          exact ⟨char :: front, rfl⟩
      case isFalse =>
        obtain ⟨front, rfl⟩ := inductionHypothesis found
        exact ⟨char :: front, rfl⟩

theorem afterNote?_sublist {text rest : List Char} (found : afterNote? text = some rest) :
    rest.Sublist text := by
  rw [afterNote?] at found
  split at found
  case h_1 inner same =>
    have named : (inner.dropWhile isNoteChar).Sublist text := by
      refine (inner.dropWhile_sublist isNoteChar).trans ?_
      refine .trans ?_ (trimStart_sublist text)
      rw [same]
      exact List.sublist_cons_self _ _
    dsimp only at found
    split at found
    · cases closing : afterParenthesis? 0 (inner.dropWhile isNoteChar) with
      | none =>
        rw [closing] at found
        cases found
        exact List.nil_sublist _
      | some after =>
        rw [closing] at found
        cases found
        obtain ⟨front, whole⟩ := exists_of_afterParenthesis? closing
        refine .trans ?_ named
        rw [whole]
        exact (List.sublist_cons_self _ _).trans (List.sublist_append_right front _)
    · cases found
      exact named
  case h_2 => cases found

theorem stripNotes_sublist (text : List Char) : (stripNotes text).Sublist text := by
  fun_induction stripNotes text with
  | case1 text rest found _ inductionHypothesis =>
    exact inductionHypothesis.trans (afterNote?_sublist found)
  | case2 text => exact trimStart_sublist text

theorem stripWord_sublist (word text : List Char) : (stripWord word text).Sublist text := by
  rw [stripWord]
  split
  case h_1 char rest found =>
    split
    · refine (trimStart_sublist _).trans ?_
      rw [stripStart?_eq_some.mp found]
      exact List.sublist_append_right word _
    · exact List.Sublist.refl text
  case h_2 => exact List.Sublist.refl text

theorem flatten_map_sublist {change : List Char → List Char}
    (smaller : ∀ text, (change text).Sublist text) (texts : List (List Char)) :
    (texts.map change).flatten.Sublist texts.flatten := by
  have kept : (texts.flatMap change).Sublist (texts.flatMap fun text => text) :=
    List.Sublist.flatMap_right texts fun text _ => smaller text
  rwa [List.flatMap_def, List.flatMap_id'] at kept

theorem flatten_extendFirst (char : Char) (pieces : List (List Char)) :
    (extendFirst char pieces).flatten = char :: pieces.flatten := by
  cases pieces <;> rfl

theorem flatten_piecesFrom_sublist (separator : Char) (text : List Char) :
    ∀ state, (piecesFrom separator state text).flatten.Sublist text := by
  induction text with
  | nil => exact fun state => List.Sublist.refl []
  | cons char rest inductionHypothesis =>
    intro state
    rw [piecesFrom]
    split
    · exact (inductionHypothesis _).cons char
    · rw [flatten_extendFirst]
      exact (inductionHypothesis _).cons_cons char

theorem flatten_splitTopLevel_sublist (separator : Char) (text : List Char) :
    (splitTopLevel separator text).flatten.Sublist text := by
  rw [splitTopLevel]
  refine (List.filter_sublist.flatten).trans ?_
  refine (flatten_map_sublist trim_sublist _).trans ?_
  exact flatten_piecesFrom_sublist separator text {}

theorem eq_append_of_splitArrowFrom? {text left right : List Char} :
    ∀ {depth previous}, splitArrowFrom? depth previous text = some (left, right) →
      text = left ++ '-' :: '>' :: right := by
  induction text generalizing left with
  | nil => exact nofun
  | cons char rest inductionHypothesis =>
    intro depth previous found
    rw [splitArrowFrom?] at found
    split at found
    case isTrue atArrow =>
      simp only [Bool.and_eq_true, decide_eq_true_eq] at atArrow
      obtain ⟨⟨rfl, -⟩, tip⟩ := atArrow
      cases found
      cases rest with
      | nil => cases tip
      | cons second others =>
        cases tip
        rfl
    case isFalse =>
      simp only [Option.map_eq_some_iff, Prod.mk.injEq, Prod.exists] at found
      obtain ⟨before, after, found, rfl, rfl⟩ := found
      rw [inductionHypothesis found, List.cons_append]

end Text

namespace TypeShape

/-! ### What is inside of a type -/

theorem parameterType_sublist (parameter : List Char) :
    (parameterType parameter).Sublist parameter := by
  rw [parameterType]
  split
  case h_1 name type same =>
    have kept := Text.flatten_splitTopLevel_sublist ':' parameter
    rw [same] at kept
    refine .trans ?_ kept
    rw [List.flatten_cons, List.flatten_singleton]
    exact List.sublist_append_right name type
  case h_2 => exact List.Sublist.refl parameter

theorem withoutVariance_sublist (argument : List Char) :
    (withoutVariance argument).Sublist argument :=
  (Text.stripWord_sublist _ _).trans (Text.stripWord_sublist _ argument)

theorem splitReceiver_sublist (left : List Char) :
    ((splitReceiver left).1.toList.flatten ++ (splitReceiver left).2).Sublist left := by
  rw [splitReceiver]
  split
  · exact List.Sublist.refl left
  · split
    case h_1 receiver parameters found =>
      rw [Text.eq_append_of_splitOnce? found, Option.toList_some, List.flatten_singleton]
      exact (List.Sublist.refl receiver).append (List.sublist_cons_self _ _)
    case h_2 => exact List.Sublist.refl left

theorem stripBoth?_sublist {opening closing text inner : List Char}
    (found : Text.stripBoth? opening closing text = some inner) : inner.Sublist text := by
  simp only [Text.stripBoth?, Option.bind_eq_some_iff, Text.stripStart?_eq_some,
    Text.stripEnd?_eq_some] at found
  obtain ⟨rest, rfl, rfl⟩ := found
  exact (List.sublist_append_left inner closing).trans (List.sublist_append_right opening _)

theorem flatten_functionParts_sublist (left : List Char) :
    (functionParts left).flatten.Sublist left := by
  have start : (Text.stripWord "suspend".toList (Text.trim left)).Sublist left :=
    (Text.stripWord_sublist _ _).trans (Text.trim_sublist left)
  refine .trans ?_ ((splitReceiver_sublist _).trans start)
  rw [functionParts]
  dsimp only
  rw [List.flatten_append]
  refine (List.Sublist.refl _).append ?_
  refine (Text.flatten_map_sublist parameterType_sublist _).trans ?_
  refine (Text.flatten_splitTopLevel_sublist ',' _).trans ?_
  generalize (splitReceiver _).2 = list
  cases found : Text.stripBoth? ['('] [')'] (Text.trim list) with
  | none => exact List.Sublist.refl list
  | some inner => exact (stripBoth?_sublist found).trans (Text.trim_sublist list)

theorem flatten_ofClass_sublist (text : List Char) :
    (ofClass text).inner.flatten.Sublist text := by
  rw [ofClass]
  split
  case h_1 name arguments same =>
    have kept : arguments.Sublist text := by
      split at same
      · cases same
        refine (List.dropLast_sublist _).trans ((List.tail_sublist _).trans ?_)
        exact List.dropWhile_sublist _
      · cases same
        exact List.nil_sublist text
    refine (Text.flatten_map_sublist withoutVariance_sublist _).trans ?_
    exact (Text.flatten_splitTopLevel_sublist ',' arguments).trans kept

/-- The outermost form of a type, by what is found in its text. -/
theorem ofText_cases (text : List Char) :
    (text = ['*'] ∧ ofText text = .star) ∨
      (∃ left result, text = left ++ '-' :: '>' :: result ∧
        ofText text = .function (functionParts left) result) ∨
      (Text.afterParenthesis? 0 text = some [] ∧ ofText text = .group text.tail.dropLast) ∨
      ofText text = ofClass text := by
  rw [ofText]
  split
  case isTrue star => exact Or.inl ⟨star, rfl⟩
  case isFalse =>
    split
    case h_1 left result found =>
      exact Or.inr (Or.inl ⟨left, result, Text.eq_append_of_splitArrowFrom? found, rfl⟩)
    case h_2 =>
      split
      case isTrue grouped =>
        simp only [Bool.and_eq_true, decide_eq_true_eq] at grouped
        exact Or.inr (Or.inr (Or.inl ⟨grouped.2, rfl⟩))
      case isFalse => exact Or.inr (Or.inr (Or.inr rfl))

end TypeShape

/-! ### Functions that are read -/

namespace WrittenType

mutual

/-- How many functions there are in a type. -/
def functions : WrittenType → Nat
  | .star _ => 0
  | .named _ arguments _ => functionsOfAll arguments
  | .function parameters result _ => functionsOfAll parameters + functions result + 1

/-- How many functions there are in the types. -/
def functionsOfAll : List WrittenType → Nat
  | [] => 0
  | first :: rest => functions first + functionsOfAll rest

end

theorem functions_orNullable (type : WrittenType) (more : Bool) :
    (type.orNullable more).functions = type.functions := by
  cases type <;> rw [orNullable, functions, functions]

theorem functionsOfAll_map_le {Item : Type} {read : Item → WrittenType} {spell : Item → List Char}
    {items : List Item} (each : ∀ item ∈ items, (read item).functions ≤ (spell item).count '-') :
    functionsOfAll (items.map read) ≤ (items.flatMap spell).count '-' := by
  induction items with
  | nil => exact Nat.zero_le _
  | cons first rest inductionHypothesis =>
    rw [List.forall_mem_cons] at each
    rw [List.map_cons, functionsOfAll, List.flatMap_cons, List.count_append]
    exact Nat.add_le_add each.1 (inductionHypothesis each.2)

theorem le_functionsOfAll_map {Item : Type} {read : Item → WrittenType} {spell : Item → List Char}
    {items : List Item} (each : ∀ item ∈ items, (spell item).count '-' ≤ (read item).functions) :
    (items.flatMap spell).count '-' ≤ functionsOfAll (items.map read) := by
  induction items with
  | nil => exact Nat.le_refl 0
  | cons first rest inductionHypothesis =>
    rw [List.forall_mem_cons] at each
    rw [List.map_cons, functionsOfAll, List.flatMap_cons, List.count_append]
    exact Nat.add_le_add each.1 (inductionHypothesis each.2)

theorem core_sublist (text : List Char) : (core text).1.Sublist text := by
  refine .trans ?_ ((Text.stripNotes_sublist _).trans (Text.trim_sublist text))
  rw [core, splitNullable]
  split
  · exact Text.dropEndWhile_sublist _ _
  · exact List.Sublist.refl _

/-- What holds of a text once it holds of the texts of the types inside holds of all texts. -/
theorem text_induction {motive : List Char → Prop}
    (step : ∀ text, (∀ part ∈ (TypeShape.ofText (core text).1).inner, motive part) → motive text)
    (text : List Char) : motive text :=
  step text fun part member =>
    have := length_lt_of_mem_core text part member
    text_induction step part
termination_by text.length

/-- Every function that is read uses up an arrow. -/
theorem functions_parse_le (text : List Char) : (parse text).functions ≤ text.count '-' := by
  induction text using text_induction with
  | step text inner =>
    refine .trans ?_ ((core_sublist text).count_le '-')
    rw [parse_eq]
    generalize (core text).1 = bare at inner ⊢
    have all : ∀ parts : List (List Char),
        (∀ part ∈ parts, (parse part).functions ≤ part.count '-') →
          functionsOfAll (parts.map parse) ≤ parts.flatten.count '-' := by
      intro parts each
      rw [← List.flatMap_id']
      exact functionsOfAll_map_le each
    rcases TypeShape.ofText_cases bare with ⟨-, shape⟩ | ⟨left, result, rfl, shape⟩ | ⟨-, shape⟩ | shape
    case inl =>
      rw [shape]
      exact Nat.zero_le _
    case inr.inl =>
      rw [shape] at inner ⊢
      have parts := all (TypeShape.functionParts left) fun part member =>
        inner part (List.mem_append_left _ member)
      have last := inner result (List.mem_append_right _ (List.mem_singleton_self result))
      have kept := (TypeShape.flatten_functionParts_sublist left).count_le '-'
      dsimp only
      rw [functions, List.count_append, List.count_cons_self, List.count_cons_of_ne (by decide)]
      omega
    case inr.inr.inl =>
      rw [shape] at inner ⊢
      have group := inner bare.tail.dropLast (List.mem_singleton_self _)
      have kept := ((List.dropLast_sublist _).trans (List.tail_sublist bare)).count_le '-'
      dsimp only
      rw [functions_orNullable]
      exact group.trans kept
    case inr.inr.inr =>
      have kept := (TypeShape.flatten_ofClass_sublist bare).count_le '-'
      rw [shape] at inner ⊢
      rw [TypeShape.ofClass] at kept inner ⊢
      exact (all _ inner).trans kept

end WrittenType

/-! ### Functions that are written -/

namespace SourceType

theorem count_listed (texts : List (List Char)) :
    (listed texts).count '-' = texts.flatten.count '-' := by
  cases texts with
  | nil => rfl
  | cons first others =>
    have separated : ∀ text : List Char, ([',', ' '] ++ text).count '-' = text.count '-' := by
      intro text
      rw [List.count_append]
      exact Nat.zero_add _
    rw [listed_cons, List.flatten_cons, List.count_append, List.count_append, List.count_flatMap,
      List.count_flatten]
    exact congrArg (_ + List.sum ·) (List.map_congr_left fun text _ => separated text)

theorem count_parenthesized (text : List Char) :
    (parenthesized text).count '-' = text.count '-' := by
  rw [parenthesized, List.count_cons_of_ne (by decide), List.count_append]
  rfl

theorem count_inAngles (texts : List (List Char)) :
    (inAngles texts).count '-' = texts.flatten.count '-' := by
  cases texts with
  | nil => rfl
  | cons first others =>
    rw [inAngles, List.count_cons_of_ne (by decide), List.count_append, count_listed]
    rfl

theorem count_mark (nullable : Bool) : (mark nullable).count '-' = 0 := by
  cases nullable <;> rfl

theorem IsName.count_eq {name : String} (isName : IsName name) : name.toList.count '-' = 0 :=
  List.count_eq_zero.mpr fun member => Text.ne_of_isNameChar (isName.2 _ member) (by decide) rfl

theorem count_labelled {label : Option String} (names : ∀ name ∈ label, IsName name)
    (text : List Char) : (labelled label text).count '-' = text.count '-' := by
  cases label with
  | none => rfl
  | some name =>
    rw [labelled_some, List.count_append, (names name rfl).count_eq, Nat.zero_add,
      List.count_cons_of_ne (by decide), List.count_cons_of_ne (by decide)]

theorem functionsOfAll_written {types : List SourceType}
    (each : ∀ type ∈ types, type.text.count '-' = type.written.functions) :
    WrittenType.functionsOfAll (types.map written) = (types.map text).flatten.count '-' := by
  rw [← List.flatMap_def]
  exact Nat.le_antisymm
    (WrittenType.functionsOfAll_map_le fun type member => (each type member).ge)
    (WrittenType.le_functionsOfAll_map fun type member => (each type member).le)

theorem count_receiverText (receiver : Option SourceType) :
    (receiverText receiver).count '-' = (receiver.toList.map text).flatten.count '-' := by
  cases receiver with
  | none => rfl
  | some receiver =>
    rw [receiverText, List.count_append, Option.toList_some, List.map_singleton,
      List.flatten_singleton]
    split
    · rw [count_parenthesized]
      rfl
    · rfl

theorem count_parameterTexts {parameters : List (Option String × SourceType)}
    (names : ∀ parameter ∈ parameters, ∀ label ∈ parameter.1, IsName label) :
    (parameterTexts parameters).flatten.count '-' =
      ((parameters.map Prod.snd).map text).flatten.count '-' := by
  rw [parameterTexts_eq_map, List.count_flatten, List.count_flatten, List.map_map, List.map_map,
    List.map_map]
  exact congrArg List.sum (List.map_congr_left fun parameter member =>
    count_labelled (names parameter member) _)

/-- There is one dash for every function in the text of a type. -/
theorem WellNamed.count_text {type : SourceType} (named : type.WellNamed) :
    type.text.count '-' = type.written.functions := by
  induction type using SourceType.induction with
  | named name arguments nullable inductionHypothesis =>
    obtain ⟨own, inner⟩ := everywhere_named_iff.mp named
    have arguments := functionsOfAll_written fun argument member =>
      inductionHypothesis argument member (inner argument member)
    rw [text_named, written_named, WrittenType.functions, arguments, List.count_append,
      List.count_append, own.count_eq, count_inAngles, count_mark, Nat.zero_add, Nat.add_zero]
  | function suspends receiver parameters result nullable inputHypothesis resultHypothesis =>
    obtain ⟨own, inner, last⟩ := everywhere_function_iff.mp named
    have inputs := functionsOfAll_written fun input member =>
      inputHypothesis input member (inner input member)
    have head : (headText suspends (signature receiver parameters)).count '-' =
        ((SourceType.inputs receiver parameters).map text).flatten.count '-' := by
      have words : (headText suspends (signature receiver parameters)).count '-' =
          (signature receiver parameters).count '-' := by
        cases suspends with
        | true =>
          rw [headText, List.count_append]
          exact Nat.zero_add _
        | false => rfl
      rw [words, signature, List.count_append, count_receiverText, count_parenthesized,
        count_listed, count_parameterTexts own, SourceType.inputs, List.map_append,
        List.flatten_append, List.count_append]
    have plain : (function suspends receiver parameters result false).text.count '-' =
        (function suspends receiver parameters result nullable).written.functions := by
      have arrow : (" -> ".toList ++ result.text).count '-' = result.text.count '-' + 1 := by
        rw [List.count_append]
        exact Nat.add_comm 1 _
      rw [text_function, functionText_false, List.count_append, arrow, head,
        written_function, WrittenType.functions, inputs, resultHypothesis last, Nat.add_assoc]
    cases nullable with
    | false => exact plain
    | true =>
      rw [text_nullable, List.count_append, count_parenthesized, plain]
      rfl

end SourceType

end SourceCapture
