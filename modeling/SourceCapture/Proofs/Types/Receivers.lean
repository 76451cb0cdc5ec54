/-
Where the receiver of a function type ends. The receiver is what stands in front of the first dot
that a parenthesis follows. In the text of a type such a dot is written behind a receiver only, so a
receiver that is a class ends there if no function in it has a receiver of its own.
-/

import Mathlib.Data.List.Chain
import SourceCapture.Proofs.Types.Spelling

namespace SourceCapture

namespace Text

/-! ### Dots in front of parentheses -/

/-- Whether no dot stands in front of a parenthesis. -/
def IsUndotted (text : List Char) : Prop :=
  text.IsChain fun first second => first = '.' → second ≠ '('

namespace IsUndotted

variable {char : Char} {text left right : List Char}

theorem of_not_mem (absent : '(' ∉ text) : IsUndotted text := by
  induction text with
  | nil => exact .nil
  | cons char rest inductionHypothesis =>
    rw [List.mem_cons, not_or] at absent
    refine List.isChain_cons.mpr ⟨?_, inductionHypothesis absent.2⟩
    rintro next member - rfl
    exact absent.2 (List.mem_of_mem_head? member)

theorem cons (other : char ≠ '.') (undotted : IsUndotted text) : IsUndotted (char :: text) :=
  List.isChain_cons.mpr ⟨fun _ _ same => absurd same other, undotted⟩

theorem append_cons (first : IsUndotted left) (notDot : char ≠ '.') (notOpening : char ≠ '(')
    (second : IsUndotted right) : IsUndotted (left ++ char :: right) := by
  refine List.isChain_append.mpr ⟨first, second.cons notDot, ?_⟩
  rintro last - _ ⟨⟩ -
  exact notOpening

/-- The first dot in front of a parenthesis is not inside of such a text. -/
theorem splitOnce?_append (undotted : IsUndotted text) (rest : List Char) :
    splitOnce? ['.', '('] (text ++ '.' :: '(' :: rest) = some (text, rest) := by
  induction text with
  | nil => rfl
  | cons char tail inductionHypothesis =>
    obtain ⟨next, inner⟩ := List.isChain_cons.mp undotted
    have stays : stripStart? ['.', '('] (char :: (tail ++ '.' :: '(' :: rest)) = none := by
      rw [Option.eq_none_iff_forall_ne_some]
      intro after found
      obtain ⟨rfl, same⟩ := List.cons.inj (stripStart?_eq_some.mp found)
      cases tail with
      | nil => cases same
      | cons second others => exact next second rfl rfl (List.cons.inj same).1
    rw [List.cons_append, splitOnce?, stays, inductionHypothesis inner]
    rfl

end IsUndotted

end Text

namespace SourceType

open Text (IsUndotted)

section

variable {parameters : List (Option String × SourceType)} {result : SourceType}

/-! ### Types without receivers -/

/-- Whether a type is no function with a receiver. -/
def HasNoReceiver : SourceType → Prop
  | .named _ _ _ => True
  | .function _ receiver _ _ _ => receiver = none

/-- Whether a type is a class and no function in it has a receiver. -/
def IsPlainClass : SourceType → Prop
  | .named name arguments nullable => Everywhere HasNoReceiver (.named name arguments nullable)
  | .function _ _ _ _ _ => False

theorem isUndotted_listed {texts : List (List Char)}
    (undotted : ∀ text ∈ texts, IsUndotted text) : IsUndotted (listed texts) := by
  induction texts with
  | nil => exact .of_not_mem List.not_mem_nil
  | cons first others inductionHypothesis =>
    rw [List.forall_mem_cons] at undotted
    cases others with
    | nil =>
      rw [listed_singleton]
      exact undotted.1
    | cons second others =>
      rw [listed_cons_cons]
      exact undotted.1.append_cons (by decide) (by decide)
        ((inductionHypothesis undotted.2).cons (by decide))

theorem isUndotted_parenthesized {text : List Char} (undotted : IsUndotted text) :
    IsUndotted (parenthesized text) :=
  .cons (by decide) (undotted.append_cons (by decide) (by decide) (.of_not_mem List.not_mem_nil))

theorem IsName.isUndotted {name : String} (isName : IsName name) : IsUndotted name.toList :=
  .of_not_mem fun member => Text.ne_of_isNameChar (isName.2 _ member) (by decide) rfl

theorem isUndotted_append_mark {text : List Char} (undotted : IsUndotted text) (nullable : Bool) :
    IsUndotted (text ++ mark nullable) := by
  cases nullable with
  | true => exact undotted.append_cons (by decide) (by decide) (.of_not_mem List.not_mem_nil)
  | false => rwa [mark_false, List.append_nil]

theorem isUndotted_named {name : String} {arguments : List SourceType} {nullable : Bool}
    (isName : IsName name) (undotted : ∀ argument ∈ arguments, IsUndotted argument.text) :
    IsUndotted (named name arguments nullable).text := by
  rw [text_named, ← List.append_assoc]
  refine isUndotted_append_mark ?_ nullable
  cases arguments with
  | nil =>
    rw [List.map_nil, inAngles, List.append_nil]
    exact isName.isUndotted
  | cons first others =>
    have inner : IsUndotted (listed ((first :: others).map text)) :=
      isUndotted_listed (List.forall_mem_map.mpr undotted)
    exact isName.isUndotted.append_cons (by decide) (by decide)
      (inner.append_cons (by decide) (by decide) (.of_not_mem List.not_mem_nil))

theorem isUndotted_labelled {label : Option String} (names : ∀ name ∈ label, IsName name)
    {text : List Char} (undotted : IsUndotted text) : IsUndotted (labelled label text) := by
  cases label with
  | none => exact undotted
  | some name =>
    rw [labelled_some]
    exact (names name rfl).isUndotted.append_cons (by decide) (by decide)
      (undotted.cons (by decide))

theorem isUndotted_function {suspends nullable : Bool}
    (labels : ∀ parameter ∈ parameters, ∀ label ∈ parameter.1, IsName label)
    (undotted : ∀ input ∈ inputs none parameters, IsUndotted input.text)
    (last : IsUndotted result.text) :
    IsUndotted (function suspends none parameters result nullable).text := by
  have inner : IsUndotted (listed (parameterTexts parameters)) := by
    refine isUndotted_listed fun spelling member => ?_
    obtain ⟨parameter, inside, rfl⟩ := mem_parameterTexts.mp member
    exact isUndotted_labelled (labels parameter inside)
      (undotted _ (mem_inputs_of_mem_parameters inside))
  have head : IsUndotted (headText suspends (signature none parameters)) := by
    have list := isUndotted_parenthesized inner
    cases suspends with
    | true =>
      have word : IsUndotted "suspend".toList := .of_not_mem (by decide)
      exact word.append_cons (by decide) (by decide) list
    | false => exact list
  have plain : IsUndotted (function suspends none parameters result false).text := by
    rw [text_function]
    exact head.append_cons (by decide) (by decide)
      (.cons (by decide) (.cons (by decide) (.cons (by decide) last)))
  cases nullable with
  | true =>
    rw [text_nullable]
    exact isUndotted_append_mark (isUndotted_parenthesized plain) true
  | false => exact plain

/-- A dot stands in front of a parenthesis only behind a receiver. -/
theorem WellNamed.isUndotted {type : SourceType} (named : type.WellNamed)
    (without : Everywhere HasNoReceiver type) : IsUndotted type.text := by
  induction type using SourceType.induction with
  | named name arguments nullable inductionHypothesis =>
    obtain ⟨own, inner⟩ := everywhere_named_iff.mp named
    obtain ⟨-, others⟩ := everywhere_named_iff.mp without
    exact isUndotted_named own fun argument member =>
      inductionHypothesis argument member (inner argument member) (others argument member)
  | function suspends receiver parameters result nullable inputHypothesis resultHypothesis =>
    obtain ⟨own, inner, last⟩ := everywhere_function_iff.mp named
    obtain ⟨here, others, lastWithout⟩ := everywhere_function_iff.mp without
    cases here
    exact isUndotted_function own
      (fun input member => inputHypothesis input member (inner input member) (others input member))
      (resultHypothesis last lastWithout)

/-! ### Where a receiver ends -/

theorem splitReceiver_of_none (parameters : List (Option String × SourceType)) :
    TypeShape.splitReceiver (signature none parameters) =
      (none, parenthesized (listed (parameterTexts parameters))) := rfl

theorem signature_class (name : String) (arguments : List SourceType) (nullable : Bool)
    (parameters : List (Option String × SourceType)) :
    signature (some (.named name arguments nullable)) parameters =
      (SourceType.named name arguments nullable).text ++
        '.' :: parenthesized (listed (parameterTexts parameters)) := by
  rw [signature, receiverText, List.append_assoc]
  rfl

theorem head_signature_class {name : String} (isName : IsName name) (arguments : List SourceType)
    (nullable : Bool) (parameters : List (Option String × SourceType)) :
    (signature (some (.named name arguments nullable)) parameters).head? ≠ some '(' := by
  obtain ⟨char, rest, same⟩ := List.exists_cons_of_ne_nil isName.nonempty
  rw [signature_class, text_named, same]
  intro opening
  exact Text.ne_of_isNameChar (isName.2 char (same ▸ List.mem_cons_self)) (by decide)
    (Option.some.inj opening)

/-- A class ends at the first dot in front of a parenthesis if no function in it has a receiver. -/
theorem splitReceiver_of_isPlainClass {type : SourceType} (named : type.WellNamed)
    (isPlain : IsPlainClass type) (parameters : List (Option String × SourceType)) :
    TypeShape.splitReceiver (signature (some type) parameters) =
      (some type.text, parenthesized (listed (parameterTexts parameters))) := by
  cases type with
  | function => exact isPlain.elim
  | named name arguments nullable =>
    have undotted := named.isUndotted isPlain
    obtain ⟨own, -⟩ := everywhere_named_iff.mp named
    rw [TypeShape.splitReceiver, if_neg (head_signature_class own arguments nullable parameters),
      signature_class, parenthesized, undotted.splitOnce?_append]

end

end SourceType

end SourceCapture
