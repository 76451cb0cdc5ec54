/-
Signs and operations on constants, with exact integers. An operation is folded to its exact result,
unless the result, or the quotient that a remainder needs, takes more than 64 bits. Then it is not
folded at all.
-/

import Mathlib.Logic.Basic
import SourceCapture.Folding

namespace SourceCapture

/-- Whether an integer has 64 bits. -/
def IsInt64 (value : Int) : Prop := -(Nat.pow 2 63 : Int) ≤ value ∧ value < Nat.pow 2 63

instance (value : Int) : Decidable (IsInt64 value) := inferInstanceAs (Decidable (_ ∧ _))

/-- A sign in front of an expression. -/
inductive Sign where
  | minus
  | plus
  | not
  deriving DecidableEq

/-- An operator between two expressions. -/
inductive Operator where
  | add
  | subtract
  | multiply
  | divide
  | remainder
  deriving DecidableEq

namespace Const

/-- The form of a constant in a text. -/
def form? : Const → Option String
  | .text value => some value
  | .int value => some (toString value)
  | .bool value => some (toString value)
  | .null => some "null"
  | .nonConstant _ _ => none

/-- Whether a constant is no integer that takes more than 64 bits. -/
def Fits (value : Const) : Prop := ∀ int, value = .int int → IsInt64 int

theorem fits_int {int : Int} : (Const.int int).Fits ↔ IsInt64 int :=
  ⟨fun fits => fits int rfl, fun small _ same => Const.int.inj same ▸ small⟩

theorem display?_eq (value : Const) : value.display? = value.form? := by
  cases value with
  | bool value => cases value <;> rfl
  | _ => rfl

theorem isConstant_of_display? {value : Const} {shown : String}
    (displayed : value.display? = some shown) : value.isConstant = true := by
  cases value with
  | nonConstant => cases displayed
  | _ => rfl

/-- Nothing can be done with what is no constant. -/
theorem operand_isConstant_of_signed? {sign : Char} {operand value : Const}
    (signed : signed? sign operand = some value) : operand.isConstant = true := by
  unfold signed? at signed
  split at signed
  case h_4 => cases signed
  all_goals rfl

theorem operands_isConstant_of_combine? {operator : String} {left right value : Const}
    (combined : combine? operator left right = some value) :
    left.isConstant = true ∧ right.isConstant = true := by
  unfold combine? at combined
  split at combined
  case h_1 =>
    obtain ⟨-, combined⟩ := Option.ite_none_right_eq_some.mp combined
    obtain ⟨shown, displayed, -⟩ := Option.map_eq_some_iff.mp combined
    exact ⟨rfl, isConstant_of_display? displayed⟩
  case h_2 =>
    obtain ⟨-, combined⟩ := Option.ite_none_right_eq_some.mp combined
    obtain ⟨shown, displayed, -⟩ := Option.map_eq_some_iff.mp combined
    exact ⟨isConstant_of_display? displayed, rfl⟩
  case h_3 => exact ⟨rfl, rfl⟩
  case h_4 => cases combined

theorem ofInt?_eq_some_iff {int : Int} {value : Const} :
    ofInt? int = some value ↔ some (.int int) = some value ∧ value.Fits := by
  have bounds :
      (-(Number.signedEnd : Int) ≤ int && int < Number.signedEnd) = true ↔ IsInt64 int := by
    rw [Bool.and_eq_true, decide_eq_true_iff, decide_eq_true_iff]
    rfl
  rw [ofInt?]
  by_cases small : IsInt64 int
  · rw [if_pos (bounds.mpr small), iff_self_and]
    rintro ⟨rfl⟩
    exact fits_int.mpr small
  · rw [if_neg (mt bounds.mp small)]
    refine iff_of_false nofun ?_
    rintro ⟨⟨rfl⟩, fits⟩
    exact small (fits_int.mp fits)

theorem isSome_ofInt? {int : Int} : (ofInt? int).isSome = true ↔ IsInt64 int := by
  rw [Option.isSome_iff_exists]
  constructor
  · rintro ⟨value, found⟩
    obtain ⟨⟨rfl⟩, fits⟩ := ofInt?_eq_some_iff.mp found
    exact fits_int.mp fits
  · exact fun small => ⟨.int int, ofInt?_eq_some_iff.mpr ⟨rfl, fits_int.mpr small⟩⟩

end Const

namespace Sign

def symbol : Sign → Char
  | minus => '-'
  | plus => '+'
  | not => '!'

/-- The exact value behind a sign. -/
def result? : Sign → Const → Option Const
  | minus, .int value => some (.int (-value))
  | plus, .int value => some (.int value)
  | not, .bool value => some (.bool (!value))
  | _, _ => none

theorem isConstant_of_result? {sign : Sign} {operand value : Const}
    (applied : sign.result? operand = some value) : value.isConstant = true := by
  cases sign <;> cases operand <;> cases applied <;> rfl

/-- A sign is folded as it should, where the result has 64 bits. -/
theorem signed?_eq_some_iff {sign : Sign} {operand value : Const} (fits : operand.Fits) :
    Const.signed? sign.symbol operand = some value ↔
      sign.result? operand = some value ∧ value.Fits := by
  cases sign <;> cases operand
  case minus.int int => exact Const.ofInt?_eq_some_iff
  case plus.int int =>
    show some (.int int) = some value ↔ some (.int int) = some value ∧ value.Fits
    rw [iff_self_and]
    rintro ⟨rfl⟩
    exact fits
  case not.bool bool =>
    show some (.bool !bool) = some value ↔ some (.bool !bool) = some value ∧ value.Fits
    rw [iff_self_and]
    rintro ⟨rfl⟩
    exact nofun
  all_goals exact iff_of_false nofun (by rintro ⟨⟨⟩, _⟩)

end Sign

namespace Operator

def symbol : Operator → Char
  | add => '+'
  | subtract => '-'
  | multiply => '*'
  | divide => '/'
  | remainder => '%'

/-- The exact result for two integers. Quotients are rounded toward zero. -/
def intResult? : Operator → Int → Int → Option Int
  | add, left, right => some (left + right)
  | subtract, left, right => some (left - right)
  | multiply, left, right => some (left * right)
  | divide, left, right => if right = 0 then none else some (left.tdiv right)
  | remainder, left, right => if right = 0 then none else some (left.tmod right)

/-- The exact result for two constants. A sum with a text is a text. -/
def result? : Operator → Const → Const → Option Const
  | add, .text left, right => right.form?.map fun shown => .text (left ++ shown)
  | add, left, .text right => left.form?.map fun shown => .text (shown ++ right)
  | operator, .int left, .int right => (operator.intResult? left right).map .int
  | _, _, _ => none

/-- Whether the quotient that a remainder needs has 64 bits. -/
def QuotientFits : Operator → Const → Const → Prop
  | remainder, .int left, .int right => IsInt64 (left.tdiv right)
  | _, _, _ => True

variable {operator : Operator} {value : Const}

theorem isConstant_of_result? {left right : Const}
    (applied : operator.result? left right = some value) : value.isConstant = true := by
  unfold result? at applied
  split at applied
  case h_4 => cases applied
  all_goals
    obtain ⟨result, -, rfl⟩ := Option.map_eq_some_iff.mp applied
    rfl

/-- The integer results with 64 bits are those of the folded operation. -/
theorem arithmetic?_eq_some_iff {left right : Int} :
    Const.arithmetic? (String.ofList [operator.symbol]) left right = some value ↔
      (operator.intResult? left right).map .int = some value ∧ value.Fits ∧
        operator.QuotientFits (.int left) (.int right) := by
  have checked : ∀ int, Const.ofInt? int = some value ↔
      some (.int int) = some value ∧ value.Fits ∧ True := by
    intro int
    rw [and_true]
    exact Const.ofInt?_eq_some_iff
  have nothing : ∀ quotient : Prop, none = some value ↔
      none = some value ∧ value.Fits ∧ quotient :=
    fun quotient => iff_of_false nofun (by rintro ⟨⟨⟩, _⟩)
  cases operator with
  | add => exact checked (left + right)
  | subtract => exact checked (left - right)
  | multiply => exact checked (left * right)
  | divide =>
    by_cases zero : right = 0
    · subst zero
      exact nothing True
    · have folded : Const.arithmetic? (String.ofList [divide.symbol]) left right =
          Const.ofInt? (left.tdiv right) := if_neg zero
      have exact : divide.intResult? left right = some (left.tdiv right) := if_neg zero
      rw [folded, exact]
      exact checked (left.tdiv right)
  | remainder =>
    by_cases zero : right = 0
    · subst zero
      exact nothing _
    · have folded : Const.arithmetic? (String.ofList [remainder.symbol]) left right =
          if (Const.ofInt? (left.tdiv right)).isSome then Const.ofInt? (left.tmod right)
          else none := if_neg zero
      have exact : remainder.intResult? left right = some (left.tmod right) := if_neg zero
      rw [folded, exact]
      by_cases small : IsInt64 (left.tdiv right)
      · rw [if_pos (Const.isSome_ofInt?.mpr small)]
        exact (checked _).trans (and_congr_right' (and_congr_right' (iff_of_true trivial small)))
      · rw [if_neg (mt Const.isSome_ofInt?.mp small)]
        exact iff_of_false nofun fun all => small all.2.2

/-- Operations that give a text, or nothing, need no room. -/
theorem combine?_eq_some_iff_of_text {left right : Const} (result : Option String)
    (folded : Const.combine? (String.ofList [operator.symbol]) left right = result.map .text)
    (exact : operator.result? left right = result.map .text)
    (quotient : operator.QuotientFits left right) :
    Const.combine? (String.ofList [operator.symbol]) left right = some value ↔
      operator.result? left right = some value ∧ value.Fits ∧ operator.QuotientFits left right := by
  rw [folded, exact, iff_self_and]
  intro found
  obtain ⟨text, -, rfl⟩ := Option.map_eq_some_iff.mp found
  exact ⟨nofun, quotient⟩

theorem combine?_text_eq_some_iff {left : Const} {after : String} :
    Const.combine? (String.ofList [operator.symbol]) left (.text after) = some value ↔
      operator.result? left (.text after) = some value ∧ value.Fits ∧
        operator.QuotientFits left (.text after) := by
  cases operator with
  | add =>
    have folded : Const.combine? (String.ofList [add.symbol]) left (.text after) =
        left.display?.map fun shown => .text (shown ++ after) := by
      cases left <;> rfl
    have exact : add.result? left (.text after) =
        left.form?.map fun shown => .text (shown ++ after) := by
      cases left <;> rfl
    refine combine?_eq_some_iff_of_text (left.form?.map (· ++ after)) ?_ ?_ trivial
    · rw [folded, Const.display?_eq, Option.map_map]
      rfl
    · rw [exact, Option.map_map]
      rfl
  | _ => cases left <;> exact combine?_eq_some_iff_of_text none rfl rfl trivial

theorem text_combine?_eq_some_iff {before : String} {right : Const} :
    Const.combine? (String.ofList [operator.symbol]) (.text before) right = some value ↔
      operator.result? (.text before) right = some value ∧ value.Fits ∧
        operator.QuotientFits (.text before) right := by
  cases operator with
  | add =>
    refine combine?_eq_some_iff_of_text (right.form?.map (before ++ ·)) ?_ ?_ trivial
    · rw [← Const.display?_eq, Option.map_map]
      rfl
    · rw [Option.map_map]
      rfl
  | _ => cases right <;> exact combine?_eq_some_iff_of_text none rfl rfl trivial

/-- An operation is folded as it should, where the result has 64 bits. -/
theorem combine?_eq_some_iff {left right : Const} :
    Const.combine? (String.ofList [operator.symbol]) left right = some value ↔
      operator.result? left right = some value ∧ value.Fits ∧ operator.QuotientFits left right := by
  cases left with
  | text before => exact text_combine?_eq_some_iff
  | int before =>
    cases right with
    | int after => cases operator <;> exact arithmetic?_eq_some_iff
    | text after => exact combine?_text_eq_some_iff
    | _ => cases operator <;> exact combine?_eq_some_iff_of_text none rfl rfl trivial
  | _ =>
    cases right with
    | text after => exact combine?_text_eq_some_iff
    | _ => cases operator <;> exact combine?_eq_some_iff_of_text none rfl rfl trivial

end Operator

end SourceCapture
