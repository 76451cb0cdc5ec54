/-
Folding of constant expressions. The syntax tree of an expression is seen through one level
at a time: what it is decides how its value comes from the values of the trees inside and
from the values of names. Integers have 64 bits, and an operation that would leave that
range has no value, as has anything else that is not known at compile time.
-/

import SourceCapture.Const
import SourceCapture.Literal
import SourceCapture.Tree

namespace SourceCapture

/-! ### Operations on constants -/

namespace Const

/-- An integer, if it has 64 bits. -/
def ofInt? (value : Int) : Option Const :=
  if -(Number.signedEnd : Int) ≤ value && value < Number.signedEnd then some (.int value) else none

/-- The value of a sign in front of a constant. -/
def signed? : Char → Const → Option Const
  | '-', .int value => ofInt? (-value)
  | '+', .int value => some (.int value)
  | '!', .bool value => some (.bool (!value))
  | _, _ => none

/-- The value of an operation on two integers. A quotient that does not fit leaves no
remainder either. -/
def arithmetic? (operator : String) (left right : Int) : Option Const :=
  if operator = "+" then ofInt? (left + right)
  else if operator = "-" then ofInt? (left - right)
  else if operator = "*" then ofInt? (left * right)
  else if right = 0 then none
  else if operator = "/" then ofInt? (left.tdiv right)
  else if operator = "%" then
    if (ofInt? (left.tdiv right)).isSome then ofInt? (left.tmod right) else none
  else none

/-- The value of an operation on two constants. A sum with a text is a text. -/
def combine? (operator : String) (left right : Const) : Option Const :=
  match left, right with
  | .text before, after =>
    if operator = "+" then after.display?.map fun shown => .text (before ++ shown) else none
  | before, .text after =>
    if operator = "+" then before.display?.map fun shown => .text (shown ++ after) else none
  | .int left, .int right => arithmetic? operator left right
  | _, _ => none

end Const

/-! ### What an expression is made of -/

/-- A part of a text literal. -/
inductive TextPart where
  /-- Plain text. There is none for a bad escape. -/
  | plain (value : Option (List Char))
  /-- The value of a name. -/
  | name (name : String)
  /-- The value of an expression. -/
  | expression (inner : Tree)

/-- An expression seen one level deep. -/
inductive ConstShape where
  /-- The value is known, or known not to be there. -/
  | known (value : Option Const)
  /-- The value of a name. -/
  | name (name : String)
  /-- The value of the tree inside. -/
  | wrapped (inner : Tree)
  | signed (sign : Char) (operand : Tree)
  | binary (operator : String) (left right : Tree)
  /-- A text literal with templates or escapes. -/
  | text (parts : List TextPart)

namespace TextPart

/-- The tree inside a part. -/
def inner : TextPart → List Tree
  | .expression inner => [inner]
  | _ => []

/-- The tokens around the parts of a text literal. -/
def delimiters : List String := ["\"", "\"\"\"", "$", "$\x7b", "\x7d"]

/-- Whether a kind of node has a piece in its name. -/
def kindHas (kind piece : String) : Bool := Text.containsPiece piece.toList kind.toList

/-- The name in a template that holds nothing else. -/
def templateName (written : List Char) : String :=
  let bare := (written.dropWhile (· = '$')).dropWhile (· = '\x7b')
  String.ofList (Text.trim (Text.dropEndWhile (· = '\x7d') bare))

/-- The part that a child of a text literal stands for, if it is no delimiter. -/
def ofTree? (content : List Char) (isRaw : Bool) (child : Tree) : Option TextPart :=
  let written := child.text content
  if !child.isNamed && delimiters.contains child.kind then none
  else if kindHas child.kind "interpolat" || kindHas child.kind "template" then
    match child.namedChildren.getLast? with
    | some inner => some (.expression inner)
    | none => some (.name (templateName written))
  else if isRaw && !kindHas child.kind "escape" then some (.plain (some written))
  else some (.plain (Literal.unescape? written))

end TextPart

namespace ConstShape

/-- The trees directly inside an expression. -/
def inner : ConstShape → List Tree
  | .known _ => []
  | .name _ => []
  | .wrapped inner => [inner]
  | .signed _ operand => [operand]
  | .binary _ left right => [left, right]
  | .text parts => parts.flatMap TextPart.inner

/-- Nothing with a value at compile time. -/
def unknown : ConstShape := .known none

/-- A text literal. -/
def ofText (content : List Char) (tree : Tree) : ConstShape :=
  let written := tree.text content
  if tree.namedChildren.isEmpty then
    .known ((Literal.readText? written).map fun value => .text (String.ofList value))
  else .text (tree.children.filterMap (TextPart.ofTree? content (Literal.isRaw written)))

/-- The value of a boolean literal. -/
def readBool? (written : List Char) : Option Bool :=
  if written = "true".toList then some true
  else if written = "false".toList then some false
  else none

/-- A word: a boolean, null or a name. -/
def ofWord (written : List Char) : ConstShape :=
  match readBool? written with
  | some value => .known (some (.bool value))
  | none =>
    if written = "null".toList then .known (some .null) else .name (Name.unquote written)

/-- The operands of a binary operation: those with the roles, or the only two children. -/
def operands? (tree : Tree) : Option (Tree × Tree) :=
  match tree.childInField? .left, tree.childInField? .right with
  | some left, some right => some (left, right)
  | _, _ =>
    match tree.namedChildren with
    | [left, right] => some (left, right)
    | _ => none

/-- A binary operation. Its operator is what stands between the operands. -/
def ofBinary (content : List Char) (tree : Tree) : ConstShape :=
  match operands? tree with
  | some (left, right) =>
    let between := (Text.slice? content ⟨left.span.stop, right.span.start⟩).getD []
    .binary (String.ofList (Text.trim between)) left right
  | none => unknown

/-- A sign and its operand. -/
def ofPrefix (content : List Char) (tree : Tree) : ConstShape :=
  match tree.namedChildren.getLast?, tree.trimmedText content with
  | some operand, sign :: _ => .signed sign operand
  | _, _ => unknown

/-- An expression that only wraps another one over the same range. -/
def ofWrapper (tree : Tree) : ConstShape :=
  match tree.namedChildren with
  | [only] => if only.span = tree.span then .wrapped only else unknown
  | _ => unknown

/-- The kinds of expressions that can have a value, by how they get it. -/
inductive Form where
  | text
  | character
  | integer
  | boolean
  | null
  | word
  | path
  | group
  | binary
  | signed
  | wrapper
  deriving Repr, DecidableEq

/-- The forms of the kinds of nodes. -/
def forms : List (String × Form) := [
  ("string_literal", .text), ("line_string_literal", .text), ("multi_line_string_literal", .text),
  ("multiline_string_literal", .text), ("character_literal", .character),
  ("integer_literal", .integer), ("number_literal", .integer), ("long_literal", .integer),
  ("hex_literal", .integer), ("bin_literal", .integer), ("unsigned_literal", .integer),
  ("boolean_literal", .boolean), ("null", .null), ("null_literal", .null),
  ("identifier", .word), ("simple_identifier", .word), ("navigation_expression", .path),
  ("parenthesized_expression", .group), ("binary_expression", .binary),
  ("additive_expression", .binary), ("multiplicative_expression", .binary),
  ("prefix_expression", .signed), ("unary_expression", .signed)]

/-- The form of a kind of node. A kind that is not listed can only wrap an expression. -/
def formOf (kind : String) : Form :=
  ((forms.find? fun entry => entry.1 = kind).map (·.2)).getD .wrapper

/-- What an expression is. -/
def ofTree (content : List Char) (tree : Tree) : ConstShape :=
  let written := tree.trimmedText content
  match formOf tree.kind with
  | .text => ofText content tree
  | .character =>
    .known ((Literal.readCharacter? written).map fun value => .text (String.ofList value))
  | .integer => .known ((Literal.readInt? written).map .int)
  | .boolean => .known ((readBool? written).map .bool)
  | .null => .known (some .null)
  | .word => ofWord written
  | .path => .name (Name.join written)
  | .group =>
    match tree.namedChildren with
    | first :: _ => .wrapped first
    | [] => unknown
  | .binary => ofBinary content tree
  | .signed => ofPrefix content tree
  | .wrapper => ofWrapper tree

/-! ### The trees inside are smaller -/

theorem inner_unknown : unknown.inner = [] := rfl

theorem sizeOf_lt_of_mem_textPart {content : List Char} {isRaw : Bool} {child found : Tree}
    {part : TextPart} (read : TextPart.ofTree? content isRaw child = some part)
    (member : found ∈ part.inner) : sizeOf found < sizeOf child := by
  unfold TextPart.ofTree? at read
  dsimp only at read
  split at read
  · cases read
  · split at read
    · split at read
      case h_1 last same =>
        cases read
        simp only [TextPart.inner, List.mem_singleton] at member
        exact member ▸ Tree.sizeOf_lt_of_mem_namedChildren (List.mem_of_getLast? same)
      case h_2 =>
        cases read
        simp [TextPart.inner] at member
    · split at read <;> (cases read; simp [TextPart.inner] at member)

theorem sizeOf_lt_of_mem_ofText {content : List Char} {tree found : Tree}
    (member : found ∈ (ofText content tree).inner) : sizeOf found < sizeOf tree := by
  unfold ofText at member
  dsimp only at member
  split at member
  · simp [inner] at member
  · simp only [inner, List.mem_flatMap, List.mem_filterMap] at member
    obtain ⟨part, ⟨child, childMember, read⟩, partMember⟩ := member
    exact Nat.lt_trans (sizeOf_lt_of_mem_textPart read partMember)
      (Tree.sizeOf_lt_of_mem_children childMember)

theorem mem_children_of_operands? {tree left right : Tree}
    (found : operands? tree = some (left, right)) :
    left ∈ tree.children ∧ right ∈ tree.children := by
  unfold operands? at found
  split at found
  case h_1 leftFound rightFound =>
    cases found
    exact ⟨List.mem_of_find?_eq_some leftFound, List.mem_of_find?_eq_some rightFound⟩
  case h_2 =>
    split at found
    case h_1 both =>
      cases found
      constructor <;> exact Tree.mem_children_of_mem_namedChildren (by simp [both])
    case h_2 => cases found

theorem sizeOf_lt_of_mem_ofBinary {content : List Char} {tree found : Tree}
    (member : found ∈ (ofBinary content tree).inner) : sizeOf found < sizeOf tree := by
  unfold ofBinary at member
  split at member
  case h_1 left right same =>
    obtain ⟨leftMember, rightMember⟩ := mem_children_of_operands? same
    simp only [inner, List.mem_cons, List.not_mem_nil, or_false] at member
    rcases member with rfl | rfl
    · exact Tree.sizeOf_lt_of_mem_children leftMember
    · exact Tree.sizeOf_lt_of_mem_children rightMember
  case h_2 => simp [inner_unknown] at member

theorem sizeOf_lt_of_mem_ofPrefix {content : List Char} {tree found : Tree}
    (member : found ∈ (ofPrefix content tree).inner) : sizeOf found < sizeOf tree := by
  unfold ofPrefix at member
  split at member
  case h_1 operand _ _ last _ =>
    simp only [inner, List.mem_singleton] at member
    exact member ▸ Tree.sizeOf_lt_of_mem_namedChildren (List.mem_of_getLast? last)
  case h_2 => simp [inner_unknown] at member

theorem sizeOf_lt_of_mem_ofWrapper {tree found : Tree} (member : found ∈ (ofWrapper tree).inner) :
    sizeOf found < sizeOf tree := by
  unfold ofWrapper at member
  split at member
  case h_1 only same =>
    split at member
    · simp only [inner, List.mem_singleton] at member
      exact member ▸ Tree.sizeOf_lt_of_mem_namedChildren (by simp [same])
    · simp [inner_unknown] at member
  case h_2 => simp [inner_unknown] at member

theorem inner_ofWord (written : List Char) : (ofWord written).inner = [] := by
  unfold ofWord
  split
  · rfl
  · split <;> rfl

theorem sizeOf_lt_of_mem_ofTree (content : List Char) (tree : Tree) :
    ∀ found ∈ (ofTree content tree).inner, sizeOf found < sizeOf tree := by
  intro found member
  unfold ofTree at member
  dsimp only at member
  split at member
  case h_1 => exact sizeOf_lt_of_mem_ofText member
  case h_2 => simp [inner] at member
  case h_3 => simp [inner] at member
  case h_4 => simp [inner] at member
  case h_5 => simp [inner] at member
  case h_6 => simp [inner_ofWord] at member
  case h_7 => simp [inner] at member
  case h_8 =>
    split at member
    case h_1 first rest same =>
      simp only [inner, List.mem_singleton] at member
      exact member ▸ Tree.sizeOf_lt_of_mem_namedChildren (by simp [same])
    case h_2 => simp [inner_unknown] at member
  case h_9 => exact sizeOf_lt_of_mem_ofBinary member
  case h_10 => exact sizeOf_lt_of_mem_ofPrefix member
  case h_11 => exact sizeOf_lt_of_mem_ofWrapper member

end ConstShape

/-! ### Values -/

namespace Tree

variable {Look : Type → Type} [Monad Look]

/-- The value of an expression, if it has one. The values of names are asked for in the
order in which the expression reads, and only as long as there can be a value. -/
def fold (content : List Char) (lookUp : String → Look (Option Const)) (tree : Tree) :
    OptionT Look Const :=
  match ConstShape.ofTree content tree, ConstShape.sizeOf_lt_of_mem_ofTree content tree with
  | .known value, _ => OptionT.mk (pure value)
  | .name name, _ => OptionT.mk (lookUp name)
  | .wrapped inner, smaller =>
    have := smaller inner (by simp [ConstShape.inner])
    fold content lookUp inner
  | .signed sign operand, smaller => do
    have := smaller operand (by simp [ConstShape.inner])
    let value ← fold content lookUp operand
    OptionT.mk (pure (Const.signed? sign value))
  | .binary operator left right, smaller => do
    have := smaller left (by simp [ConstShape.inner])
    have := smaller right (by simp [ConstShape.inner])
    let before ← fold content lookUp left
    let after ← fold content lookUp right
    OptionT.mk (pure (Const.combine? operator before after))
  | .text parts, smaller => do
    let shown ← parts.attach.mapM fun part =>
      match part with
      | ⟨.plain value, _⟩ => OptionT.mk (pure (value.map String.ofList))
      | ⟨.name name, _⟩ => do
        let value ← OptionT.mk (lookUp name)
        OptionT.mk (pure value.display?)
      | ⟨.expression inner, member⟩ => do
        have := smaller inner
          (List.mem_flatMap.mpr ⟨_, member, List.mem_singleton_self inner⟩)
        let value ← fold content lookUp inner
        OptionT.mk (pure value.display?)
    return .text (String.join shown)
termination_by sizeOf tree

/-- The value of an expression. One without a value keeps its text and its place. -/
def evaluate (content : List Char) (lookUp : String → Look (Option Const)) (tree : Tree) :
    Look Const := do
  let value ← (tree.fold content lookUp).run
  return value.getD (.nonConstant (String.ofList (tree.trimmedText content)) (some tree.span))

end Tree

end SourceCapture
