/-
Constant expressions: literals, names, parentheses, signs and operations, nested to any depth. An
expression has an exact value, in which integers have no bounds, and it is folded to this value as
long as every integer on the way has 64 bits. Where it goes wrong is in two of its leaves: a text in
three quotes that ends with quotes, and a name with dots that has white space in a quoted part.
-/

import SourceCapture.Proofs.Constants.Operations
import SourceCapture.Proofs.Headers.Names
import SourceCapture.Proofs.Literals.Integers
import SourceCapture.Proofs.Literals.Quoted

namespace SourceCapture

open Text (allBlank isBlank)

/-! ### Expressions -/

/-- A constant expression. Its texts have no escapes and no templates, and a path is a name with
dots. -/
inductive ConstantExpr where
  | integer (number : Nat)
  | boolean (value : Bool)
  | null
  | text (chars : List Char)
  | raw (body : List Char) (quotes : Nat)
  | name (name : SourceName)
  | path (names : List SourceName)
  | group (inner : ConstantExpr)
  | signed (sign : Sign) (operand : ConstantExpr)
  | binary (operator : Operator) (left right : ConstantExpr)

/-- The characters of a name with dots. -/
def SourceName.dotted (names : List SourceName) : List Char :=
  ['.'].intercalate (names.map SourceName.bareText)

/-- How a name with dots is written, with white space around the dots. -/
inductive SourceName.WritesPath : List SourceName → List Char → Prop where
  | one (name : SourceName) : WritesPath [name] name.text
  | dot {name : SourceName} {names : List SourceName} {before after text : List Char}
    (beforeBlank : allBlank before = true) (afterBlank : allBlank after = true)
    (rest : WritesPath names text) :
    WritesPath (name :: names) (name.text ++ (before ++ '.' :: (after ++ text)))

namespace ConstantExpr

/-- The expression and all expressions in it. -/
def parts : ConstantExpr → List ConstantExpr
  | .group inner => .group inner :: inner.parts
  | .signed sign operand => .signed sign operand :: operand.parts
  | .binary operator left right => .binary operator left right :: (left.parts ++ right.parts)
  | leaf => [leaf]

/-- The exact value, if there is one. A name has the value that `lookUp` knows. -/
def exactValue? (lookUp : String → Option Const) : ConstantExpr → Option Const
  | .integer number => some (.int number)
  | .boolean value => some (.bool value)
  | .null => some .null
  | .text chars => some (.text (String.ofList chars))
  | .raw body quotes => some (.text (String.ofList (body ++ List.replicate quotes '"')))
  | .name simple => (lookUp simple.bare).filter Const.isConstant
  | .path names => (lookUp (String.ofList (SourceName.dotted names))).filter Const.isConstant
  | .group inner => inner.exactValue? lookUp
  | .signed sign operand => (operand.exactValue? lookUp).bind sign.result?
  | .binary operator left right =>
    (left.exactValue? lookUp).bind fun before =>
      (right.exactValue? lookUp).bind (operator.result? before)

/-- Whether the quotient that a remainder needs has 64 bits. -/
def QuotientFits (lookUp : String → Option Const) : ConstantExpr → Prop
  | .binary operator left right => ∀ before after, left.exactValue? lookUp = some before →
    right.exactValue? lookUp = some after → operator.QuotientFits before after
  | _ => True

/-- Whether an expression has an exact value and 64 bits are enough for it. -/
structure IsDefined (lookUp : String → Option Const) (expr : ConstantExpr) : Prop where
  hasValue : ∃ value, expr.exactValue? lookUp = some value ∧ value.Fits
  quotient : expr.QuotientFits lookUp

/-- The kinds of the nodes of simple names, which are also those of `true`, `false` and `null`. -/
def wordKinds : List String := ["identifier", "simple_identifier"]

/-- Whether a tree is one of the expression. -/
inductive IsWrittenAs (content : List Char) : ConstantExpr → Tree → Prop where
  | integer {number : Nat} {tree : Tree}
    (kind : tree.kind ∈ ["number_literal", "integer_literal", "long_literal", "hex_literal",
      "bin_literal", "unsigned_literal"])
    (writes : Literal.WritesInt (tree.text content) number) :
    IsWrittenAs content (.integer number) tree
  | boolean {value : Bool} {tree : Tree}
    (kind : tree.kind ∈ "boolean_literal" :: wordKinds)
    (word : tree.text content = (toString value).toList) : IsWrittenAs content (.boolean value) tree
  | null {tree : Tree} (kind : tree.kind ∈ "null" :: "null_literal" :: wordKinds)
    (word : tree.text content = "null".toList) : IsWrittenAs content .null tree
  | text {chars : List Char} {tree : Tree}
    (valid : (QuotedLiteral.text (chars.map .itself)).IsValid)
    (written : (QuotedLiteral.text (chars.map .itself)).IsWrittenAs content tree) :
    IsWrittenAs content (.text chars) tree
  | raw {body : List Char} {quotes : Nat} {tree : Tree}
    (written : (QuotedLiteral.raw body quotes).IsWrittenAs content tree) :
    IsWrittenAs content (.raw body quotes) tree
  | name {name : SourceName} {tree : Tree} (kind : tree.kind ∈ wordKinds)
    (valid : name.IsValid) (word : tree.text content = name.text)
    (other : name.text ∉ ["true".toList, "false".toList, "null".toList]) :
    IsWrittenAs content (.name name) tree
  | path {names : List SourceName} {tree : Tree} (kind : tree.kind = "navigation_expression")
    (valid : ∀ name ∈ names, name.IsValid)
    (writes : SourceName.WritesPath names (tree.text content)) :
    IsWrittenAs content (.path names) tree
  | group {expr : ConstantExpr} {tree inside : Tree} (kind : tree.kind = "parenthesized_expression")
    (children : tree.namedChildren = [inside]) (inner : IsWrittenAs content expr inside) :
    IsWrittenAs content (.group expr) tree
  | signed {sign : Sign} {expr : ConstantExpr} {tree inside : Tree}
    (kind : tree.kind ∈ ["unary_expression", "prefix_expression"])
    (children : tree.namedChildren = [inside])
    (symbol : (tree.text content).head? = some sign.symbol)
    (operand : IsWrittenAs content expr inside) : IsWrittenAs content (.signed sign expr) tree
  | binary {operator : Operator} {left right : ConstantExpr} {tree leftTree rightTree : Tree}
    {before after : List Char}
    (kind : tree.kind ∈ ["binary_expression", "additive_expression", "multiplicative_expression"])
    (children : tree.namedChildren = [leftTree, rightTree])
    (leftRole : ∀ found ∈ tree.childInField? .left, found = leftTree)
    (rightRole : ∀ found ∈ tree.childInField? .right, found = rightTree)
    (beforeBlank : allBlank before = true) (afterBlank : allBlank after = true)
    (between : Text.slice? content ⟨leftTree.span.stop, rightTree.span.start⟩ =
      some (before ++ ([operator.symbol] ++ after)))
    (first : IsWrittenAs content left leftTree) (second : IsWrittenAs content right rightTree) :
    IsWrittenAs content (.binary operator left right) tree

/-- Whether a tree is folded to the exact value of an expression, whatever names stand for, and to
none just when a part of the expression has none or takes more than 64 bits. -/
def FoldsExactly (content : List Char) (tree : Tree) (expr : ConstantExpr) : Prop :=
  ∀ lookUp : String → Option Const, (∀ name, ∀ value ∈ lookUp name, value.Fits) →
    ((∀ part ∈ expr.parts, part.IsDefined lookUp) → ∀ value, expr.exactValue? lookUp = some value →
      tree.folded content lookUp = value) ∧
    ((tree.folded content lookUp).isConstant = false ↔
      ∃ part ∈ expr.parts, ¬part.IsDefined lookUp)

/-- Whether a leaf is read as it is written. A text in three quotes is not if it ends with quotes
behind anything else, and a name with dots is not if there is white space in it. -/
def IsPlain : ConstantExpr → Prop
  | .raw body quotes => quotes = 0 ∨ body = []
  | .path names => ∀ char ∈ SourceName.dotted names, isBlank char = false
  | _ => True

/-! ### Leaves -/

section

variable {content : List Char} {tree : Tree} {lookUp : String → Option Const}

theorem trimmedText_of_isTight {written : List Char} (text : tree.text content = written)
    (tight : Text.IsTight written) : tree.trimmedText content = written := by
  rw [Tree.trimmedText, text, tight.trims.trim_eq]

theorem value?_integer {number : Nat} (written : IsWrittenAs content (.integer number) tree) :
    tree.value? content lookUp =
      if number < Number.signedEnd then some (.int number) else none := by
  cases written with
  | integer kind writes =>
    have forms : ∀ kind ∈ ["number_literal", "integer_literal", "long_literal", "hex_literal",
        "bin_literal", "unsigned_literal"], ConstShape.formOf kind = .integer := by
      decide
    rw [Tree.value?_eq, ConstShape.ofTree, forms _ kind, trimmedText_of_isTight rfl writes.isTight,
      Literal.readInt?_of_writesInt writes]
    dsimp only
    split <;> rfl

theorem formOf_word {kind : String} (isWord : kind ∈ wordKinds) :
    ConstShape.formOf kind = .word := by
  have forms : ∀ kind ∈ wordKinds, ConstShape.formOf kind = .word := by decide
  exact forms kind isWord

theorem value?_boolean {value : Bool} (written : IsWrittenAs content (.boolean value) tree) :
    tree.value? content lookUp = some (.bool value) := by
  cases written with
  | boolean kind word =>
    have tight : Text.IsTight (toString value).toList := by
      cases value <;> decide
    rw [Tree.value?_eq, ConstShape.ofTree, trimmedText_of_isTight word tight]
    rcases List.mem_cons.mp kind with same | isWord
    · rw [same]
      cases value <;> rfl
    · rw [formOf_word isWord]
      cases value <;> rfl

theorem value?_null (written : IsWrittenAs content .null tree) :
    tree.value? content lookUp = some .null := by
  cases written with
  | null kind word =>
    rw [Tree.value?_eq, ConstShape.ofTree, trimmedText_of_isTight word (by decide)]
    rcases List.mem_cons.mp kind with same | kind
    · rw [same]
      rfl
    · rcases List.mem_cons.mp kind with same | isWord
      · rw [same]
        rfl
      · rw [formOf_word isWord]
        rfl

theorem value?_name {name : SourceName} (written : IsWrittenAs content (.name name) tree) :
    tree.value? content lookUp = lookUp name.bare := by
  cases written with
  | name kind valid word other =>
    have noBool : ConstShape.readBool? name.text = none := by
      rw [ConstShape.readBool?, if_neg, if_neg]
      · exact fun same => other (by rw [same]; decide)
      · exact fun same => other (by rw [same]; decide)
    have noNull : name.text ≠ "null".toList := fun same => other (by rw [same]; decide)
    rw [Tree.value?_eq, ConstShape.ofTree, formOf_word kind,
      trimmedText_of_isTight word (SourceName.isTight valid)]
    dsimp only
    rw [ConstShape.ofWord, noBool]
    dsimp only
    rw [if_neg noNull]
    exact congrArg lookUp (SourceName.unquote_text valid)

/-- A text without escapes has its value, wherever it is cut. -/
theorem value?_text {chars : List Char} (written : IsWrittenAs content (.text chars) tree) :
    tree.value? content lookUp = some (.text (String.ofList chars)) := by
  cases written with
  | text valid written =>
    have texts : (chars.map SpelledChar.itself).map SpelledChar.text = chars.map ([·]) :=
      List.map_map
    have flat : (tree.pieces content).flatten = chars := by
      rw [written.2.pieces, List.flatMap_map]
      exact List.flatMap_singleton' chars
    have cut : Literal.CutBetween ((chars.map SpelledChar.itself).map SpelledChar.text)
        (tree.pieces content) := by
      rw [texts, ← flat]
      exact Literal.cutBetween_singletons _
    have single : ∀ spelled ∈ chars.map SpelledChar.itself, spelled.isPair = false := by
      rw [List.forall_mem_map]
      exact fun _ _ => rfl
    have read := SpelledChar.mapM_unescape?_of_cutBetween valid single cut
    have chars : (chars.map SpelledChar.itself).map SpelledChar.char = chars := by
      rw [List.map_map]
      exact List.map_id chars
    rw [chars, Option.map_eq_some_iff] at read
    obtain ⟨outs, read, joined⟩ := read
    rw [QuotedLiteral.value?_text valid written, read, Option.map_some, joined]

end

/-! ### Names with dots -/

section

variable {content : List Char} {tree : Tree} {lookUp : String → Option Const}
  {names : List SourceName} {text : List Char}

theorem intercalate_map_cons {name : SourceName} (several : names ≠ [])
    (write : SourceName → List Char) :
    ['.'].intercalate ((name :: names).map write) =
      write name ++ '.' :: ['.'].intercalate (names.map write) := by
  have nonempty : names.map write ≠ [] := mt List.map_eq_nil_iff.mp several
  rw [List.map_cons, List.intercalate_cons_of_ne_nil nonempty, List.append_assoc]
  rfl

theorem dotted_cons {name : SourceName} (several : names ≠ []) :
    SourceName.dotted (name :: names) = name.bareText ++ '.' :: SourceName.dotted names :=
  intercalate_map_cons several SourceName.bareText

theorem nonempty_of_writesPath (writes : SourceName.WritesPath names text) : names ≠ [] := by
  cases writes <;> exact List.cons_ne_nil _ _

/-- What is left of a name without white space and quotes. -/
theorem filter_name {name : SourceName} (valid : name.IsValid) :
    (name.text.filter fun char => !isBlank char && char ≠ Name.quote) =
      name.bareText.filter (!isBlank ·) := by
  have inside : (name.bareText.filter fun char => !isBlank char && char ≠ Name.quote) =
      name.bareText.filter (!isBlank ·) := by
    refine List.filter_congr fun char member => ?_
    rw [decide_eq_true (SourceName.notQuote_of_mem valid member), Bool.and_true]
  rw [← inside]
  cases name with
  | plain word => rfl
  | quoted text =>
    have quote : ([Name.quote].filter fun char => !isBlank char && char ≠ Name.quote) = [] := by
      decide
    rw [SourceName.text, ← List.singleton_append, List.filter_append, List.filter_append, quote,
      List.nil_append, List.append_nil]
    rfl

theorem filter_path (valid : ∀ name ∈ names, name.IsValid)
    (writes : SourceName.WritesPath names text) :
    (text.filter fun char => !isBlank char && char ≠ Name.quote) =
      (SourceName.dotted names).filter (!isBlank ·) := by
  induction writes with
  | one name =>
    rw [filter_name (valid name List.mem_cons_self), SourceName.dotted, List.map_singleton,
      List.intercalate_singleton]
  | @dot name names before after text beforeBlank afterBlank rest inductionHypothesis =>
    rw [List.forall_mem_cons] at valid
    have blank : ∀ {gap : List Char}, allBlank gap = true →
        (gap.filter fun char => !isBlank char && char ≠ Name.quote) = [] := by
      intro gap blank
      refine List.filter_eq_nil_iff.mpr fun char member => ?_
      rw [List.all_eq_true.mp blank char member]
      exact Bool.false_ne_true
    rw [List.filter_append, filter_name valid.1, List.filter_append, blank beforeBlank,
      List.nil_append, List.filter_cons_of_pos (by decide), List.filter_append, blank afterBlank,
      List.nil_append, inductionHypothesis valid.2, dotted_cons (nonempty_of_writesPath rest),
      List.filter_append, List.filter_cons_of_pos (by decide)]

theorem nonempty_path (valid : ∀ name ∈ names, name.IsValid)
    (writes : SourceName.WritesPath names text) : text ≠ [] := by
  cases writes with
  | one name => exact SourceName.nonempty (valid name List.mem_cons_self)
  | dot => exact List.append_ne_nil_of_right_ne_nil _ (by simp)

theorem isTight_path (valid : ∀ name ∈ names, name.IsValid)
    (writes : SourceName.WritesPath names text) : Text.IsTight text := by
  induction writes with
  | one name => exact SourceName.isTight (valid name List.mem_cons_self)
  | @dot name names before after text beforeBlank afterBlank rest inductionHypothesis =>
    rw [List.forall_mem_cons] at valid
    have last : (before ++ '.' :: (after ++ text)).getLast? = text.getLast? := by
      rw [List.append_cons, ← List.append_assoc,
        List.getLast?_append_of_ne_nil _ (nonempty_path valid.2 rest)]
    refine Text.isTight_append (SourceName.nonempty valid.1) (by simp)
      (SourceName.isTight valid.1).1 ?_
    rw [last]
    exact (inductionHypothesis valid.2).2

/-- A name with dots is looked up without white space, also without the white space that is part of
it. -/
theorem value?_path (written : IsWrittenAs content (.path names) tree) :
    tree.value? content lookUp =
      lookUp (String.ofList ((SourceName.dotted names).filter (!isBlank ·))) := by
  cases written with
  | path kind valid writes =>
    have form : ConstShape.formOf tree.kind = .path := by
      rw [kind]
      decide
    rw [Tree.value?_eq, ConstShape.ofTree, form,
      trimmedText_of_isTight rfl (isTight_path valid writes)]
    dsimp only
    rw [Name.join, filter_path valid writes, ConstShape.value?]

end

/-! ### Expressions around others -/

section

variable {content : List Char} {tree : Tree} {lookUp : String → Option Const}

theorem value?_group {inside : Tree} (kind : tree.kind = "parenthesized_expression")
    (children : tree.namedChildren = [inside]) :
    tree.value? content lookUp = inside.value? content lookUp := by
  have form : ConstShape.formOf tree.kind = .group := by
    rw [kind]
    decide
  rw [Tree.value?_eq, ConstShape.ofTree, form, children]
  rfl

theorem value?_signed {sign : Sign} {inside : Tree}
    (kind : tree.kind ∈ ["unary_expression", "prefix_expression"])
    (children : tree.namedChildren = [inside])
    (symbol : (tree.text content).head? = some sign.symbol) :
    tree.value? content lookUp =
      (inside.value? content lookUp).bind (Const.signed? sign.symbol) := by
  have forms : ∀ kind ∈ ["unary_expression", "prefix_expression"],
      ConstShape.formOf kind = .signed := by
    decide
  obtain ⟨rest, text⟩ := List.head?_eq_some_iff.mp symbol
  have solid : isBlank sign.symbol = false := by cases sign <;> decide
  have trimmed : tree.trimmedText content = sign.symbol :: Text.trimEnd rest := by
    rw [Tree.trimmedText, text]
    exact Text.trim_append_cons solid [] rest
  rw [Tree.value?_eq, ConstShape.ofTree, forms _ kind, trimmed]
  dsimp only
  rw [ConstShape.ofPrefix, children, trimmed]
  rfl

theorem value?_binary {operator : Operator} {leftTree rightTree : Tree} {before after : List Char}
    (kind : tree.kind ∈ ["binary_expression", "additive_expression", "multiplicative_expression"])
    (children : tree.namedChildren = [leftTree, rightTree])
    (leftRole : ∀ found ∈ tree.childInField? .left, found = leftTree)
    (rightRole : ∀ found ∈ tree.childInField? .right, found = rightTree)
    (beforeBlank : allBlank before = true) (afterBlank : allBlank after = true)
    (between : Text.slice? content ⟨leftTree.span.stop, rightTree.span.start⟩ =
      some (before ++ ([operator.symbol] ++ after))) :
    tree.value? content lookUp = (leftTree.value? content lookUp).bind fun left =>
      (rightTree.value? content lookUp).bind
        (Const.combine? (String.ofList [operator.symbol]) left) := by
  have forms : ∀ kind ∈ ["binary_expression", "additive_expression", "multiplicative_expression"],
      ConstShape.formOf kind = .binary := by
    decide
  have operands : ConstShape.operands? tree = some (leftTree, rightTree) := by
    rw [ConstShape.operands?]
    split
    case h_1 left right leftFound rightFound =>
      rw [leftRole left leftFound, rightRole right rightFound]
    case h_2 => rw [children]
  have tight : Text.IsTight [operator.symbol] := by cases operator <;> decide
  rw [Tree.value?_eq, ConstShape.ofTree, forms _ kind]
  dsimp only
  rw [ConstShape.ofBinary, operands]
  dsimp only
  rw [between, Option.getD_some, tight.trims.trim_append_append beforeBlank afterBlank,
    ConstShape.value?]

end

/-! ### Folding -/

section

variable {content : List Char} {tree : Tree} {lookUp : String → Option Const}
  {expr part : ConstantExpr} {value : Const}

theorem isConstant_exactValue? (found : expr.exactValue? lookUp = some value) :
    value.isConstant = true := by
  induction expr generalizing value with
  | name | path => exact (Option.filter_eq_some_iff.mp found).2
  | group inner inductionHypothesis => exact inductionHypothesis found
  | signed sign operand =>
    obtain ⟨inner, -, applied⟩ := Option.bind_eq_some_iff.mp found
    exact Sign.isConstant_of_result? applied
  | binary operator left right =>
    obtain ⟨before, -, rest⟩ := Option.bind_eq_some_iff.mp found
    obtain ⟨after, -, applied⟩ := Option.bind_eq_some_iff.mp rest
    exact Operator.isConstant_of_result? applied
  | _ =>
    cases found
    rfl

theorem mem_parts_self (expr : ConstantExpr) : expr ∈ expr.parts := by
  cases expr <;> exact List.mem_cons_self

theorem IsDefined.fits (defined : expr.IsDefined lookUp)
    (found : expr.exactValue? lookUp = some value) : value.Fits := by
  obtain ⟨_, same, fits⟩ := defined.hasValue
  rw [found] at same
  cases same
  exact fits

/-- Whether a tree has just the exact value of an expression, and has it just when all parts of the
expression are defined. -/
def Agrees (content : List Char) (lookUp : String → Option Const) (expr : ConstantExpr)
    (tree : Tree) : Prop :=
  ∀ value : Const, value.isConstant = true →
    (tree.value? content lookUp = some value ↔
      expr.exactValue? lookUp = some value ∧ ∀ part ∈ expr.parts, part.IsDefined lookUp)

/-- A leaf is defined just when its value has 64 bits. -/
theorem agrees_of_leaf (leaf : expr.parts = [expr]) (quotient : expr.QuotientFits lookUp)
    (read : ∀ value : Const, value.isConstant = true → (tree.value? content lookUp = some value ↔
      expr.exactValue? lookUp = some value ∧ value.Fits)) :
    Agrees content lookUp expr tree := by
  intro value isConstant
  rw [read value isConstant, leaf, List.forall_mem_singleton]
  refine and_congr_right fun found => ⟨fun fits => ⟨⟨value, found, fits⟩, quotient⟩, ?_⟩
  exact fun defined => defined.fits found

/-- What is no number always fits. -/
theorem agrees_of_no_int {exact : Const} (leaf : expr.parts = [expr])
    (quotient : expr.QuotientFits lookUp) (value : expr.exactValue? lookUp = some exact)
    (read : tree.value? content lookUp = some exact) (noInt : ∀ int, exact ≠ .int int) :
    Agrees content lookUp expr tree := by
  refine agrees_of_leaf leaf quotient fun found _ => ?_
  rw [read, value, iff_self_and]
  rintro ⟨rfl⟩
  exact fun int same => absurd same (noInt int)

theorem agrees_integer {number : Nat} (written : IsWrittenAs content (.integer number) tree) :
    Agrees content lookUp (.integer number) tree := by
  refine agrees_of_leaf rfl trivial fun value _ => ?_
  have bounds : IsInt64 number ↔ number < Number.signedEnd :=
    ⟨fun small => Int.ofNat_lt.mp small.2, fun small => ⟨by omega, Int.ofNat_lt.mpr small⟩⟩
  rw [value?_integer written]
  by_cases small : number < Number.signedEnd
  · rw [if_pos small, exactValue?, iff_self_and]
    rintro ⟨rfl⟩
    exact Const.fits_int.mpr (bounds.mpr small)
  · rw [if_neg small]
    refine iff_of_false nofun ?_
    rintro ⟨⟨rfl⟩, fits⟩
    exact small (bounds.mp (Const.fits_int.mp fits))

/-- A leaf that is looked up, by its own name, is defined just when the name is known. What names
stand for has 64 bits. -/
theorem agrees_of_lookUp {name : String} (sized : ∀ name, ∀ value ∈ lookUp name, value.Fits)
    (leaf : expr.parts = [expr]) (quotient : expr.QuotientFits lookUp)
    (read : tree.value? content lookUp = lookUp name)
    (exact : expr.exactValue? lookUp = (lookUp name).filter Const.isConstant) :
    Agrees content lookUp expr tree := by
  refine agrees_of_leaf leaf quotient fun value isConstant => ?_
  rw [read, exact, Option.filter_eq_some_iff, and_iff_left isConstant, iff_self_and]
  exact sized name value

theorem agrees_group {inner : ConstantExpr} {inside : Tree}
    (kind : tree.kind = "parenthesized_expression") (children : tree.namedChildren = [inside])
    (agrees : Agrees content lookUp inner inside) :
    Agrees content lookUp (.group inner) tree := by
  intro value isConstant
  rw [parts, List.forall_mem_cons, value?_group kind children, agrees value isConstant]
  refine and_congr_right fun found => (and_iff_right_of_imp fun defined => ?_).symm
  exact ⟨(defined _ (mem_parts_self _)).hasValue, trivial⟩

theorem agrees_signed {sign : Sign} {operand : ConstantExpr} {inside : Tree}
    (kind : tree.kind ∈ ["unary_expression", "prefix_expression"])
    (children : tree.namedChildren = [inside])
    (symbol : (tree.text content).head? = some sign.symbol)
    (agrees : Agrees content lookUp operand inside) :
    Agrees content lookUp (.signed sign operand) tree := by
  intro value isConstant
  rw [parts, List.forall_mem_cons, value?_signed kind children symbol, Option.bind_eq_some_iff]
  constructor
  · rintro ⟨inner, found, signed⟩
    obtain ⟨exact, defined⟩ := (agrees inner (Const.operand_isConstant_of_signed? signed)).mp found
    obtain ⟨applied, fits⟩ := (Sign.signed?_eq_some_iff
      ((defined _ (mem_parts_self _)).fits exact)).mp signed
    have whole := Option.bind_eq_some_iff.mpr ⟨inner, exact, applied⟩
    exact ⟨whole, ⟨⟨value, whole, fits⟩, trivial⟩, defined⟩
  · rintro ⟨whole, here, defined⟩
    obtain ⟨inner, exact, applied⟩ := Option.bind_eq_some_iff.mp whole
    have found := (agrees inner (isConstant_exactValue? exact)).mpr ⟨exact, defined⟩
    refine ⟨inner, found, ?_⟩
    exact (Sign.signed?_eq_some_iff ((defined _ (mem_parts_self _)).fits exact)).mpr
      ⟨applied, here.fits whole⟩

theorem exactValue?_binary {operator : Operator} {left right : ConstantExpr} :
    (ConstantExpr.binary operator left right).exactValue? lookUp = some value ↔
      ∃ before after, left.exactValue? lookUp = some before ∧
        right.exactValue? lookUp = some after ∧ operator.result? before after = some value := by
  rw [exactValue?, Option.bind_eq_some_iff]
  refine exists_congr fun before => ?_
  rw [Option.bind_eq_some_iff, ← exists_and_left]

/-- Both operands have their exact values, so that the operation is folded as it should. -/
theorem agrees_binary {operator : Operator} {left right : ConstantExpr} {leftTree rightTree : Tree}
    (read : tree.value? content lookUp = (leftTree.value? content lookUp).bind fun left =>
      (rightTree.value? content lookUp).bind
        (Const.combine? (String.ofList [operator.symbol]) left))
    (leftAgrees : Agrees content lookUp left leftTree)
    (rightAgrees : Agrees content lookUp right rightTree) :
    Agrees content lookUp (.binary operator left right) tree := by
  intro value isConstant
  rw [parts, List.forall_mem_cons, List.forall_mem_append, read, Option.bind_eq_some_iff]
  constructor
  · rintro ⟨before, leftFound, rest⟩
    obtain ⟨after, rightFound, combined⟩ := Option.bind_eq_some_iff.mp rest
    obtain ⟨leftConstant, rightConstant⟩ := Const.operands_isConstant_of_combine? combined
    obtain ⟨leftExact, leftDefined⟩ := (leftAgrees before leftConstant).mp leftFound
    obtain ⟨rightExact, rightDefined⟩ := (rightAgrees after rightConstant).mp rightFound
    obtain ⟨applied, fits, quotient⟩ := Operator.combine?_eq_some_iff.mp combined
    have whole := exactValue?_binary.mpr ⟨before, after, leftExact, rightExact, applied⟩
    refine ⟨whole, ⟨⟨value, whole, fits⟩, ?_⟩, leftDefined, rightDefined⟩
    intro otherBefore otherAfter isBefore isAfter
    cases leftExact.symm.trans isBefore
    cases rightExact.symm.trans isAfter
    exact quotient
  · rintro ⟨whole, here, leftDefined, rightDefined⟩
    obtain ⟨before, after, leftExact, rightExact, applied⟩ := exactValue?_binary.mp whole
    have leftFound := (leftAgrees before (isConstant_exactValue? leftExact)).mpr
      ⟨leftExact, leftDefined⟩
    have rightFound := (rightAgrees after (isConstant_exactValue? rightExact)).mpr
      ⟨rightExact, rightDefined⟩
    refine ⟨before, leftFound, Option.bind_eq_some_iff.mpr ⟨after, rightFound, ?_⟩⟩
    exact Operator.combine?_eq_some_iff.mpr
      ⟨applied, here.fits whole, here.quotient before after leftExact rightExact⟩

/-- An expression with plain leaves only is folded to its exact value just when all parts of it have
one of 64 bits. -/
theorem agrees_of_plain (sized : ∀ name, ∀ value ∈ lookUp name, value.Fits)
    (written : IsWrittenAs content expr tree) (plain : ∀ part ∈ expr.parts, part.IsPlain) :
    Agrees content lookUp expr tree := by
  induction written with
  | integer kind writes => exact agrees_integer (.integer kind writes)
  | boolean kind word =>
    exact agrees_of_no_int rfl trivial rfl (value?_boolean (.boolean kind word)) nofun
  | null kind word =>
    exact agrees_of_no_int rfl trivial rfl (value?_null (.null kind word)) nofun
  | text valid written =>
    exact agrees_of_no_int rfl trivial rfl (value?_text (.text valid written)) nofun
  | @raw body quotes tree written =>
    have whole : quotes = 0 ∨ body = [] := plain _ (mem_parts_self _)
    have read : tree.value? content lookUp = _ := QuotedLiteral.value?_raw written
    rw [if_pos whole] at read
    exact agrees_of_no_int rfl trivial rfl read nofun
  | name kind valid word other =>
    exact agrees_of_lookUp sized rfl trivial (value?_name (.name kind valid word other)) rfl
  | @path names tree kind valid writes =>
    have plain : ∀ char ∈ SourceName.dotted names, isBlank char = false :=
      plain _ (mem_parts_self _)
    have solid : (SourceName.dotted names).filter (!isBlank ·) = SourceName.dotted names :=
      List.filter_eq_self.mpr fun char member => by rw [plain char member]; rfl
    have read : tree.value? content lookUp = _ := value?_path (.path kind valid writes)
    rw [solid] at read
    exact agrees_of_lookUp sized rfl trivial read rfl
  | group kind children inner inductionHypothesis =>
    rw [parts, List.forall_mem_cons] at plain
    exact agrees_group kind children (inductionHypothesis plain.2)
  | signed kind children symbol operand inductionHypothesis =>
    rw [parts, List.forall_mem_cons] at plain
    exact agrees_signed kind children symbol (inductionHypothesis plain.2)
  | binary kind children leftRole rightRole beforeBlank afterBlank between first second
      leftHypothesis rightHypothesis =>
    rw [parts, List.forall_mem_cons, List.forall_mem_append] at plain
    exact agrees_binary
      (value?_binary kind children leftRole rightRole beforeBlank afterBlank between)
      (leftHypothesis plain.2.1) (rightHypothesis plain.2.2)

/-! ### Where folding is exact -/

theorem parts_subset (member : part ∈ expr.parts) : part.parts ⊆ expr.parts := by
  induction expr with
  | group inner inductionHypothesis =>
    rcases List.mem_cons.mp member with rfl | below
    · exact List.Subset.refl _
    · exact List.subset_cons_of_subset _ (inductionHypothesis below)
  | signed sign operand inductionHypothesis =>
    rcases List.mem_cons.mp member with rfl | below
    · exact List.Subset.refl _
    · exact List.subset_cons_of_subset _ (inductionHypothesis below)
  | binary operator left right leftHypothesis rightHypothesis =>
    rcases List.mem_cons.mp member with rfl | below
    · exact List.Subset.refl _
    · refine List.subset_cons_of_subset _ ?_
      rcases List.mem_append.mp below with below | below
      · exact List.subset_append_of_subset_left _ (leftHypothesis below)
      · exact List.subset_append_of_subset_right _ (rightHypothesis below)
  | _ =>
    rw [List.mem_singleton.mp member]
    exact List.Subset.refl _

/-- Every part of an expression is written somewhere in it. -/
theorem exists_tree (written : IsWrittenAs content expr tree) (member : part ∈ expr.parts) :
    ∃ inside, IsWrittenAs content part inside := by
  have whole := written
  induction written with
  | group kind children inner inductionHypothesis =>
    rcases List.mem_cons.mp member with rfl | below
    · exact ⟨_, whole⟩
    · exact inductionHypothesis below inner
  | signed kind children symbol operand inductionHypothesis =>
    rcases List.mem_cons.mp member with rfl | below
    · exact ⟨_, whole⟩
    · exact inductionHypothesis below operand
  | binary _ _ _ _ _ _ _ first second leftHypothesis rightHypothesis =>
    rcases List.mem_cons.mp member with rfl | below
    · exact ⟨_, whole⟩
    · rcases List.mem_append.mp below with below | below
      · exact leftHypothesis below first
      · exact rightHypothesis below second
  | _ =>
    rw [List.mem_singleton.mp member]
    exact ⟨_, whole⟩

theorem foldsExactly_of_plain (written : IsWrittenAs content expr tree)
    (plain : ∀ part ∈ expr.parts, part.IsPlain) : FoldsExactly content tree expr := by
  intro lookUp sized
  have agrees := agrees_of_plain sized written plain
  have folds : (∀ part ∈ expr.parts, part.IsDefined lookUp) → ∀ value,
      expr.exactValue? lookUp = some value → tree.folded content lookUp = value := by
    intro defined value exact
    rw [Tree.folded_eq_iff (isConstant_exactValue? exact),
      agrees value (isConstant_exactValue? exact)]
    exact ⟨exact, defined⟩
  refine ⟨folds, ?_⟩
  have all : (∃ part ∈ expr.parts, ¬part.IsDefined lookUp) ↔
      ¬∀ part ∈ expr.parts, part.IsDefined lookUp := by
    simp only [not_forall, exists_prop]
  rw [all, ← Bool.not_eq_true]
  refine not_congr ⟨fun isConstant => ?_, fun defined => ?_⟩
  · have found := (Tree.folded_eq_iff isConstant).mp rfl
    exact ((agrees _ isConstant).mp found).2
  · obtain ⟨value, exact, -⟩ := (defined _ (mem_parts_self expr)).hasValue
    rw [folds defined value exact]
    exact isConstant_exactValue? exact

/-- A leaf that is not plain is not folded to its value. -/
theorem isPlain_of_foldsExactly (written : IsWrittenAs content expr tree)
    (exact : FoldsExactly content tree expr) : expr.IsPlain := by
  cases written with
  | @raw body quotes tree written =>
    have found := (exact (fun _ => none) nofun).1
      (List.forall_mem_singleton.mpr ⟨⟨_, rfl, nofun⟩, trivial⟩) _ rfl
    rw [Tree.folded_eq_iff rfl, QuotedLiteral.value?_raw written, Option.some_inj, Const.text.injEq,
      String.ofList_inj, List.append_cancel_left_eq] at found
    show quotes = 0 ∨ body = []
    by_contra several
    rw [if_neg several] at found
    have length := congrArg List.length found
    rw [List.length_replicate, List.length_replicate] at length
    omega
  | @path names tree kind valid writes =>
    let lookUp : String → Option Const := fun name =>
      if name = String.ofList (SourceName.dotted names) then some (.bool true) else none
    have known : lookUp (String.ofList (SourceName.dotted names)) = some (.bool true) := if_pos rfl
    have sized : ∀ name, ∀ value ∈ lookUp name, value.Fits := by
      intro name value found
      obtain ⟨-, ⟨⟩⟩ := Option.ite_none_right_eq_some.mp found
      exact nofun
    have value : (ConstantExpr.path names).exactValue? lookUp = some (.bool true) := by
      rw [exactValue?, known]
      rfl
    have found := (exact lookUp sized).1
      (List.forall_mem_singleton.mpr ⟨⟨_, value, nofun⟩, trivial⟩) _ value
    rw [Tree.folded_eq_iff rfl, value?_path (.path kind valid writes)] at found
    have same := String.ofList_inj.mp (Option.ite_none_right_eq_some.mp found).1
    intro char member
    rw [← same] at member
    simpa using (List.mem_filter.mp member).2
  | _ => trivial

/-- Every part of an expression is folded exactly, wherever it is written, just when all texts in
three quotes and all names with dots in it are plain. -/
theorem foldsExactly_iff (written : IsWrittenAs content expr tree) :
    (∀ part ∈ expr.parts, ∀ inside, IsWrittenAs content part inside →
      FoldsExactly content inside part) ↔ ∀ part ∈ expr.parts, part.IsPlain := by
  refine ⟨fun exact part member => ?_, fun plain part member inside partWritten => ?_⟩
  · obtain ⟨inside, partWritten⟩ := exists_tree written member
    exact isPlain_of_foldsExactly partWritten (exact part member inside partWritten)
  · exact foldsExactly_of_plain partWritten fun inner below =>
      plain inner (parts_subset member below)

end

/-! ### A sum with a text -/

/-- The expression `"a" + -x`. -/
def shownSum : ConstantExpr := .binary .add (.text ['a']) (.signed .minus (.name (.plain ['x'])))

def shownSumTree : Tree :=
  .branch "binary_expression" 0 8 [
    .node "string_literal" true ⟨0, 3⟩ (some .left) [
      .token "\"" 0 1, .leaf "string_content" 1 2, .token "\"" 2 3],
    .token "+" 4 5,
    .node "unary_expression" true ⟨6, 8⟩ (some .right) [
      .token "-" 6 7, .leaf "identifier" 7 8]]

theorem isWrittenAs_shownSum : shownSum.IsWrittenAs "\"a\" + -x".toList shownSumTree := by
  have text : IsWrittenAs "\"a\" + -x".toList (.text ['a'])
      (.node "string_literal" true ⟨0, 3⟩ (some .left) [
        .token "\"" 0 1, .leaf "string_content" 1 2, .token "\"" 2 3]) := by
    refine .text (List.forall_mem_singleton.mpr ?_)
      ⟨by decide, ⟨by decide, ?_, by decide, by decide, by decide⟩⟩
    · show 'a' ∉ ['"', '\\', '\n', '\r']
      decide
    · exact ⟨.token "\"" 0 1, .token "\"" 2 3, rfl, rfl, rfl, rfl, rfl, by decide⟩
  have name : IsWrittenAs "\"a\" + -x".toList (.name (.plain ['x'])) (.leaf "identifier" 7 8) :=
    .name (by decide) (by decide) (by decide) (by decide)
  have signed : IsWrittenAs "\"a\" + -x".toList (.signed .minus (.name (.plain ['x'])))
      (.node "unary_expression" true ⟨6, 8⟩ (some .right) [
        .token "-" 6 7, .leaf "identifier" 7 8]) :=
    .signed (by decide) rfl (by decide) name
  have between : Text.slice? "\"a\" + -x".toList ⟨3, 6⟩ = some ([' '] ++ (['+'] ++ [' '])) := by
    decide
  refine .binary (by decide) rfl ?_ ?_ (by decide) (by decide) between text signed
  · rintro _ ⟨⟩
    rfl
  · rintro _ ⟨⟩
    rfl

theorem foldsExactly_shownSum : shownSum.IsWrittenAs "\"a\" + -x".toList shownSumTree ∧
    FoldsExactly "\"a\" + -x".toList shownSumTree shownSum := by
  refine ⟨isWrittenAs_shownSum, (foldsExactly_iff isWrittenAs_shownSum).mpr ?_ shownSum
    (mem_parts_self _) shownSumTree isWrittenAs_shownSum⟩
  simp [shownSum, parts, IsPlain]

/-- The text `"""a""""`, which is `a"`. -/
def endQuoted : ConstantExpr := .raw ['a'] 1

def endQuotedTree : Tree :=
  .branch "multiline_string_literal" 0 8 [
    .token "\"\"\"" 0 3, .leaf "string_content" 3 4, .token "\"\"\"\"" 4 8]

/-- The quotes that end a text are folded with it. -/
theorem folded_endQuoted : endQuoted.IsWrittenAs "\"\"\"a\"\"\"\"".toList endQuotedTree ∧
    ∀ lookUp, endQuoted.exactValue? lookUp = some (.text "a\"") ∧
      endQuotedTree.folded "\"\"\"a\"\"\"\"".toList lookUp = .text "a\"\"\"\"" := by
  have written :
      (QuotedLiteral.raw ['a'] 1).IsWrittenAs "\"\"\"a\"\"\"\"".toList endQuotedTree := by
    refine ⟨by decide, ⟨by decide, ?_, by decide, by decide, by decide⟩⟩
    exact ⟨.token "\"\"\"" 0 3, .token "\"\"\"\"" 4 8, rfl, rfl, rfl, rfl, rfl, by decide⟩
  refine ⟨.raw written, fun lookUp => ⟨rfl, ?_⟩⟩
  rw [Tree.folded_eq_iff rfl, QuotedLiteral.value?_raw written]
  rfl

end ConstantExpr

end SourceCapture
