/-
The value of a constant expression as a plain function. Folding asks for the values of names
while it goes; where names simply have values, its result is an optional value that comes
from the values of the expressions inside. The names that an expression can ask for are
known from its tree, and nothing else of the names around it counts: a name that has a value
may get one where there was none, and the expression keeps the value that it had.
-/

import SourceCapture.Site

namespace SourceCapture

/-! ### Folding without effects -/

theorem run_bind {First Next : Type} (first : OptionT Id First) (next : First → OptionT Id Next) :
    Id.run (first >>= next).run = (Id.run first.run).bind fun value => Id.run (next value).run := by
  rw [OptionT.run_bind, Option.elimM]
  show Option.elim (Id.run first.run) _ _ = _
  cases Id.run first.run <;> rfl

theorem run_mapM {Item Shown : Type} (show? : Item → OptionT Id Shown) (items : List Item) :
    Id.run (items.mapM show?).run =
      items.mapM (m := Option) fun item => Id.run (show? item).run := by
  induction items with
  | nil => rfl
  | cons item rest inductionHypothesis =>
    rw [List.mapM_cons, List.mapM_cons, run_bind]
    refine congrArg (Option.bind _) (funext fun shown => ?_)
    rw [run_bind, inductionHypothesis]
    rfl

/-- The value of an expression where names have the values that `lookUp` gives. -/
def Tree.value? (content : List Char) (lookUp : String → Option Const) (tree : Tree) :
    Option Const :=
  Id.run (tree.fold content fun name => (pure (lookUp name) : Id (Option Const))).run

/-- What a part of a text literal shows. -/
def TextPart.shown? (content : List Char) (lookUp : String → Option Const) :
    TextPart → Option String
  | .plain value => value.map String.ofList
  | .name written => (lookUp written).bind Const.display?
  | .expression inner => (inner.value? content lookUp).bind Const.display?

/-- The value of an expression of a form, from the values of the expressions and names in it. -/
def ConstShape.value? (content : List Char) (lookUp : String → Option Const) :
    ConstShape → Option Const
  | .known value => value
  | .name written => lookUp written
  | .wrapped inner => inner.value? content lookUp
  | .signed sign operand => (operand.value? content lookUp).bind (Const.signed? sign)
  | .binary operator left right =>
    (left.value? content lookUp).bind fun before =>
      (right.value? content lookUp).bind (Const.combine? operator before)
  | .text parts =>
    (parts.mapM (TextPart.shown? content lookUp)).map fun shown => .text (String.join shown)

namespace Tree

theorem value?_eq (content : List Char) (lookUp : String → Option Const) (tree : Tree) :
    tree.value? content lookUp = (ConstShape.ofTree content tree).value? content lookUp := by
  rw [value?, Tree.fold]
  split
  case h_1 form _ => rw [form]; rfl
  case h_2 form _ => rw [form]; rfl
  case h_3 form _ => rw [form]; rfl
  case h_4 form _ =>
    rw [form, run_bind]
    rfl
  case h_5 form _ =>
    rw [form, run_bind]
    refine congrArg (Option.bind _) (funext fun before => ?_)
    rw [run_bind]
    rfl
  case h_6 parts _ form _ =>
    rw [form, run_bind, run_mapM,
      List.mapM_subtype (g := TextPart.shown? content lookUp), List.unattach_attach]
    · exact Option.map_eq_bind.symm
    · intro part member
      cases part with
      | plain value => rfl
      | name written =>
        dsimp only [TextPart.shown?]
        rw [run_bind]
        rfl
      | expression inner =>
        dsimp only [TextPart.shown?]
        rw [run_bind]
        rfl

/-- What an expression is folded to where names have the values that `lookUp` gives. -/
def folded (content : List Char) (lookUp : String → Option Const) (tree : Tree) : Const :=
  Id.run (tree.evaluate content fun name => (pure (lookUp name) : Id (Option Const)))

theorem folded_eq (content : List Char) (lookUp : String → Option Const) (tree : Tree) :
    tree.folded content lookUp = (tree.value? content lookUp).getD
      (.nonConstant (String.ofList (tree.trimmedText content)) (some tree.span)) := rfl

theorem folded_eq_iff {content : List Char} {lookUp : String → Option Const} {tree : Tree}
    {value : Const} (isConstant : value.isConstant = true) :
    tree.folded content lookUp = value ↔ tree.value? content lookUp = some value := by
  rw [folded_eq]
  cases tree.value? content lookUp with
  | some found => exact Option.some_inj.symm
  | none =>
    refine iff_of_false ?_ nofun
    rintro rfl
    cases isConstant

end Tree

/-! ### The names an expression asks for -/

namespace TextPart

/-- The name that a part of a text literal is the value of. -/
def asked : TextPart → List String
  | .name written => [written]
  | _ => []

end TextPart

namespace ConstShape

/-- The names whose values an expression uses itself, not those of the expressions inside. -/
def asked : ConstShape → List String
  | .name written => [written]
  | .text parts => parts.flatMap TextPart.asked
  | _ => []

/-- What holds of an expression once it holds of the expressions inside holds of all. -/
theorem induction (content : List Char) {motive : Tree → Prop}
    (step : ∀ tree, (∀ inner ∈ (ofTree content tree).inner, motive inner) → motive tree)
    (tree : Tree) : motive tree :=
  step tree fun inner member =>
    have := sizeOf_lt_of_mem_ofTree content tree inner member
    induction content step inner
termination_by sizeOf tree

end ConstShape

namespace Tree

/-- The names whose values an expression can ask for. -/
def asked (content : List Char) (tree : Tree) : List String :=
  (ConstShape.ofTree content tree).asked ++
    (ConstShape.ofTree content tree).inner.attach.flatMap fun inner =>
      have := ConstShape.sizeOf_lt_of_mem_ofTree content tree inner.1 inner.2
      asked content inner.1
termination_by sizeOf tree

theorem mem_asked_iff (content : List Char) (tree : Tree) (name : String) :
    name ∈ tree.asked content ↔
      name ∈ (ConstShape.ofTree content tree).asked ∨
        ∃ inner ∈ (ConstShape.ofTree content tree).inner, name ∈ inner.asked content := by
  rw [asked, List.mem_append, List.mem_flatMap]
  refine or_congr Iff.rfl ⟨?_, ?_⟩
  · rintro ⟨⟨inner, member⟩, _, found⟩
    exact ⟨inner, member, found⟩
  · rintro ⟨inner, member, found⟩
    exact ⟨⟨inner, member⟩, List.mem_attach _ _, found⟩

end Tree

/-! ### More names with values -/

/-- A list of steps that succeed still succeeds when each of them does, with the same
results. -/
theorem mapM_mono {Item Shown : Type} {show? other? : Item → Option Shown} {items : List Item}
    (keeps : ∀ item ∈ items, ∀ shown, show? item = some shown → other? item = some shown)
    {results : List Shown} (succeeds : items.mapM show? = some results) :
    items.mapM other? = some results := by
  induction items generalizing results with
  | nil => exact succeeds
  | cons item rest inductionHypothesis =>
    rw [List.mapM_cons] at succeeds ⊢
    obtain ⟨shown, first, others⟩ := Option.bind_eq_some_iff.mp succeeds
    obtain ⟨tail, restShown, built⟩ := Option.bind_eq_some_iff.mp others
    refine Option.bind_eq_some_iff.mpr ⟨shown, keeps item List.mem_cons_self shown first, ?_⟩
    refine Option.bind_eq_some_iff.mpr ⟨tail, ?_, built⟩
    exact inductionHypothesis (fun other member => keeps other (List.mem_cons_of_mem _ member))
      restShown

theorem TextPart.shown?_mono {content : List Char} {lookUp other : String → Option Const}
    (part : TextPart)
    (named : ∀ name ∈ part.asked, ∀ value, lookUp name = some value → other name = some value)
    (inside : ∀ inner ∈ part.inner, ∀ value, inner.value? content lookUp = some value →
      inner.value? content other = some value)
    {shown : String} (known : part.shown? content lookUp = some shown) :
    part.shown? content other = some shown := by
  cases part with
  | plain literal => exact known
  | name written =>
    obtain ⟨value, found, displayed⟩ := Option.bind_eq_some_iff.mp known
    exact Option.bind_eq_some_iff.mpr
      ⟨value, named written (List.mem_singleton_self written) value found, displayed⟩
  | expression inner =>
    obtain ⟨value, folded, displayed⟩ := Option.bind_eq_some_iff.mp known
    exact Option.bind_eq_some_iff.mpr
      ⟨value, inside inner (List.mem_singleton_self inner) value folded, displayed⟩

/-- An expression keeps its value when the names that it uses itself and the expressions inside keep
theirs. -/
theorem ConstShape.value?_mono {content : List Char} {lookUp other : String → Option Const}
    (shape : ConstShape)
    (named : ∀ name ∈ shape.asked, ∀ value, lookUp name = some value → other name = some value)
    (inside : ∀ inner ∈ shape.inner, ∀ value, inner.value? content lookUp = some value →
      inner.value? content other = some value)
    {value : Const} (known : shape.value? content lookUp = some value) :
    shape.value? content other = some value := by
  cases shape with
  | known literal => exact known
  | name written => exact named written (List.mem_singleton_self written) value known
  | wrapped inner => exact inside inner (List.mem_singleton_self inner) value known
  | signed sign operand =>
    obtain ⟨inner, found, signed⟩ := Option.bind_eq_some_iff.mp known
    exact Option.bind_eq_some_iff.mpr
      ⟨inner, inside operand (List.mem_singleton_self operand) inner found, signed⟩
  | binary operator left right =>
    obtain ⟨before, leftFound, rest⟩ := Option.bind_eq_some_iff.mp known
    obtain ⟨after, rightFound, combined⟩ := Option.bind_eq_some_iff.mp rest
    refine Option.bind_eq_some_iff.mpr
      ⟨before, inside left List.mem_cons_self before leftFound, ?_⟩
    exact Option.bind_eq_some_iff.mpr ⟨after,
      inside right (List.mem_cons_of_mem _ (List.mem_singleton_self right)) after rightFound,
      combined⟩
  | text parts =>
    obtain ⟨shown, parted, joined⟩ := Option.map_eq_some_iff.mp known
    refine Option.map_eq_some_iff.mpr ⟨shown, mapM_mono (fun part member result found => ?_)
      parted, joined⟩
    exact part.shown?_mono
      (fun name asked => named name (List.mem_flatMap.mpr ⟨part, member, asked⟩))
      (fun inner below => inside inner (List.mem_flatMap.mpr ⟨part, member, below⟩)) found

namespace Tree

/-- An expression keeps its value when the names that it asks for keep theirs. -/
theorem value?_mono {content : List Char} {lookUp other : String → Option Const} (tree : Tree)
    (keeps : ∀ name ∈ tree.asked content, ∀ value, lookUp name = some value →
      other name = some value) {value : Const}
    (known : tree.value? content lookUp = some value) :
    tree.value? content other = some value := by
  induction tree using ConstShape.induction content generalizing value with
  | step tree inductionHypothesis =>
    rw [value?_eq] at known ⊢
    refine ConstShape.value?_mono _ (fun name member => ?_) (fun inner member value => ?_) known
    · exact keeps name ((mem_asked_iff content tree name).mpr (Or.inl member))
    · exact inductionHypothesis inner member fun name found =>
        keeps name ((mem_asked_iff content tree name).mpr (Or.inr ⟨inner, member, found⟩))

/-- The value of an expression only hangs on the names that it asks for. -/
theorem value?_congr {content : List Char} {lookUp other : String → Option Const} (tree : Tree)
    (same : ∀ name ∈ tree.asked content, lookUp name = other name) :
    tree.value? content lookUp = tree.value? content other := by
  refine Option.ext fun value => ⟨fun known => ?_, fun known => ?_⟩
  · exact value?_mono tree (fun name member value found => same name member ▸ found) known
  · exact value?_mono tree (fun name member value found => (same name member).symm ▸ found) known

end Tree

/-! ### Expressions at a place -/

theorem firstValue?_eq_findSome? {Value : Type} (lookUp : String → Option Value)
    (names : List String) :
    Id.run (firstValue? (fun name => (pure (lookUp name) : Id (Option Value))) names) =
      names.findSome? lookUp := by
  induction names with
  | nil => rfl
  | cons name rest inductionHypothesis =>
    rw [List.findSome?_cons, ← inductionHypothesis]
    rfl

theorem findSome?_congr {Item Value : Type} {first second : Item → Option Value}
    {items : List Item} (same : ∀ item ∈ items, first item = second item) :
    items.findSome? first = items.findSome? second := by
  induction items with
  | nil => rfl
  | cons item rest inductionHypothesis =>
    rw [List.forall_mem_cons] at same
    rw [List.findSome?_cons, List.findSome?_cons, same.1, inductionHypothesis same.2]

namespace Site

/-- The value that a name has at a place. -/
def meaning? (site : Site) (name : String) : Option Const :=
  (site.scope.constantNames site.enclosing site.symbols.hasClass name).findSome? site.constant?

theorem lookUp_eq (site : Site) : site.lookUp = site.meaning? :=
  funext fun _ => firstValue?_eq_findSome? _ _

/-- An expression without a value stands for its own text. -/
theorem evaluate_eq (site : Site) (tree : Tree) :
    site.evaluate tree = (tree.value? site.content site.meaning?).getD
      (.nonConstant (String.ofList (tree.trimmedText site.content)) (some tree.span)) := by
  rw [evaluate, lookUp_eq]
  rfl

theorem value?_eq_some_of_isConstant {site : Site} {tree : Tree}
    (constant : (site.evaluate tree).isConstant = true) :
    tree.value? site.content site.meaning? = some (site.evaluate tree) := by
  rw [evaluate_eq] at constant ⊢
  cases found : tree.value? site.content site.meaning? with
  | none =>
    rw [found] at constant
    cases constant
  | some value => rfl

/-- Places of one text at which the names of an expression mean the same give it the same
value. -/
theorem evaluate_congr {site other : Site} (tree : Tree) (sameText : site.content = other.content)
    (same : ∀ name ∈ tree.asked site.content, site.meaning? name = other.meaning? name) :
    site.evaluate tree = other.evaluate tree := by
  rw [evaluate_eq, evaluate_eq, ← sameText, Tree.value?_congr tree same]

/-- An expression with a value has the same one where the names in it mean no less. -/
theorem evaluate_of_isConstant {site other : Site} {tree : Tree}
    (sameText : site.content = other.content)
    (keeps : ∀ name ∈ tree.asked site.content, ∀ value, site.meaning? name = some value →
      other.meaning? name = some value)
    (constant : (site.evaluate tree).isConstant = true) :
    other.evaluate tree = site.evaluate tree := by
  have known := Tree.value?_mono tree keeps (value?_eq_some_of_isConstant constant)
  rw [evaluate_eq other, ← sameText, known, Option.getD_some]

end Site

end SourceCapture
