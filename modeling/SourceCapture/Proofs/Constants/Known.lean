/-
What is known as a constant has a value. Only definitions that fold to a value are recorded, and
values of expressions are made of literals and of values of names. So at every place of a run an
expression without a value can be told from one with a value, and the text and the place that are
kept for it are its own.
-/

import SourceCapture.Proofs.Constants.AcrossFiles
import SourceCapture.Proofs.Constants.Operations
import SourceCapture.Proofs.Symbols.Registered

namespace SourceCapture

/-! ### Operations -/

namespace Const

variable {value result : Const}

theorem isConstant_of_ofInt? {number : Int} (fits : ofInt? number = some result) :
    result.isConstant = true := by
  rw [ofInt?] at fits
  split at fits
  · cases fits
    rfl
  · cases fits

theorem isConstant_of_signed? {sign : Char} (signed : signed? sign value = some result) :
    result.isConstant = true := by
  unfold signed? at signed
  split at signed
  · exact isConstant_of_ofInt? signed
  · cases signed
    rfl
  · cases signed
    rfl
  · cases signed

theorem isConstant_of_arithmetic? {operator : String} {left right : Int}
    (computed : arithmetic? operator left right = some result) : result.isConstant = true := by
  unfold arithmetic? at computed
  repeat' split at computed
  all_goals first
    | exact isConstant_of_ofInt? computed
    | cases computed

theorem isConstant_of_combine? {operator : String} {left right : Const}
    (combined : combine? operator left right = some result) : result.isConstant = true := by
  unfold combine? at combined
  split at combined
  · split at combined
    · obtain ⟨shown, -, rfl⟩ := Option.map_eq_some_iff.mp combined
      rfl
    · cases combined
  · split at combined
    · obtain ⟨shown, -, rfl⟩ := Option.map_eq_some_iff.mp combined
      rfl
    · cases combined
  · exact isConstant_of_arithmetic? combined
  · cases combined

end Const

/-! ### Expressions -/

namespace ConstShape

variable {content : List Char} {tree : Tree} {value : Const}

theorem isConstant_of_ofWord {written : List Char}
    (known : ofWord written = .known (some value)) : value.isConstant = true := by
  unfold ofWord at known
  split at known
  · cases known
    rfl
  · split at known
    · cases known
      rfl
    · cases known

theorem isConstant_of_ofText (known : ofText content tree = .known (some value)) :
    value.isConstant = true := by
  unfold ofText at known
  dsimp only at known
  split at known
  · obtain ⟨text, -, rfl⟩ := Option.map_eq_some_iff.mp (ConstShape.known.inj known)
    rfl
  · cases known

/-- A literal is a constant. -/
theorem isConstant_of_known (known : ofTree content tree = .known (some value)) :
    value.isConstant = true := by
  unfold ofTree at known
  dsimp only at known
  split at known
  case h_1 => exact isConstant_of_ofText known
  case h_2 =>
    obtain ⟨text, -, rfl⟩ := Option.map_eq_some_iff.mp (ConstShape.known.inj known)
    rfl
  case h_3 =>
    obtain ⟨number, -, rfl⟩ := Option.map_eq_some_iff.mp (ConstShape.known.inj known)
    rfl
  case h_4 =>
    obtain ⟨truth, -, rfl⟩ := Option.map_eq_some_iff.mp (ConstShape.known.inj known)
    rfl
  case h_5 =>
    cases known
    rfl
  case h_6 => exact isConstant_of_ofWord known
  case h_7 => cases known
  -- What is left is made of other expressions, or has no value.
  case h_8 => split at known <;> cases known
  case h_9 =>
    unfold ofBinary at known
    split at known <;> cases known
  case h_10 =>
    unfold ofPrefix at known
    split at known <;> cases known
  case h_11 =>
    unfold ofWrapper at known
    split at known
    · split at known <;> cases known
    · cases known

end ConstShape

/-- Where names have constants as values, so have expressions. -/
theorem Tree.isConstant_of_value? {content : List Char} {lookUp : String → Option Const}
    (named : ∀ name value, lookUp name = some value → value.isConstant = true) (tree : Tree)
    {value : Const} (folded : tree.value? content lookUp = some value) :
    value.isConstant = true := by
  induction tree using ConstShape.induction content generalizing value with
  | step tree inductionHypothesis =>
    rw [value?_eq] at folded
    cases form : ConstShape.ofTree content tree with
    | known literal =>
      rw [form] at folded
      exact ConstShape.isConstant_of_known (form.trans (congrArg _ folded))
    | name written =>
      rw [form] at folded
      exact named written value folded
    | wrapped inner =>
      rw [form] at folded inductionHypothesis
      exact inductionHypothesis inner (List.mem_singleton_self inner) folded
    | signed sign operand =>
      rw [form] at folded
      obtain ⟨inner, -, signed⟩ := Option.bind_eq_some_iff.mp folded
      exact Const.isConstant_of_signed? signed
    | binary operator left right =>
      rw [form] at folded
      obtain ⟨before, -, rest⟩ := Option.bind_eq_some_iff.mp folded
      obtain ⟨after, -, combined⟩ := Option.bind_eq_some_iff.mp rest
      exact Const.isConstant_of_combine? combined
    | text parts =>
      rw [form] at folded
      obtain ⟨shown, -, rfl⟩ := Option.map_eq_some_iff.mp folded
      rfl

/-- A list of steps that succeeds has a result of each of them. -/
theorem exists_of_mapM_eq_some {Item Shown : Type} {show? : Item → Option Shown}
    {items : List Item} {results : List Shown} (succeeds : items.mapM show? = some results) :
    ∀ item ∈ items, ∃ shown, show? item = some shown := by
  induction items generalizing results with
  | nil => exact nofun
  | cons item rest inductionHypothesis =>
    rw [List.mapM_cons] at succeeds
    obtain ⟨shown, first, others⟩ := Option.bind_eq_some_iff.mp succeeds
    obtain ⟨tail, restShown, -⟩ := Option.bind_eq_some_iff.mp others
    exact List.forall_mem_cons.mpr ⟨⟨shown, first⟩, inductionHypothesis restShown⟩

/-- A part of a text literal that is shown has used the value it stands for. -/
theorem TextPart.exists_of_shown? {content : List Char} {lookUp : String → Option Const}
    {part : TextPart} {shown : String} (displayed : part.shown? content lookUp = some shown) :
    (∀ name ∈ part.asked, ∃ found, lookUp name = some found ∧ found.isConstant = true) ∧
      ∀ inner ∈ part.inner, ∃ found, inner.value? content lookUp = some found ∧
        found.isConstant = true := by
  cases part with
  | plain literal => exact ⟨nofun, nofun⟩
  | name written =>
    obtain ⟨found, known, displays⟩ := Option.bind_eq_some_iff.mp displayed
    refine ⟨fun name isName => ?_, nofun⟩
    rw [List.mem_singleton.mp isName]
    exact ⟨found, known, Const.isConstant_of_display? displays⟩
  | expression other =>
    obtain ⟨found, known, displays⟩ := Option.bind_eq_some_iff.mp displayed
    refine ⟨nofun, fun inner isInner => ?_⟩
    rw [List.mem_singleton.mp isInner]
    exact ⟨found, known, Const.isConstant_of_display? displays⟩

/-- An expression with a value has used the values of its own names and of the expressions inside. -/
theorem ConstShape.exists_of_value? {content : List Char} {lookUp : String → Option Const}
    {shape : ConstShape} {value : Const} (folded : shape.value? content lookUp = some value)
    (constant : value.isConstant = true) :
    (∀ name ∈ shape.asked, ∃ found, lookUp name = some found ∧ found.isConstant = true) ∧
      ∀ inner ∈ shape.inner, ∃ found, inner.value? content lookUp = some found ∧
        found.isConstant = true := by
  cases shape with
  | known literal => exact ⟨nofun, nofun⟩
  | name written => exact ⟨List.forall_mem_singleton.mpr ⟨value, folded, constant⟩, nofun⟩
  | wrapped inner => exact ⟨nofun, List.forall_mem_singleton.mpr ⟨value, folded, constant⟩⟩
  | signed sign operand =>
    obtain ⟨inner, found, signed⟩ := Option.bind_eq_some_iff.mp folded
    exact ⟨nofun, List.forall_mem_singleton.mpr
      ⟨inner, found, Const.operand_isConstant_of_signed? signed⟩⟩
  | binary operator left right =>
    obtain ⟨before, leftFound, rest⟩ := Option.bind_eq_some_iff.mp folded
    obtain ⟨after, rightFound, combined⟩ := Option.bind_eq_some_iff.mp rest
    obtain ⟨leftConstant, rightConstant⟩ := Const.operands_isConstant_of_combine? combined
    exact ⟨nofun, List.forall_mem_cons.mpr ⟨⟨before, leftFound, leftConstant⟩,
      List.forall_mem_singleton.mpr ⟨after, rightFound, rightConstant⟩⟩⟩
  | text parts =>
    obtain ⟨shown, parted, -⟩ := Option.map_eq_some_iff.mp folded
    have succeeds := exists_of_mapM_eq_some parted
    refine ⟨fun name asked => ?_, fun inner inside => ?_⟩
    · obtain ⟨part, member, isName⟩ := List.mem_flatMap.mp asked
      obtain ⟨result, displayed⟩ := succeeds part member
      exact (TextPart.exists_of_shown? displayed).1 name isName
    · obtain ⟨part, member, isInner⟩ := List.mem_flatMap.mp inside
      obtain ⟨result, displayed⟩ := succeeds part member
      exact (TextPart.exists_of_shown? displayed).2 inner isInner

/-- An expression with a value has used the values of all names that it asks for. -/
theorem Tree.exists_of_mem_asked {content : List Char} {lookUp : String → Option Const}
    (tree : Tree) {value : Const} (folded : tree.value? content lookUp = some value)
    (constant : value.isConstant = true) {name : String} (asked : name ∈ tree.asked content) :
    ∃ found, lookUp name = some found ∧ found.isConstant = true := by
  induction tree using ConstShape.induction content generalizing value with
  | step tree inductionHypothesis =>
    rw [value?_eq] at folded
    obtain ⟨used, inside⟩ := ConstShape.exists_of_value? folded constant
    rcases (mem_asked_iff content tree name).mp asked with own | ⟨inner, member, below⟩
    · exact used name own
    · obtain ⟨found, innerFolded, innerConstant⟩ := inside inner member
      exact inductionHypothesis inner member innerFolded innerConstant below

namespace Site

/-- Whether what is known as a constant at a place has a value. -/
def KnowsValues (site : Site) : Prop :=
  ∀ fqn value, site.constant? fqn = some value → value.isConstant = true

/-- An expression without a value keeps its own text and its own place. -/
theorem evaluate_eq_nonConstant {site : Site} (knows : site.KnowsValues) {tree : Tree}
    {written : String} {span : Option Span}
    (unknown : site.evaluate tree = .nonConstant written span) :
    written = String.ofList (tree.trimmedText site.content) ∧ span = some tree.span := by
  have named : ∀ name value, site.meaning? name = some value → value.isConstant = true := by
    intro name value meant
    obtain ⟨fqn, -, known⟩ := List.exists_of_findSome?_eq_some meant
    exact knows fqn value known
  rw [evaluate_eq] at unknown
  cases folded : tree.value? site.content site.meaning? with
  | none =>
    rw [folded] at unknown
    cases unknown
    exact ⟨rfl, rfl⟩
  | some value =>
    have constant := tree.isConstant_of_value? named folded
    rw [folded, Option.getD_some] at unknown
    rw [unknown] at constant
    cases constant

end Site

/-! ### The constants of a run -/

/-- Whether what is registered as a constant has a value. -/
def SymbolTable.KnowsValues (symbols : SymbolTable) : Prop :=
  ∀ fqn value, symbols.constant? fqn = some value → value.isConstant = true

namespace ParsedFile

variable {file : ParsedFile} {markers : MarkerNames} {symbols : SymbolTable}

theorem knowsValues_site (knows : symbols.KnowsValues) :
    (file.site symbols markers).KnowsValues := by
  intro fqn value known
  exact knows fqn value known

theorem knowsValues_addConstants (knows : symbols.KnowsValues) :
    (file.addConstants markers symbols).KnowsValues := by
  intro fqn value known
  rw [constant?_addConstants, Option.or_eq_some_iff] at known
  rcases known with own | ⟨-, before⟩
  · have kept := (Site.mem_constantsOf_iff rfl _ _ _).mp (Table.mem_of_find? own)
    exact (Site.reaches_foldAll _ _).isConstant_of_get? rfl kept
  · exact knows fqn value before

theorem knowsValues_addDeclarations (knows : symbols.KnowsValues) :
    (file.addDeclarations markers symbols).KnowsValues := by
  intro fqn value known
  rw [SymbolTable.constant?, addDeclarations, FileSymbols.constants_register] at known
  exact knows fqn value known

end ParsedFile

/-- Before the first declaration is registered, what is known as a constant has a value. -/
theorem knowsValues_constantsAfter (markers : MarkerNames) (files : List ParsedFile) :
    (constantsAfter markers files).KnowsValues := by
  have kept : ∀ (order : List ParsedFile) (symbols : SymbolTable), symbols.KnowsValues →
      (order.foldl (ParsedFile.addConstants markers) symbols).KnowsValues := by
    intro order
    induction order with
    | nil => exact fun symbols knows => knows
    | cons file rest inductionHypothesis =>
      exact fun symbols knows =>
        inductionHypothesis _ (ParsedFile.knowsValues_addConstants knows)
  exact kept files {} nofun

end SourceCapture
