/-
Headers of functions. What stands between the keyword and the parameters is cut into type
parameters, a receiver and a name by counting brackets, and the tip of an arrow counts as one that
closes. So an arrow in the bound of a type parameter ends the type parameters there, and the dot
behind a receiver with an arrow is not seen. Then more or less than the name is read as the name.
-/

import SourceCapture.Header
import SourceCapture.Proofs.Headers.TypeParameters
import SourceCapture.Proofs.SampleTrees
import SourceCapture.Proofs.Text.Levels

namespace SourceCapture

open Text (Closed IsTight IsTypeText ListedAs isBlank allBlank level)

/-! ### White space -/

namespace Text

variable {gap text front back : List Char}

theorem level_of_allBlank (rounds : Bool) (blank : allBlank gap = true) : level rounds gap = 0 := by
  rw [allBlank, List.all_eq_true] at blank
  exact total_eq_zero fun char member =>
    weight_of_isOrdinary (isOrdinary_of_isBlank (blank char member))

theorem level_trimStart (rounds : Bool) (text : List Char) :
    level rounds (trimStart text) = level rounds text := by
  obtain ⟨head, split, blank, -⟩ := exists_trimStart text
  have whole := congrArg (level rounds) split
  rw [level_append, level_of_allBlank rounds blank, Int.zero_add] at whole
  exact whole.symm

/-- White space in front of a text does not matter for the dots that are seen in it. -/
theorem splitLastDotFrom?_blank (blank : allBlank gap = true) (text : List Char) :
    splitLastDotFrom? 0 (gap ++ text) =
      (splitLastDotFrom? 0 text).map fun parts => (gap ++ parts.1, parts.2) := by
  have undotted : splitLastDotFrom? 0 gap = none :=
    splitLastDotFrom?_eq_none (not_mem_of_allBlank (by decide) blank)
  rw [splitLastDotFrom?_append, level_of_allBlank true blank, Int.add_zero, undotted]
  cases splitLastDotFrom? 0 text <;> rfl

/-- A dot behind white space is in the text behind it. -/
theorem exists_of_gap_append (blank : allBlank gap = true)
    (same : gap ++ text = front ++ '.' :: back) : ∃ before, text = before ++ '.' :: back := by
  rcases List.append_eq_append_iff.mp same with ⟨before, -, inText⟩ | ⟨rest, rfl, inGap⟩
  · exact ⟨before, inText⟩
  · rcases List.cons_eq_append_iff.mp inGap with ⟨-, whole⟩ | ⟨others, rfl, -⟩
    · exact ⟨[], whole⟩
    · exact absurd (List.mem_append_right _ List.mem_cons_self)
        (not_mem_of_allBlank (by decide) blank)

end Text

/-- White space around a type does not matter. -/
theorem WrittenType.parse_trim (text : List Char) : parse (Text.trim text) = parse text := by
  have same : core (Text.trim text) = core text := by
    obtain ⟨head, middle, tail, trims⟩ := Text.exists_trims text
    rw [core, core, trims.trim_eq, trims.tight.trims.trim_eq]
  rw [parse_eq, same, ← parse_eq]

theorem Site.parseType_trim (site : Site) (text : List Char) :
    site.parseType (Text.trim text) = site.parseType text := by
  rw [parseType, WrittenType.parse_trim, parseType]

/-! ### Receivers and names -/

namespace FunctionHeader

variable {name : SourceName}

/-- A name without anything in front of it is read as it is if no dot is seen in it. -/
theorem splitReceiver_name_iff (valid : name.IsValid) :
    (splitReceiver name.text).2 = name.bare ↔ Text.splitLastDot? name.text = none := by
  rw [splitReceiver]
  cases found : Text.splitLastDot? name.text with
  | none =>
    rw [(SourceName.isTight valid).trims.trim_eq, SourceName.unquote_text valid]
    exact iff_of_true rfl rfl
  | some parts =>
    have inside := (Text.of_splitLastDotFrom? found).1
    exact iff_of_false (SourceName.unquote_ne_of_shorter valid (by decide) inside) nofun

/-- A receiver is cut off at the dot behind it if that is outside of brackets. -/
theorem splitReceiver_append (valid : name.IsValid) {front gap : List Char}
    (outside : level true front = 0) (blank : allBlank gap = true)
    (undotted : Text.splitLastDot? name.text = none) :
    splitReceiver (front ++ '.' :: (gap ++ name.text)) = (some front, name.bare) := by
  have behind : Text.splitLastDotFrom? 0 (gap ++ name.text) = none := by
    rw [Text.splitLastDotFrom?_blank blank]
    exact congrArg _ undotted
  have here : Text.splitLastDotFrom? 0 ('.' :: (gap ++ name.text)) = some ([], gap ++ name.text) := by
    have level : 0 + Text.weight true '.' = 0 := rfl
    rw [Text.splitLastDotFrom?_cons, level, behind]
    rfl
  have cut : Text.splitLastDot? (front ++ '.' :: (gap ++ name.text)) =
      some (front, gap ++ name.text) := by
    rw [Text.splitLastDot?, Text.splitLastDotFrom?_append, outside, Int.add_zero, here]
    simp only [List.append_nil]
  have bare : Text.trim (gap ++ name.text) = name.text :=
    (SourceName.isTight valid).trim_blank_append blank
  rw [splitReceiver, cut]
  show (some front, Name.unquote (Text.trim (gap ++ name.text))) = _
  rw [bare, SourceName.unquote_text valid]

/-- Whatever else stands in front of a name, more or less than the name is read. -/
theorem splitReceiver_append_ne (valid : name.IsValid) {front gap : List Char} {char : Char}
    (solid : isBlank char = false) (other : char ≠ Name.quote) (blank : allBlank gap = true)
    (unseen : ¬(char = '.' ∧ level true front = 0 ∧ Text.splitLastDot? name.text = none)) :
    (splitReceiver (front ++ char :: (gap ++ name.text))).2 ≠ name.bare := by
  rw [splitReceiver]
  cases found : Text.splitLastDot? (front ++ char :: (gap ++ name.text)) with
  | none => exact SourceName.unquote_ne_of_longer valid solid other front gap
  | some parts =>
    obtain ⟨left, right⟩ := parts
    obtain ⟨same, outside, last⟩ := Text.of_splitLastDotFrom? found
    show Name.unquote (Text.trim right) ≠ name.bare
    -- The dot is not the character, or else there is another one behind it.
    have apart : front ≠ left := by
      rintro rfl
      obtain ⟨rfl, rfl⟩ := List.cons.inj (List.append_cancel_left same)
      rw [Int.zero_add] at outside
      rw [Text.splitLastDotFrom?_blank blank, Option.map_eq_none_iff] at last
      exact unseen ⟨rfl, outside, last⟩
    rcases List.append_eq_append_iff.mp same with ⟨rest, rfl, cut⟩ | ⟨rest, rfl, cut⟩
    · rcases List.cons_eq_append_iff.mp cut with ⟨rfl, -⟩ | ⟨inner, rfl, later⟩
      · exact absurd (List.append_nil front).symm apart
      · -- The dot is behind the character, so it is in the name.
        obtain ⟨before, inName⟩ := Text.exists_of_gap_append blank later
        exact SourceName.unquote_ne_of_shorter valid (by decide) inName
    · -- The dot is in front of the character, so the character is read with the name.
      rcases List.cons_eq_append_iff.mp cut with ⟨rfl, -⟩ | ⟨inner, rfl, rfl⟩
      · exact absurd (List.append_nil left) apart
      · exact SourceName.unquote_ne_of_longer valid solid other inner gap

/-- White space at the start does not matter for that. -/
theorem splitReceiver_trim_ne (valid : name.IsValid) {front gap : List Char} {char : Char}
    (solid : isBlank char = false) (other : char ≠ Name.quote) (blank : allBlank gap = true)
    (unseen : ¬(char = '.' ∧ level true front = 0 ∧ Text.splitLastDot? name.text = none)) :
    (splitReceiver (Text.trim (front ++ char :: (gap ++ name.text)))).2 ≠ name.bare := by
  rw [Text.trim_append_cons solid,
    (SourceName.isTight valid).trimEnd_append (SourceName.nonempty valid)]
  refine splitReceiver_append_ne valid solid other blank ?_
  rwa [Text.level_trimStart]

end FunctionHeader

/-! ### Functions as they are written -/

/-- A function with its type parameters, the type of its receiver, and its name. -/
structure SourceFunction where
  typeParameters : List SourceTypeParameter
  receiver? : Option (List Char)
  name : SourceName

namespace SourceFunction

/-- How the type parameters of a function are written. -/
inductive WritesTypeParameters : List SourceTypeParameter → List Char → Prop where
  | without : WritesTypeParameters [] []
  | angles {parameters : List SourceTypeParameter} {texts : List (List Char)} {list gap : List Char}
      (nonempty : parameters ≠ []) (written : List.Forall₂ SourceTypeParameter.Writes parameters texts)
      (listed : ListedAs ',' texts list) (blank : allBlank gap = true) :
      WritesTypeParameters parameters ('<' :: (list ++ '>' :: gap))

/-- How the receiver of a function is written, with the dot behind it. -/
inductive WritesReceiver : Option (List Char) → List Char → Prop where
  | without : WritesReceiver none []
  | dotted {receiver before after : List Char} (beforeBlank : allBlank before = true)
      (afterBlank : allBlank after = true) :
      WritesReceiver (some receiver) (receiver ++ (before ++ '.' :: after))

/-- How a function is written between its keyword and its parameters. -/
inductive Writes : SourceFunction → List Char → Prop where
  | intro {typeParameters : List SourceTypeParameter} {receiver? : Option (List Char)}
      {name : SourceName} {front middle : List Char}
      (parameters : WritesTypeParameters typeParameters front)
      (receiver : WritesReceiver receiver? middle) :
      Writes ⟨typeParameters, receiver?, name⟩ (front ++ (middle ++ name.text))

/-- Whether the names, the bounds and the type of the receiver are proper ones. -/
structure IsValid (function : SourceFunction) : Prop where
  typeParameters : ∀ parameter ∈ function.typeParameters, parameter.IsValid
  receiver : ∀ receiver ∈ function.receiver?, IsTypeText receiver
  name : function.name.IsValid

/-- The declared names of the type parameters. -/
def typeParameterNames (function : SourceFunction) : List String :=
  function.typeParameters.map (·.name.bare)

/-- Whether nothing in a function is taken for something else: the names of the type parameters are
plain words that are no modifiers, there are no arrows in front of the name, and every dot in the
name is inside of brackets that are in the name. -/
structure IsPlain (function : SourceFunction) : Prop where
  unquoted : ∀ parameter ∈ function.typeParameters, ∃ word, parameter.name = .plain word
  unmarked : ∀ parameter ∈ function.typeParameters,
    parameter.name.bare ∉ Parameter.typeParameterModifiers
  arrowlessBounds : ∀ parameter ∈ function.typeParameters, ∀ bound ∈ parameter.bound?, '-' ∉ bound
  arrowlessReceiver : ∀ receiver ∈ function.receiver?, '-' ∉ receiver
  undotted : ∀ left right, function.name.text = left ++ '.' :: right → level true left ≠ 0

/-! ### The receiver and the name -/

variable {name : SourceName} {receiver? : Option (List Char)} {front middle : List Char}
  {typeParameters : List SourceTypeParameter}

theorem undotted_iff : Text.splitLastDot? name.text = none ↔
    ∀ left right, name.text = left ++ '.' :: right → level true left ≠ 0 := by
  rw [Text.splitLastDot?, Text.splitLastDotFrom?_eq_none_iff]
  simp only [Int.zero_add]

/-- As many brackets are open behind a receiver as there are arrows in it. -/
theorem level_receiver_eq_zero_iff {receiver before : List Char} (isType : IsTypeText receiver)
    (blank : allBlank before = true) : level true (receiver ++ before) = 0 ↔ '-' ∉ receiver := by
  rw [Text.level_append, Text.level_of_allBlank true blank, isType.closed.level_eq,
    ← List.count_eq_zero]
  omega

namespace WritesReceiver

theorem splitReceiver_iff (writes : WritesReceiver receiver? middle)
    (isType : ∀ receiver ∈ receiver?, IsTypeText receiver) (valid : name.IsValid) :
    (FunctionHeader.splitReceiver (middle ++ name.text)).2 = name.bare ↔
      (∀ receiver ∈ receiver?, '-' ∉ receiver) ∧ Text.splitLastDot? name.text = none := by
  cases writes with
  | without =>
    rw [List.nil_append, FunctionHeader.splitReceiver_name_iff valid]
    exact (and_iff_right nofun).symm
  | @dotted receiver before after beforeBlank afterBlank =>
    have outside := level_receiver_eq_zero_iff (isType _ rfl) beforeBlank
    have cut : receiver ++ (before ++ '.' :: after) ++ name.text =
        receiver ++ before ++ '.' :: (after ++ name.text) := by
      simp
    rw [cut]
    constructor
    · intro read
      by_contra seen
      refine FunctionHeader.splitReceiver_append_ne valid (by decide) (by decide) afterBlank ?_ read
      rintro ⟨-, closed, undotted⟩
      refine seen ⟨?_, undotted⟩
      rintro _ ⟨⟩
      exact outside.mp closed
    · rintro ⟨arrowless, undotted⟩
      rw [FunctionHeader.splitReceiver_append valid (outside.mpr (arrowless _ rfl)) afterBlank
        undotted]

/-- The type of the receiver is read with the white space behind it. -/
theorem exists_splitReceiver (writes : WritesReceiver receiver? middle)
    (isType : ∀ receiver ∈ receiver?, IsTypeText receiver) (valid : name.IsValid)
    (arrowless : ∀ receiver ∈ receiver?, '-' ∉ receiver)
    (undotted : Text.splitLastDot? name.text = none) :
    ∃ written?, FunctionHeader.splitReceiver (middle ++ name.text) = (written?, name.bare) ∧
      written?.map Text.trim = receiver? := by
  cases writes with
  | without =>
    have read := (FunctionHeader.splitReceiver_name_iff valid).mpr undotted
    refine ⟨none, Prod.ext ?_ read, rfl⟩
    rw [List.nil_append, FunctionHeader.splitReceiver, undotted]
  | @dotted receiver before after beforeBlank afterBlank =>
    have outside := (level_receiver_eq_zero_iff (isType _ rfl) beforeBlank).mpr (arrowless _ rfl)
    refine ⟨some (receiver ++ before), ?_, ?_⟩
    · rw [← FunctionHeader.splitReceiver_append valid outside afterBlank undotted]
      simp
    · exact congrArg some ((isType receiver rfl).tight.trim_append_blank beforeBlank)

theorem isTight (writes : WritesReceiver receiver? middle)
    (isType : ∀ receiver ∈ receiver?, IsTypeText receiver) (valid : name.IsValid) :
    IsTight (middle ++ name.text) := by
  have tight := SourceName.isTight valid
  cases writes with
  | without => exact tight
  | dotted =>
    have type := isType _ rfl
    refine Text.isTight_append (by simp) (SourceName.nonempty valid) ?_ tight.2
    rw [List.head?_append_of_ne_nil _ type.nonempty]
    exact type.tight.1

theorem head?_ne (writes : WritesReceiver receiver? middle)
    (isType : ∀ receiver ∈ receiver?, IsTypeText receiver) (valid : name.IsValid) :
    (middle ++ name.text).head? ≠ some '<' := by
  cases writes with
  | without => exact SourceName.head?_ne valid
  | dotted =>
    have type := isType _ rfl
    rw [List.append_assoc, List.head?_append_of_ne_nil _ type.nonempty]
    exact type.unopened

end WritesReceiver

/-! ### The type parameters -/

section

variable {parameters : List SourceTypeParameter} {texts : List (List Char)}
  {list gap rest : List Char} {names : List String} {content : List Char} {tree : Tree}

theorem splitTypeParameters?_angle (content : List Char) (tree : Tree) (text : List Char) :
    FunctionHeader.splitTypeParameters? content tree ('<' :: text) =
      (Text.splitClosingAngle? ('<' :: text)).map fun parts =>
        (Parameter.typeNamesOfText parts.1, Text.trim parts.2) := rfl

theorem closed_list (valid : ∀ parameter ∈ parameters, parameter.IsValid)
    (unquoted : ∀ parameter ∈ parameters, ∃ word, parameter.name = .plain word)
    (written : List.Forall₂ SourceTypeParameter.Writes parameters texts)
    (listed : ListedAs ',' texts list) : Closed (fun _ => true) list := by
  have items := SourceTypeParameter.areItems valid unquoted written
  exact listed.closed rfl (by decide) fun text member => (items text member).1.all

/-- Without quotes and arrows the type parameters are cut off at their end. -/
theorem splitTypeParameters?_of_arrowless (valid : ∀ parameter ∈ parameters, parameter.IsValid)
    (unquoted : ∀ parameter ∈ parameters, ∃ word, parameter.name = .plain word)
    (written : List.Forall₂ SourceTypeParameter.Writes parameters texts)
    (listed : ListedAs ',' texts list) (arrowless : '-' ∉ list) (blank : allBlank gap = true)
    (tight : IsTight rest) :
    FunctionHeader.splitTypeParameters? content tree ('<' :: (list ++ '>' :: gap) ++ rest) =
      some (Parameter.typeNamesOfText ('<' :: (list ++ ['>'])), rest) := by
  have closed := closed_list valid unquoted written listed
  have cut : Text.splitClosingAngle? ('<' :: (list ++ '>' :: (gap ++ rest))) =
      some ('<' :: (list ++ ['>']), gap ++ rest) := by
    rw [closed.splitClosingAngle?_append arrowless]
    rfl
  rw [List.cons_append, List.append_assoc, List.cons_append, splitTypeParameters?_angle, cut,
    Option.map_some, tight.trim_blank_append blank]

/-- An arrow among the type parameters ends them, and the name is read with what is behind it. -/
theorem splitReceiver_ne_of_arrow (closed : Closed (fun _ => true) list) (arrow : '-' ∈ list)
    (blank : allBlank gap = true) (writes : WritesReceiver receiver? middle)
    (isType : ∀ receiver ∈ receiver?, IsTypeText receiver) (valid : name.IsValid)
    (split : FunctionHeader.splitTypeParameters? content tree
      ('<' :: (list ++ '>' :: gap) ++ (middle ++ name.text)) = some (names, rest)) :
    (FunctionHeader.splitReceiver rest).2 ≠ name.bare := by
  obtain ⟨front, back, same, balanced, found⟩ := closed.exists_splitClosingAngle? arrow
  rw [List.cons_append, List.append_assoc, splitTypeParameters?_angle, found] at split
  cases split
  -- What is left of the type parameters closes more brackets than it opens, but for the first one.
  have level_back : level true back ≤ 0 := by
    have rounds := closed.total_roundWeight_nonneg same
    have whole := closed.level_eq true
    have counted := List.count_pos_iff.mpr arrow
    rw [same, Text.level_append, Text.level_cons, Text.level_true front, balanced, ← same] at whole
    have tip := Text.weight_tip true
    omega
  cases writes with
  | without =>
    exact FunctionHeader.splitReceiver_trim_ne valid (by decide) (by decide) blank fun seen =>
      absurd seen.1 (by decide)
  | @dotted receiver before after beforeBlank afterBlank =>
    have cut : back ++ ('>' :: gap ++ (receiver ++ (before ++ '.' :: after) ++ name.text)) =
        back ++ '>' :: (gap ++ (receiver ++ before)) ++ '.' :: (after ++ name.text) := by
      simp
    rw [cut]
    refine FunctionHeader.splitReceiver_trim_ne valid (by decide) (by decide) afterBlank fun seen => ?_
    have outside := seen.2.1
    rw [Text.level_append, Text.level_cons, Text.level_append, Text.level_append,
      Text.level_of_allBlank true blank, Text.level_of_allBlank true beforeBlank,
      (isType receiver rfl).closed.level_eq] at outside
    have tip := Text.weight_tip true
    omega

/-- If the cut is in front of the first quote, there are fewer names than type parameters. -/
theorem length_names_lt {front mark after : List Char}
    (leads : SourceTypeParameter.LeadsToQuote parameters {} front mark) (arrow : '-' ∈ front)
    (split : FunctionHeader.splitTypeParameters? content tree ('<' :: (front ++ after)) =
      some (names, rest)) : names.length < parameters.length := by
  obtain ⟨left, right, same, -, found⟩ := leads.closed.exists_splitClosingAngle? arrow
  rw [splitTypeParameters?_angle, found] at split
  cases split
  have fewer := leads.cut left right same
  have named := List.length_filterMap_le Parameter.typeNameOfText? (Text.splitTopLevel ',' left)
  have kept := List.length_filter_le (!·.isEmpty) ((Text.piecesFrom ',' {} left).map Text.trim)
  rw [List.length_map] at kept
  rw [SourceTypeParameter.typeNamesOfText_angles]
  rw [Text.splitTopLevel_eq, Text.partsFrom] at named ⊢
  omega

/-- If the cut is behind the first quote, the quote is read with the name behind it. -/
theorem exists_quoted_name {front mark after : List Char}
    (leads : SourceTypeParameter.LeadsToQuote parameters {} front mark) (arrowless : '-' ∉ front)
    (split : FunctionHeader.splitTypeParameters? content tree
      ('<' :: (front ++ (mark ++ Name.quote :: after))) = some (names, rest)) :
    ∃ name ∈ names, Name.quote ∈ name.toList := by
  obtain ⟨isReified, marked⟩ := leads.modifier
  have closed : Closed (fun _ => true) (front ++ (mark ++ [Name.quote])) :=
    leads.closed.append (marked.closed.all.append (.ordinary rfl rfl (.nil _)))
  have without : '-' ∉ front ++ (mark ++ [Name.quote]) := by
    have dash : '-' ≠ Name.quote := by decide
    simp [arrowless, marked.arrowless, dash]
  have regroup : front ++ (mark ++ Name.quote :: after) =
      front ++ (mark ++ [Name.quote]) ++ after := by
    simp
  rw [splitTypeParameters?_angle, regroup, closed.splitClosingAngle?_append without,
    Option.map_map] at split
  obtain ⟨⟨inner, others⟩, cut, same⟩ := Option.map_eq_some_iff.mp split
  obtain ⟨inner, rfl⟩ := Text.exists_of_splitClosingAngleFrom? cut
  have read := (Prod.mk.inj same).1
  dsimp only at read
  have first : front ++ (mark ++ [Name.quote]) ++ (inner ++ ['>']) =
      front ++ (mark ++ Name.quote :: inner) ++ ['>'] := by
    simp
  rw [first, SourceTypeParameter.typeNamesOfText_angles] at read
  obtain ⟨ending, member⟩ := leads.reached inner
  obtain ⟨name, text, quoted⟩ := SourceTypeParameter.exists_typeNameOfText?_quote marked ending
  refine ⟨name, ?_, quoted⟩
  rw [← read]
  exact List.mem_filterMap.mpr ⟨_, member, text⟩

/-- A name in quotes among the type parameters is not read as it is. -/
theorem names_ne_of_quoted (valid : ∀ parameter ∈ parameters, parameter.IsValid)
    (quoted : ∃ parameter ∈ parameters, ∃ inside, parameter.name = .quoted inside)
    (written : List.Forall₂ SourceTypeParameter.Writes parameters texts)
    (listed : ListedAs ',' texts list) (after : List Char)
    (split : FunctionHeader.splitTypeParameters? content tree ('<' :: (list ++ after)) =
      some (names, rest)) : names ≠ parameters.map (·.name.bare) := by
  obtain ⟨front, mark, tail, rfl, leads⟩ :=
    SourceTypeParameter.exists_leadsToQuote valid quoted written listed .empty
  rw [List.append_assoc, List.append_assoc, List.cons_append] at split
  rintro rfl
  by_cases arrow : '-' ∈ front
  · have fewer := length_names_lt leads arrow split
    rw [List.length_map] at fewer
    omega
  · obtain ⟨name, member, isQuoted⟩ := exists_quoted_name leads arrow split
    obtain ⟨parameter, isParameter, rfl⟩ := List.mem_map.mp member
    rw [SourceName.bare, String.toList_ofList] at isQuoted
    exact SourceName.notQuote_of_mem (valid parameter isParameter).name isQuoted rfl

theorem unquoted_of_names (valid : ∀ parameter ∈ parameters, parameter.IsValid)
    (written : List.Forall₂ SourceTypeParameter.Writes parameters texts)
    (listed : ListedAs ',' texts list) (after : List Char)
    (split : FunctionHeader.splitTypeParameters? content tree ('<' :: (list ++ after)) =
      some (parameters.map (·.name.bare), rest)) :
    ∀ parameter ∈ parameters, ∃ word, parameter.name = .plain word := by
  intro parameter member
  cases kind : parameter.name with
  | plain word => exact ⟨word, rfl⟩
  | quoted inside =>
    exact absurd rfl
      (names_ne_of_quoted valid ⟨parameter, member, inside, kind⟩ written listed after split)

end

/-! ### Whole headers -/

variable {function : SourceFunction} {content text rest : List Char} {tree : Tree}

/-- What is read as it is has nothing in it that is taken for something else. -/
theorem isPlain_of_read (valid : function.IsValid) (writes : function.Writes text)
    (split : FunctionHeader.splitTypeParameters? content tree text =
      some (function.typeParameterNames, rest))
    (named : (FunctionHeader.splitReceiver rest).2 = function.name.bare) : function.IsPlain := by
  cases writes with
  | @intro typeParameters receiver? name front middle parameters receiver =>
    have receiverValid := valid.receiver
    have nameValid := valid.name
    cases parameters with
    | without =>
      rw [List.nil_append, FunctionHeader.splitTypeParameters?,
        if_neg (receiver.head?_ne receiverValid nameValid)] at split
      obtain ⟨-, rfl⟩ := Prod.mk.inj (Option.some.inj split)
      obtain ⟨arrowless, undotted⟩ := (receiver.splitReceiver_iff receiverValid nameValid).mp named
      exact ⟨nofun, nofun, nofun, arrowless, undotted_iff.mp undotted⟩
    | @angles _ texts list gap nonempty written listed blank =>
      have parametersValid := valid.typeParameters
      have unquoted : ∀ parameter ∈ typeParameters, ∃ word, parameter.name = .plain word := by
        rw [List.cons_append, List.append_assoc] at split
        exact unquoted_of_names parametersValid written listed _ split
      have closed := closed_list parametersValid unquoted written listed
      -- An arrow among the type parameters spoils the name behind them.
      have arrowless : '-' ∉ list := fun arrow =>
        splitReceiver_ne_of_arrow closed arrow blank receiver receiverValid nameValid split named
      have bounds : ¬∃ parameter ∈ typeParameters, ∃ bound ∈ parameter.bound?, '-' ∈ bound := by
        rwa [← SourceTypeParameter.dash_mem_texts_iff parametersValid unquoted written,
          ← listed.mem_iff (by decide) (by decide)]
      rw [splitTypeParameters?_of_arrowless parametersValid unquoted written listed arrowless blank
        (receiver.isTight receiverValid nameValid)] at split
      obtain ⟨names, rfl⟩ := Prod.mk.inj (Option.some.inj split)
      have unmarked :=
        (SourceTypeParameter.typeNamesOfText_eq_iff parametersValid unquoted written listed).mp names
      obtain ⟨receiverArrowless, undotted⟩ :=
        (receiver.splitReceiver_iff receiverValid nameValid).mp named
      exact ⟨unquoted, unmarked,
        fun parameter member bound isBound arrow => bounds ⟨parameter, member, bound, isBound, arrow⟩,
        receiverArrowless, undotted_iff.mp undotted⟩

/-- If nothing is taken for something else, every part is found. -/
theorem exists_read_of_isPlain (content : List Char) (valid : function.IsValid)
    (plain : function.IsPlain) (writes : function.Writes text)
    (unlisted : function.typeParameters = [] → tree.childOfKind? ["type_parameters"] = none) :
    ∃ rest written?, FunctionHeader.splitTypeParameters? content tree text =
        some (function.typeParameterNames, rest) ∧
      FunctionHeader.splitReceiver rest = (written?, function.name.bare) ∧
      written?.map Text.trim = function.receiver? := by
  cases writes with
  | @intro typeParameters receiver? name front middle parameters receiver =>
    have receiverValid := valid.receiver
    have nameValid := valid.name
    obtain ⟨written?, split, read⟩ := receiver.exists_splitReceiver receiverValid nameValid
      plain.arrowlessReceiver (undotted_iff.mpr plain.undotted)
    refine ⟨middle ++ name.text, written?, ?_, split, read⟩
    cases parameters with
    | without =>
      rw [List.nil_append, FunctionHeader.splitTypeParameters?,
        if_neg (receiver.head?_ne receiverValid nameValid), ClassHeader.typeParametersOf,
        unlisted rfl]
      rfl
    | @angles _ texts list gap nonempty written listed blank =>
      have parametersValid := valid.typeParameters
      have arrowless : '-' ∉ list := by
        rw [listed.mem_iff (by decide) (by decide),
          SourceTypeParameter.dash_mem_texts_iff parametersValid plain.unquoted written]
        rintro ⟨parameter, member, bound, isBound, arrow⟩
        exact plain.arrowlessBounds parameter member bound isBound arrow
      have names := (SourceTypeParameter.typeNamesOfText_eq_iff parametersValid plain.unquoted
        written listed).mpr plain.unmarked
      rw [splitTypeParameters?_of_arrowless parametersValid plain.unquoted written listed arrowless
        blank (receiver.isTight receiverValid nameValid), names]
      rfl

/-- How a function stands in a file. The keyword and the parameters are nodes of their own, and what
is between them is the function as it is written. -/
inductive IsWrittenIn (content : List Char) (tree : Tree) (function : SourceFunction) : Prop where
  | intro {keyword list : Tree} {before text after : List Char}
      (hasKeyword : tree.childOfKind? ["fun"] = some keyword)
      (hasParameters : tree.childOfKind? ["function_value_parameters"] = some list)
      (between : Text.slice? content ⟨keyword.span.stop, list.span.start⟩ =
        some (before ++ (text ++ after)))
      (beforeBlank : allBlank before = true) (afterBlank : allBlank after = true)
      (writes : function.Writes text)
      (unlisted : function.typeParameters = [] → tree.childOfKind? ["type_parameters"] = none)

/-- Whether a header has the full name of a function, its receiver if it has one, and the names of
its type parameters. -/
structure HasHeader (function : SourceFunction) (site : Site) (header : FunctionHeader) : Prop where
  name : header.name = function.name.bare
  fqn : header.fqn = site.qualify function.name.bare
  receiver : header.receiver =
    function.receiver?.map (site.withTypeParameters function.typeParameterNames).parseType
  typeParameters : header.typeParameters = function.typeParameterNames

theorem Writes.isTight (writes : function.Writes text) (valid : function.IsValid) : IsTight text := by
  cases writes with
  | @intro _ _ _ _ middle parameters receiver =>
    have tight := receiver.isTight valid.receiver valid.name
    cases parameters with
    | without => exact tight
    | angles =>
      have nonempty := List.append_ne_nil_of_right_ne_nil middle (SourceName.nonempty valid.name)
      refine Text.isTight_append (List.cons_ne_nil _ _) nonempty ?_ tight.2
      rintro _ ⟨⟩
      decide

variable {site : Site} {header : FunctionHeader}

/-- The parts of a header are those that the text between the keyword and the parameters is cut
into. -/
theorem exists_parts_of_ofTree? {keyword list : Tree}
    (hasKeyword : tree.childOfKind? ["fun"] = some keyword)
    (hasParameters : tree.childOfKind? ["function_value_parameters"] = some list)
    (between : Text.slice? site.content ⟨keyword.span.stop, list.span.start⟩ = some text)
    (read : FunctionHeader.ofTree? site tree = some header) :
    ∃ rest, FunctionHeader.splitTypeParameters? site.content tree (Text.trim text) =
        some (header.typeParameters, rest) ∧
      (FunctionHeader.splitReceiver rest).2 = header.name := by
  simp only [FunctionHeader.ofTree?, FunctionHeader.signature?, hasKeyword, hasParameters, between,
    Option.bind_eq_bind, Option.bind_some, Option.pure_def] at read
  obtain ⟨⟨names, rest⟩, split, read⟩ := Option.bind_eq_some_iff.mp read
  split at read
  case isTrue => cases read
  case isFalse =>
    cases read
    exact ⟨rest, split, rfl⟩

theorem isPlain_of_hasHeader (valid : function.IsValid)
    (written : function.IsWrittenIn site.content tree)
    (read : FunctionHeader.ofTree? site tree = some header) (has : function.HasHeader site header) :
    function.IsPlain := by
  obtain ⟨hasKeyword, hasParameters, between, beforeBlank, afterBlank, writes, -⟩ := written
  obtain ⟨rest, split, named⟩ := exists_parts_of_ofTree? hasKeyword hasParameters between read
  rw [(writes.isTight valid).trims.trim_append_append beforeBlank afterBlank, has.typeParameters]
    at split
  exact isPlain_of_read valid writes split (named.trans has.name)

theorem exists_hasHeader (valid : function.IsValid) (written : function.IsWrittenIn site.content tree)
    (plain : function.IsPlain) :
    ∃ header, FunctionHeader.ofTree? site tree = some header ∧ function.HasHeader site header := by
  obtain ⟨hasKeyword, hasParameters, between, beforeBlank, afterBlank, writes, unlisted⟩ := written
  obtain ⟨rest, written?, split, cut, receiver⟩ :=
    exists_read_of_isPlain site.content valid plain writes unlisted
  have trimmed := (writes.isTight valid).trims.trim_append_append beforeBlank afterBlank
  have named : function.name.bare.isEmpty = false := SourceName.isEmpty_bare valid.name
  simp only [FunctionHeader.ofTree?, FunctionHeader.signature?, hasKeyword, hasParameters, between,
    Option.bind_eq_bind, Option.bind_some, Option.pure_def, trimmed, split, cut, named,
    Bool.false_eq_true, if_false]
  refine ⟨_, rfl, rfl, rfl, ?_, rfl⟩
  rw [← receiver, Option.map_map]
  exact congrArg (written?.map ·) (funext fun type => (Site.parseType_trim _ type).symm)

/-- A function has its header just when nothing in it is taken for something else. -/
theorem exists_hasHeader_iff (valid : function.IsValid)
    (written : function.IsWrittenIn site.content tree) :
    (∃ header, FunctionHeader.ofTree? site tree = some header ∧ function.HasHeader site header) ↔
      function.IsPlain :=
  ⟨fun ⟨_, read, has⟩ => isPlain_of_hasHeader valid written read has, exists_hasHeader valid written⟩

end SourceFunction

/-! ### Two functions with a receiver -/

/-- The place at the top of a file without imports. -/
def Site.ofText (content : String) : Site where
  content := content.toList
  scope := {}
  symbols := {}
  markers := {}

namespace SourceFunction

/-- The function `<T> List<T>.last`. -/
def last : SourceFunction :=
  ⟨[⟨false, .plain ['T'], none⟩], some "List<T>".toList, .plain "last".toList⟩

/-- The declaration `fun <T> List<T>.last()`. -/
def lastTree : Tree :=
  .branch "function_declaration" 0 22 [
    .token "fun" 0 3,
    .branch "type_parameters" 4 7 [
      .token "<" 4 5,
      .branch "type_parameter" 5 6 [.leaf "identifier" 5 6],
      .token ">" 6 7],
    .branch "user_type" 8 15 [
      .leaf "identifier" 8 12,
      .branch "type_arguments" 12 15 [
        .token "<" 12 13,
        .branch "type_projection" 13 14 [.branch "user_type" 13 14 [.leaf "identifier" 13 14]],
        .token ">" 14 15]],
    .token "." 15 16,
    .leaf "identifier" 16 20,
    .branch "function_value_parameters" 20 22 [.token "(" 20 21, .token ")" 21 22]]

theorem isValid_last : last.IsValid where
  typeParameters := List.forall_mem_singleton.mpr ⟨by decide, nofun⟩
  receiver := by
    rintro _ ⟨⟩
    have inside : Closed (fun _ => true) ['T'] := .ordinary rfl rfl (.nil _)
    have list : Closed (· ≠ ',') "List<T>".toList :=
      .ordinary rfl rfl (.ordinary rfl rfl (.ordinary rfl rfl (.ordinary rfl rfl
        (.angle inside (.nil _)))))
    exact ⟨list, by decide, by decide, by decide⟩
  name := by decide

theorem isWrittenIn_last : last.IsWrittenIn "fun <T> List<T>.last()".toList lastTree := by
  have keyword : lastTree.childOfKind? ["fun"] = some (.token "fun" 0 3) := rfl
  have list : lastTree.childOfKind? ["function_value_parameters"] =
      some (.branch "function_value_parameters" 20 22 [.token "(" 20 21, .token ")" 21 22]) := rfl
  have between : Text.slice? "fun <T> List<T>.last()".toList ⟨3, 20⟩ =
      some ([' '] ++ ("<T> List<T>.last".toList ++ [])) := by
    decide
  have parameter : SourceTypeParameter.Writes ⟨false, .plain ['T'], none⟩ ['T'] :=
    .intro .unmarked .unbounded
  have parameters : WritesTypeParameters last.typeParameters "<T> ".toList :=
    .angles (List.cons_ne_nil _ _) (.cons parameter .nil) (.one ',' ['T'])
      (show allBlank [' '] = true from rfl)
  have receiver : WritesReceiver last.receiver? "List<T>.".toList :=
    .dotted (show allBlank [] = true from rfl) (show allBlank [] = true from rfl)
  exact .intro keyword list between rfl rfl (.intro parameters receiver) nofun

theorem exists_hasHeader_last : ∃ header,
    FunctionHeader.ofTree? (Site.ofText "fun <T> List<T>.last()") lastTree = some header ∧
      last.HasHeader (Site.ofText "fun <T> List<T>.last()") header := by
  refine (exists_hasHeader_iff isValid_last isWrittenIn_last).mpr ⟨?_, ?_, ?_, ?_, ?_⟩
  · exact List.forall_mem_singleton.mpr ⟨_, rfl⟩
  · exact List.forall_mem_singleton.mpr (by decide)
  · exact List.forall_mem_singleton.mpr nofun
  · rintro _ ⟨⟩
    decide
  · intro left right dotted
    have inside : '.' ∈ last.name.text := by
      rw [dotted]
      exact List.mem_append_right _ List.mem_cons_self
    exact absurd inside (by decide)

/-- The function `(() -> B).f`. -/
def onProducer : SourceFunction := ⟨[], some "(() -> B)".toList, .plain ['f']⟩

/-- The declaration `fun (() -> B).f()`. -/
def onProducerTree : Tree :=
  .branch "function_declaration" 0 17 [
    .token "fun" 0 3,
    .branch "parenthesized_type" 4 13 [
      .token "(" 4 5,
      .branch "function_type" 5 12 [
        .branch "function_type_parameters" 5 7 [.token "(" 5 6, .token ")" 6 7],
        .token "->" 8 10,
        .branch "user_type" 11 12 [.leaf "identifier" 11 12]],
      .token ")" 12 13],
    .token "." 13 14,
    .leaf "identifier" 14 15,
    .branch "function_value_parameters" 15 17 [.token "(" 15 16, .token ")" 16 17]]

theorem isValid_onProducer : onProducer.IsValid where
  typeParameters := nofun
  receiver := by
    rintro _ ⟨⟩
    have inside : Closed (fun _ => true) "() -> B".toList :=
      .round (.nil _) (.ordinary rfl rfl (.arrow rfl (.ordinary rfl rfl (.ordinary rfl rfl (.nil _)))))
    exact ⟨.round inside (.nil _), by decide, by decide, by decide⟩
  name := by decide

theorem isWrittenIn_onProducer : onProducer.IsWrittenIn "fun (() -> B).f()".toList onProducerTree := by
  have keyword : onProducerTree.childOfKind? ["fun"] = some (.token "fun" 0 3) := rfl
  have list : onProducerTree.childOfKind? ["function_value_parameters"] =
      some (.branch "function_value_parameters" 15 17 [.token "(" 15 16, .token ")" 16 17]) := rfl
  have between : Text.slice? "fun (() -> B).f()".toList ⟨3, 15⟩ =
      some ([' '] ++ ("(() -> B).f".toList ++ [])) := by
    decide
  have receiver : WritesReceiver onProducer.receiver? "(() -> B).".toList :=
    .dotted (show allBlank [] = true from rfl) (show allBlank [] = true from rfl)
  exact .intro keyword list between rfl rfl (.intro .without receiver) fun _ => rfl

/-- A function type as a receiver is read as a part of the name. -/
theorem not_exists_hasHeader_onProducer :
    onProducer.IsValid ∧ onProducer.IsWrittenIn "fun (() -> B).f()".toList onProducerTree ∧
      ¬∃ header,
        FunctionHeader.ofTree? (Site.ofText "fun (() -> B).f()") onProducerTree = some header ∧
          onProducer.HasHeader (Site.ofText "fun (() -> B).f()") header := by
  refine ⟨isValid_onProducer, isWrittenIn_onProducer, ?_⟩
  rintro ⟨header, read, has⟩
  have plain := isPlain_of_hasHeader isValid_onProducer isWrittenIn_onProducer read has
  exact plain.arrowlessReceiver _ rfl (by decide)

end SourceFunction

end SourceCapture
