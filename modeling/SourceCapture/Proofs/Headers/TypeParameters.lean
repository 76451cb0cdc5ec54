/-
Lists of type parameters. A type parameter is a name, maybe marked as reified, and maybe with a
bound. The first word of it that is no modifier is read as its name, so the names are read as they
are just when they stand without quotes and are not spelled like modifiers. What is read of a list
with a name in quotes has a quote in it, or misses that name.
-/

import Mathlib.Data.List.Forall2
import SourceCapture.Proofs.Headers.Names
import SourceCapture.Proofs.Text.Lists
import SourceCapture.Proofs.Text.Words

namespace SourceCapture

open Text (Closed IsTypeText IsItem IsTight ListedAs isBlank allBlank wordsBy)

/-- A type parameter. -/
structure SourceTypeParameter where
  isReified : Bool
  name : SourceName
  bound? : Option (List Char)

namespace SourceTypeParameter

/-- How the modifier in front of a type parameter is written. -/
inductive WritesMark : Bool → List Char → Prop where
  | unmarked : WritesMark false []
  | reified {gap : List Char} (nonempty : gap ≠ []) (blank : allBlank gap = true) :
      WritesMark true ("reified".toList ++ gap)

/-- How the bound behind a type parameter is written. -/
inductive WritesBound : Option (List Char) → List Char → Prop where
  | unbounded : WritesBound none []
  | bounded {before after bound : List Char} (beforeBlank : allBlank before = true)
      (afterBlank : allBlank after = true) :
      WritesBound (some bound) (before ++ ':' :: (after ++ bound))

/-- How a type parameter is written. -/
inductive Writes : SourceTypeParameter → List Char → Prop where
  | intro {isReified : Bool} {name : SourceName} {bound? : Option (List Char)}
      {front back : List Char} (mark : WritesMark isReified front) (bound : WritesBound bound? back) :
      Writes ⟨isReified, name, bound?⟩ (front ++ (name.text ++ back))

/-- Whether a type parameter has a proper name and a proper bound. -/
structure IsValid (parameter : SourceTypeParameter) : Prop where
  name : parameter.name.IsValid
  bound : ∀ bound ∈ parameter.bound?, IsTypeText bound

variable {parameter : SourceTypeParameter} {isReified : Bool} {front back text word : List Char}
  {bound? : Option (List Char)}

/-! ### The text of a type parameter -/

theorem WritesMark.closed (mark : WritesMark isReified front) : Closed (· ≠ ',') front := by
  cases mark with
  | unmarked => exact .nil _
  | reified _ blank =>
    have modifier : Closed (· ≠ ',') "reified".toList :=
      .of_ordinary (List.all_eq_true.mp (by decide)) (List.all_eq_true.mp (by decide))
    exact modifier.append (.of_allBlank (by decide) blank)

theorem WritesMark.arrowless (mark : WritesMark isReified front) : '-' ∉ front := by
  cases mark with
  | unmarked => exact List.not_mem_nil
  | reified _ blank =>
    rw [List.mem_append, not_or]
    exact ⟨by decide, Text.not_mem_of_allBlank (by decide) blank⟩

theorem WritesBound.closed (bound : WritesBound bound? back)
    (types : ∀ type ∈ bound?, IsTypeText type) : Closed (· ≠ ',') back := by
  cases bound with
  | unbounded => exact .nil _
  | bounded beforeBlank afterBlank =>
    have after := (Closed.of_allBlank (by decide) afterBlank).append (types _ rfl).closed
    exact (Closed.of_allBlank (by decide) beforeBlank).append (.ordinary rfl rfl after)

theorem closed_word (valid : (SourceName.plain word).IsValid) : Closed (· ≠ ',') word := by
  refine .of_ordinary (fun char member => (Text.isWordChar_iff.mp (valid.2 char member)).1) ?_
  exact fun char member => decide_eq_true (Text.isWordChar_iff.mp (valid.2 char member)).2.2.2.1

/-! ### Names -/

/-- What separates the words of a type parameter. -/
def separates (char : Char) : Bool := isBlank char || char = ':'

theorem WritesBound.separates_head (bound : WritesBound bound? back) :
    ∀ char ∈ back.head?, separates char = true := by
  cases bound with
  | unbounded => exact nofun
  | @bounded before _ _ beforeBlank _ =>
    cases before with
    | nil =>
      rintro _ ⟨⟩
      rfl
    | cons first others =>
      rintro _ ⟨⟩
      rw [separates, (List.all_eq_true.mp beforeBlank) first List.mem_cons_self, Bool.true_or]

/-- The modifier is not read as a name. -/
theorem typeNameOfText?_eq (mark : WritesMark isReified front) {first : Char} {rest : List Char}
    (bare : isBlank first = false) (unnoted : first ≠ '@') :
    Parameter.typeNameOfText? (front ++ first :: rest) =
      ((wordsBy separates (first :: rest)).map String.ofList).find?
        fun word => !Parameter.typeParameterModifiers.contains word := by
  have stripped : Text.stripNotes (front ++ first :: rest) = front ++ first :: rest := by
    refine Text.stripNotes_eq_self ?_
    cases mark with
    | unmarked =>
      rintro _ ⟨⟩
      exact ⟨bare, unnoted⟩
    | reified =>
      rintro _ ⟨⟩
      decide
  show ((wordsBy separates (Text.stripNotes _)).map String.ofList).find? _ = _
  rw [stripped]
  cases mark with
  | unmarked => rfl
  | @reified gap nonempty blank =>
    obtain ⟨space, spaces, rfl⟩ := List.exists_cons_of_ne_nil nonempty
    have blanks : ∀ char ∈ space :: spaces, separates char = true := fun char member => by
      rw [separates, (List.all_eq_true.mp blank) char member, Bool.true_or]
    rw [List.forall_mem_cons] at blanks
    have solid : "reified".toList.all (!separates ·) = true := by decide
    have modifier : wordsBy separates "reified".toList = ["reified".toList] :=
      Text.wordsBy_of_word (by decide) (by simpa using List.all_eq_true.mp solid)
    rw [List.append_assoc, List.cons_append, Text.wordsBy_append_cons blanks.1,
      Text.wordsBy_of_separators blanks.2, modifier]
    rfl

/-- The word at the start of a type parameter is read as its name if it is no modifier. -/
theorem typeNameOfText?_plain_iff (mark : WritesMark isReified front) (bound : WritesBound bound? back)
    (valid : (SourceName.plain word).IsValid) :
    Parameter.typeNameOfText? (front ++ (word ++ back)) = some (String.ofList word) ↔
      String.ofList word ∉ Parameter.typeParameterModifiers := by
  have solid : ∀ char ∈ word, separates char = false := fun char member => by
    have other := Text.isWordChar_iff.mp (valid.2 char member)
    simp [separates, other]
  obtain ⟨words, split⟩ := Text.exists_wordsBy_append valid.1 solid bound.separates_head
  obtain ⟨first, others, same⟩ := List.exists_cons_of_ne_nil valid.1
  have fine := Text.isWordChar_iff.mp (valid.2 first (same ▸ List.mem_cons_self))
  have notAt : first ≠ '@' := Text.ne_of_isOrdinary fine.1 rfl
  have read : Parameter.typeNameOfText? (front ++ (word ++ back)) =
      ((wordsBy separates (word ++ back)).map String.ofList).find?
        fun word => !Parameter.typeParameterModifiers.contains word := by
    rw [same]
    exact typeNameOfText?_eq mark fine.2.1 notAt
  rw [read, split, List.map_cons]
  constructor
  · intro found
    simpa using List.find?_some found
  · intro own
    exact List.find?_cons_of_pos (by simpa using own)

/-- A quote at the start of a name is read with the name. -/
theorem exists_typeNameOfText?_quote (mark : WritesMark isReified front) (rest : List Char) :
    ∃ name, Parameter.typeNameOfText? (front ++ Name.quote :: rest) = some name ∧
      Name.quote ∈ name.toList := by
  obtain ⟨word, words, split⟩ :=
    Text.exists_wordsBy_cons (show separates Name.quote = false by decide) rest
  have quoted : Name.quote ∈ (String.ofList (Name.quote :: word)).toList := by
    rw [String.toList_ofList]
    exact List.mem_cons_self
  have other : (!Parameter.typeParameterModifiers.contains (String.ofList (Name.quote :: word))) =
      true := by
    rw [Bool.not_eq_true', ← Bool.not_eq_true, List.contains_iff_mem]
    intro modifier
    have unquoted : ∀ modifier ∈ Parameter.typeParameterModifiers, Name.quote ∉ modifier.toList := by
      decide
    exact unquoted _ modifier quoted
  refine ⟨_, ?_, quoted⟩
  rw [typeNameOfText?_eq mark (by decide) (by decide), split, List.map_cons]
  exact List.find?_cons_of_pos other

/-! ### Lists -/

theorem WritesMark.bare_head (mark : WritesMark isReified front)
    (bare : ∀ char ∈ text.head?, isBlank char = false) :
    ∀ char ∈ (front ++ text).head?, isBlank char = false := by
  cases mark with
  | unmarked => exact bare
  | reified =>
    rintro _ ⟨⟩
    decide

theorem WritesBound.bare_last (bound : WritesBound bound? back)
    (types : ∀ type ∈ bound?, IsTypeText type) (nonempty : text ≠ [])
    (bare : ∀ char ∈ text.getLast?, isBlank char = false) (front : List Char) :
    ∀ char ∈ (front ++ (text ++ back)).getLast?, isBlank char = false := by
  cases bound with
  | unbounded =>
    rw [List.append_nil, List.getLast?_append_of_ne_nil _ nonempty]
    exact bare
  | bounded =>
    have type := types _ rfl
    rw [← List.append_assoc, ← List.append_assoc, ← List.cons_append, ← List.append_assoc,
      List.getLast?_append_of_ne_nil _ type.nonempty]
    exact type.tight.2

/-- The text of a parameter without quotes around its name is an item of a list. -/
theorem isItem (valid : parameter.IsValid) (unquoted : parameter.name = .plain word)
    (writes : parameter.Writes text) : Closed (· ≠ ',') text ∧ IsItem ',' text := by
  cases writes with
  | @intro isReified name bound? front back mark bound =>
    dsimp only at unquoted
    subst unquoted
    have isName := valid.name
    have nonempty := SourceName.nonempty isName
    have tight := SourceName.isTight isName
    have closed : Closed (· ≠ ',') (front ++ (word ++ back)) :=
      mark.closed.append ((closed_word isName).append (bound.closed valid.bound))
    refine ⟨closed, closed.keepsCount (by decide), ?_, ?_, ?_⟩
    · exact List.append_ne_nil_of_right_ne_nil _ (List.append_ne_nil_of_left_ne_nil nonempty _)
    · refine mark.bare_head fun char member => ?_
      rw [List.head?_append_of_ne_nil _ nonempty] at member
      exact tight.1 char member
    · exact bound.bare_last valid.bound nonempty tight.2 front

/-- The arrows in such a parameter are those in its bound. -/
theorem dash_mem_iff (unquoted : parameter.name = .plain word) (valid : parameter.IsValid)
    (writes : parameter.Writes text) :
    '-' ∈ text ↔ ∃ bound ∈ parameter.bound?, '-' ∈ bound := by
  cases writes with
  | @intro isReified name bound? front back mark bound =>
    dsimp only at unquoted ⊢
    subst unquoted
    have noWord : '-' ∉ word := fun member =>
      Text.ne_of_isOrdinary (Text.isWordChar_iff.mp (valid.name.2 _ member)).1 rfl rfl
    rw [SourceName.text]
    cases bound with
    | unbounded => simp [mark.arrowless, noWord]
    | bounded beforeBlank afterBlank =>
      have before := Text.not_mem_of_allBlank (show isBlank '-' = false by decide) beforeBlank
      have after := Text.not_mem_of_allBlank (show isBlank '-' = false by decide) afterBlank
      simp [mark.arrowless, noWord, before, after]

variable {parameters : List SourceTypeParameter} {texts : List (List Char)} {list : List Char}

theorem areItems (valid : ∀ parameter ∈ parameters, parameter.IsValid)
    (unquoted : ∀ parameter ∈ parameters, ∃ word, parameter.name = .plain word)
    (written : List.Forall₂ Writes parameters texts) :
    ∀ text ∈ texts, Closed (· ≠ ',') text ∧ IsItem ',' text := by
  induction written with
  | nil => exact List.forall_mem_nil _
  | cons writes _ inductionHypothesis =>
    rw [List.forall_mem_cons] at valid unquoted ⊢
    obtain ⟨word, plain⟩ := unquoted.1
    exact ⟨isItem valid.1 plain writes, inductionHypothesis valid.2 unquoted.2⟩

theorem dash_mem_texts_iff (valid : ∀ parameter ∈ parameters, parameter.IsValid)
    (unquoted : ∀ parameter ∈ parameters, ∃ word, parameter.name = .plain word)
    (written : List.Forall₂ Writes parameters texts) : (∃ text ∈ texts, '-' ∈ text) ↔
      ∃ parameter ∈ parameters, ∃ bound ∈ parameter.bound?, '-' ∈ bound := by
  induction written with
  | nil => simp
  | cons writes _ inductionHypothesis =>
    rw [List.forall_mem_cons] at valid unquoted
    obtain ⟨word, plain⟩ := unquoted.1
    rw [List.exists_mem_cons_iff, List.exists_mem_cons_iff, dash_mem_iff plain valid.1 writes,
      inductionHypothesis valid.2 unquoted.2]

theorem filterMap_typeNameOfText?_iff (valid : ∀ parameter ∈ parameters, parameter.IsValid)
    (unquoted : ∀ parameter ∈ parameters, ∃ word, parameter.name = .plain word)
    (written : List.Forall₂ Writes parameters texts) :
    texts.filterMap Parameter.typeNameOfText? = parameters.map (·.name.bare) ↔
      ∀ parameter ∈ parameters, parameter.name.bare ∉ Parameter.typeParameterModifiers := by
  induction written with
  | nil => simp
  | @cons parameter text parameters texts writes written inductionHypothesis =>
    rw [List.forall_mem_cons] at valid unquoted
    obtain ⟨word, plain⟩ := unquoted.1
    have first : Parameter.typeNameOfText? text = some parameter.name.bare ↔
        parameter.name.bare ∉ Parameter.typeParameterModifiers := by
      cases writes with
      | intro mark bound =>
        dsimp only at plain ⊢
        subst plain
        exact typeNameOfText?_plain_iff mark bound valid.1.name
    rw [List.forall_mem_cons, ← first, ← inductionHypothesis valid.2 unquoted.2, List.filterMap_cons,
      List.map_cons]
    cases read : Parameter.typeNameOfText? text with
    | none =>
      -- A parameter without a name is left out, and then the names are too few.
      dsimp only
      refine iff_of_false (fun same => ?_) (by rintro ⟨⟨⟩, -⟩)
      have lengths := congrArg List.length same
      have fewer := List.length_filterMap_le Parameter.typeNameOfText? texts
      have equal := written.length_eq
      rw [List.length_cons, List.length_map] at lengths
      omega
    | some name =>
      dsimp only
      rw [List.cons.injEq, Option.some.injEq]

theorem typeNamesOfText_angles (list : List Char) :
    Parameter.typeNamesOfText ('<' :: (list ++ ['>'])) =
      (Text.splitTopLevel ',' list).filterMap Parameter.typeNameOfText? := by
  rw [Parameter.typeNamesOfText, Parameter.withoutBrackets_bracketed ⟨by decide, by decide⟩]

/-- The parameters of a list without names in quotes are read one by one. -/
theorem typeNamesOfText_eq_iff (valid : ∀ parameter ∈ parameters, parameter.IsValid)
    (unquoted : ∀ parameter ∈ parameters, ∃ word, parameter.name = .plain word)
    (written : List.Forall₂ Writes parameters texts) (listed : ListedAs ',' texts list) :
    Parameter.typeNamesOfText ('<' :: (list ++ ['>'])) = parameters.map (·.name.bare) ↔
      ∀ parameter ∈ parameters, parameter.name.bare ∉ Parameter.typeParameterModifiers := by
  have items := areItems valid unquoted written
  rw [typeNamesOfText_angles, Text.splitTopLevel_of_listedAs (by decide) (by decide) listed
    fun text member => (items text member).2]
  exact filterMap_typeNameOfText?_iff valid unquoted written

/-! ### The first name in quotes -/

/-- A part of a list of type parameters in front of the first name in quotes. Whatever follows the
quote, it is read with it, and wherever the part is cut, there are fewer parameters in front of the
cut than in the list. -/
structure LeadsToQuote (parameters : List SourceTypeParameter) (state : Text.Nesting)
    (front mark : List Char) : Prop where
  closed : Closed (fun _ => true) front
  modifier : ∃ isReified, WritesMark isReified mark
  reached : ∀ rest, ∃ tail, mark ++ Name.quote :: tail ∈
    Text.partsFrom ',' state (front ++ (mark ++ Name.quote :: rest))
  cut : ∀ left right, front = left ++ '>' :: right →
    (Text.piecesFrom ',' state left).length < parameters.length

theorem leadsToQuote_blank {state : Text.Nesting} {before mark : List Char}
    (fresh : state.IsFresh) (blank : allBlank before = true) (marked : WritesMark isReified mark)
    (parameters : List SourceTypeParameter) : LeadsToQuote parameters state before mark where
  closed := (Closed.of_allBlank (show isBlank ',' = false by decide) blank).all
  modifier := ⟨isReified, marked⟩
  reached rest := by
    have keeps := marked.closed.keepsCount (show decide (',' ≠ ',') = false by decide)
    have space : Text.Settles ',' state before :=
      Text.settles_of_allBlank fresh.toIsSettled (by decide) blank
    have modifier := keeps.settles (fresh.after_blank blank)
    have quote : Text.Settles ',' ((state.after before).after mark) [Name.quote] :=
      Text.settles_of_ordinary modifier.settled (List.forall_mem_singleton.mpr rfl) (by decide)
    have walks := (space.append (modifier.append quote)).walks
    obtain ⟨first, others, same⟩ := List.exists_cons_of_ne_nil
      (Text.piecesFrom_ne_nil ',' (state.after (before ++ (mark ++ [Name.quote]))) rest)
    have start : Text.trimStart (before ++ mark) = mark :=
      Text.trimStart_append blank (by
        have bare := marked.bare_head (show ∀ char ∈ ([] : List Char).head?, _ from nofun)
        rwa [List.append_nil] at bare)
    refine ⟨Text.trimEnd first, ?_⟩
    have split : before ++ (mark ++ Name.quote :: rest) =
        before ++ (mark ++ [Name.quote]) ++ rest := by
      simp
    have piece : before ++ (mark ++ [Name.quote]) ++ first =
        before ++ mark ++ Name.quote :: first := by
      simp
    rw [Text.partsFrom, split, walks, same, Text.foldr_extendFirst, List.map_cons, piece,
      Text.trim_append_cons (by decide), start]
    exact List.mem_filter.mpr ⟨List.mem_cons_self, by simp⟩
  cut left right split := by
    have absent := Text.not_mem_of_allBlank (show isBlank '>' = false by decide) blank
    rw [split] at absent
    exact absurd (List.mem_append_right _ List.mem_cons_self) absent

/-- A parameter that can be read leads on to the quote behind it. -/
theorem LeadsToQuote.cons {state : Text.Nesting} {first front mark : List Char}
    (settles : Text.Settles ',' state first) (closed : Closed (fun _ => true) first)
    (leads : LeadsToQuote parameters ((state.after first).next ',') front mark)
    (nonempty : parameters ≠ []) (parameter : SourceTypeParameter) :
    LeadsToQuote (parameter :: parameters) state (first ++ ',' :: front) mark where
  closed := closed.append (.ordinary rfl rfl leads.closed)
  modifier := leads.modifier
  reached rest := by
    obtain ⟨tail, member⟩ := leads.reached rest
    refine ⟨tail, ?_⟩
    rw [List.append_assoc, List.cons_append, Text.partsFrom_append settles rfl]
    exact List.mem_append_right _ member
  cut left right split := by
    have more := List.length_pos_iff.mpr nonempty
    rcases List.append_eq_append_iff.mp split with ⟨rest, rfl, later⟩ | ⟨rest, rfl, -⟩
    · rcases List.cons_eq_append_iff.mp later with ⟨rfl, other⟩ | ⟨inner, rfl, same⟩
      · exact absurd (List.cons.inj other).1 (by decide)
      · have fewer := leads.cut inner right same
        rw [Text.piecesFrom_append settles rfl, List.length_cons, List.length_cons]
        omega
    · have shorter := Text.length_piecesFrom_le ',' state left rest
      rw [Text.piecesFrom_of_walks settles.walks, List.length_singleton] at shorter
      rw [List.length_cons]
      omega

theorem Writes.exists_leadsToQuote {before inside : List Char} {state : Text.Nesting}
    (writes : parameter.Writes text) (quoted : parameter.name = .quoted inside)
    (blank : allBlank before = true) (fresh : state.IsFresh) (parameters : List SourceTypeParameter)
    (after : List Char) :
    ∃ front mark rest, before ++ (text ++ after) = front ++ (mark ++ Name.quote :: rest) ∧
      LeadsToQuote parameters state front mark := by
  cases writes with
  | @intro isReified name bound? front back mark bound =>
    dsimp only at quoted
    subst quoted
    refine ⟨before, front, inside ++ Name.quote :: (back ++ after), ?_,
      leadsToQuote_blank fresh blank mark parameters⟩
    simp [SourceName.text]

/-- A list with a name in quotes leads to the first of them: the parameters in front of it are
passed over. -/
theorem exists_leadsToQuote (valid : ∀ parameter ∈ parameters, parameter.IsValid)
    (quoted : ∃ parameter ∈ parameters, ∃ inside, parameter.name = .quoted inside)
    (written : List.Forall₂ Writes parameters texts) (listed : ListedAs ',' texts list)
    {state : Text.Nesting} (fresh : state.IsFresh) :
    ∃ front mark rest, list = front ++ (mark ++ Name.quote :: rest) ∧
      LeadsToQuote parameters state front mark := by
  induction listed generalizing parameters state with
  | nil =>
    cases written
    obtain ⟨parameter, member, -⟩ := quoted
    cases member
  | last beforeBlank afterBlank =>
    obtain ⟨parameter, none, writes, ended, rfl⟩ := List.forall₂_cons_right_iff.mp written
    cases ended
    obtain ⟨inside, isQuoted⟩ := by simpa using quoted
    exact writes.exists_leadsToQuote isQuoted beforeBlank fresh _ _
  | @cons before item after rest items beforeBlank afterBlank listed inductionHypothesis =>
    obtain ⟨parameter, others, writes, later, rfl⟩ := List.forall₂_cons_right_iff.mp written
    rw [List.forall_mem_cons] at valid
    cases kind : parameter.name with
    | quoted inside =>
      obtain ⟨front, mark, tail, split, leads⟩ :=
        writes.exists_leadsToQuote kind beforeBlank fresh (parameter :: others) (after ++ ',' :: rest)
      refine ⟨front, mark, tail, ?_, leads⟩
      rw [← split]
      simp
    | plain word =>
      obtain ⟨closed, isItem⟩ := isItem valid.1 kind writes
      have settles := isItem.keeps.settles_padded fresh (by decide) beforeBlank afterBlank
      have passed : Closed (fun _ => true) (before ++ (item ++ after)) :=
        ((Closed.of_allBlank (by decide) beforeBlank).append
          (closed.append (Closed.of_allBlank (by decide) afterBlank))).all
      have further : ∃ parameter ∈ others, ∃ inside, parameter.name = .quoted inside := by
        simpa [kind] using quoted
      obtain ⟨front, mark, tail, split, leads⟩ :=
        inductionHypothesis valid.2 further later
          (settles.settled.next (show Text.isOrdinary ',' = true from rfl))
      have nonempty : others ≠ [] := by
        rintro rfl
        obtain ⟨parameter, member, -⟩ := further
        cases member
      refine ⟨_, mark, tail, ?_, leads.cons settles passed nonempty parameter⟩
      rw [split]
      simp

end SourceTypeParameter

end SourceCapture
