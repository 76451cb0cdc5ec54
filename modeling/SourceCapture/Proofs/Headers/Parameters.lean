/-
Parameter lists of functions. A parameter has annotations and modifiers in front of its name, then
its type, and maybe a default value, which can be any expression. The list is cut at the commas that
no bracket and no double quotes are open in front of, and brackets are counted in every text, so a
comparison or a character in a default value, or a name in quotes, can hide the commas behind it.
What is in a list is read as it is for all lists that are made of certain names in quotes and certain
default values just when all of these keep the count.
-/

import Mathlib.Data.List.Forall2
import Mathlib.Data.Set.Defs
import SourceCapture.Proofs.Headers.Names
import SourceCapture.Proofs.Text.Counting
import SourceCapture.Proofs.Text.Words
import SourceCapture.Proofs.Types.Arrows

namespace SourceCapture

/-! ### Annotations and modifiers -/

namespace Text

variable {separator char : Char} {text rest gap : List Char}

theorem isOrdinary_of_isNoteChar (noted : isNoteChar char = true) : isOrdinary char = true :=
  isOrdinary_of_holds (show specials.any isNoteChar = false by decide) noted

theorem isBlank_of_isNoteChar (noted : isNoteChar char = true) : isBlank char = false := by
  rw [isNoteChar, Bool.or_eq_true, decide_eq_true_eq] at noted
  rcases noted with named | rfl
  · exact isBlank_of_isNameChar named
  · decide

/-- Annotations as they stand in front of a parameter. The arguments of one keep the count, and the
parenthesis behind them is found when all parentheses are counted. -/
inductive IsNotes : List Char → Prop where
  | none : IsNotes []
  | named {name gap rest : List Char} (isName : ∀ char ∈ name, isNoteChar char = true)
      (nonempty : gap ≠ []) (blank : allBlank gap = true) (notes : IsNotes rest) :
      IsNotes ('@' :: (name ++ (gap ++ rest)))
  | called {name arguments gap rest : List Char} (isName : ∀ char ∈ name, isNoteChar char = true)
      (counted : ∀ separator ∈ [',', '='], KeepsCount separator ('(' :: (arguments ++ [')'])))
      (closed : afterParenthesis? 1 (arguments ++ [')']) = some []) (blank : allBlank gap = true)
      (notes : IsNotes rest) :
      IsNotes ('@' :: (name ++ ('(' :: (arguments ++ [')']) ++ (gap ++ rest))))

/-- Modifiers as they stand in front of a name. -/
inductive IsModifiers : List Char → Prop where
  | none : IsModifiers []
  | word {word gap rest : List Char} (nonempty : word ≠ [])
      (isWord : ∀ char ∈ word, isWordChar char = true) (gapNonempty : gap ≠ [])
      (blank : allBlank gap = true) (modifiers : IsModifiers rest) :
      IsModifiers (word ++ (gap ++ rest))

theorem refreshes_at (other : separator ≠ '@') : Refreshes separator ['@'] := by
  intro state fresh
  have next : state.next '@' = { state with previous := some '@' } := by
    simp [Nesting.next, fresh.unquoted, Nesting.opens, Nesting.closes]
  have settled : (state.next '@').IsSettled := by
    rw [next]
    exact ⟨fresh.outside, fresh.unquoted, fresh.unescaped⟩
  have keeps : state.separates separator '@' = false := by
    simp [Nesting.separates, Ne.symm other]
  refine ⟨⟨.cons keeps (.nil separator _), settled⟩, settled, ?_⟩
  rw [Nesting.after_cons, Nesting.after_nil, Nesting.previous_next]
  decide

theorem refreshes_noteName {name : List Char} (isName : ∀ char ∈ name, isNoteChar char = true)
    (other : isNoteChar separator = false) : Refreshes separator name := by
  refine .of_ordinary (fun char member => isOrdinary_of_isNoteChar (isName char member)) ?_
  intro member
  rw [isName separator member] at other
  cases other

theorem refreshes_word {word : List Char} (isWord : ∀ char ∈ word, isWordChar char = true)
    (other : isWordChar separator = false) : Refreshes separator word := by
  refine .of_ordinary (fun char member => (isWordChar_iff.mp (isWord char member)).1) ?_
  intro member
  rw [isWord separator member] at other
  cases other

theorem IsNotes.refreshes (notes : IsNotes text) (among : separator ∈ [',', '=']) :
    Refreshes separator text := by
  have special : separator ≠ '@' ∧ isNoteChar separator = false ∧ isBlank separator = false := by
    simp only [List.mem_cons, List.not_mem_nil, or_false] at among
    rcases among with rfl | rfl <;> decide
  induction notes with
  | none => exact fun _ fresh => ⟨⟨.nil separator _, fresh.toIsSettled⟩, fresh⟩
  | named isName nonempty blank notes inductionHypothesis =>
    have name := refreshes_noteName isName special.2.1
    have space := Refreshes.of_allBlank special.2.2 blank
    exact (refreshes_at special.1).append (name.append (space.append inductionHypothesis))
  | @called _ arguments _ _ isName counted closed blank notes inductionHypothesis =>
    have name := refreshes_noteName isName special.2.1
    have list : Refreshes separator ('(' :: (arguments ++ [')'])) := by
      refine (counted separator among).refreshes ?_
      rw [← List.cons_append, List.getLast?_concat]
      decide
    have space := Refreshes.of_allBlank special.2.2 blank
    exact (refreshes_at special.1).append
      (name.append (list.append (space.append inductionHypothesis)))

theorem IsModifiers.refreshes (modifiers : IsModifiers text) (among : separator ∈ [',', '=', ':']) :
    Refreshes separator text := by
  have special : isWordChar separator = false ∧ isBlank separator = false := by
    simp only [List.mem_cons, List.not_mem_nil, or_false] at among
    rcases among with rfl | rfl | rfl <;> decide
  induction modifiers with
  | none => exact fun _ fresh => ⟨⟨.nil separator _, fresh.toIsSettled⟩, fresh⟩
  | word nonempty isWord gapNonempty blank modifiers inductionHypothesis =>
    have space := Refreshes.of_allBlank special.2 blank
    exact (refreshes_word isWord special.1).append (space.append inductionHypothesis)

/-- Behind modifiers a name is a word of its own. -/
theorem IsModifiers.lastWord_append (modifiers : IsModifiers text) {name : List Char}
    (nonempty : name ≠ []) (solid : ∀ char ∈ name, isBlank char = false) :
    lastWord isBlank (text ++ name) = name := by
  have words : ∃ words, wordsBy isBlank (text ++ name) = words ++ [name] := by
    induction modifiers with
    | none => exact ⟨[], wordsBy_of_word nonempty solid⟩
    | @word word gap rest wordNonempty isWord gapNonempty blank modifiers inductionHypothesis =>
      obtain ⟨words, split⟩ := inductionHypothesis
      obtain ⟨first, spaces, rfl⟩ := List.exists_cons_of_ne_nil gapNonempty
      rw [allBlank, List.all_eq_true, List.forall_mem_cons] at blank
      have solidWord : ∀ char ∈ word, isBlank char = false := fun char member =>
        (isWordChar_iff.mp (isWord char member)).2.1
      refine ⟨word :: words, ?_⟩
      rw [List.append_assoc, List.append_assoc, List.cons_append, wordsBy_append_cons blank.1,
        wordsBy_of_separators blank.2, split, wordsBy_of_word wordNonempty solidWord]
      rfl
  obtain ⟨words, split⟩ := words
  rw [lastWord, split, List.getLastD_concat]

/-! ### Taking annotations off -/

theorem afterParenthesis?_append {depth : Nat} {front back : List Char}
    (found : afterParenthesis? depth front = some back) (rest : List Char) :
    afterParenthesis? depth (front ++ rest) = some (back ++ rest) := by
  induction front generalizing depth with
  | nil => cases found
  | cons char front inductionHypothesis =>
    rw [afterParenthesis?] at found
    rw [List.cons_append, afterParenthesis?]
    split at found
    case isTrue opening =>
      rw [if_pos opening, inductionHypothesis found]
    case isFalse other =>
      rw [if_neg other]
      split at found
      case isTrue closing =>
        rw [if_pos closing]
        split at found
        case isTrue last =>
          cases found
          rw [if_pos last]
        case isFalse inner =>
          rw [if_neg inner, inductionHypothesis found]
      case isFalse plain =>
        rw [if_neg plain, inductionHypothesis found]

theorem stripNotes_append (blank : allBlank gap = true) (text : List Char) :
    stripNotes (gap ++ text) = stripNotes text := by
  have started : trimStart (gap ++ text) = trimStart text :=
    List.dropWhile_append_of_pos (List.all_eq_true.mp blank)
  have same : afterNote? (gap ++ text) = afterNote? text := by
    rw [afterNote?, afterNote?, started]
  cases found : afterNote? text with
  | none =>
    rw [stripNotes_of_afterNote?_eq_none (same.trans found), stripNotes_of_afterNote?_eq_none found,
      started]
  | some rest => rw [stripNotes_of_afterNote? (same.trans found), stripNotes_of_afterNote? found]

theorem afterNote?_at {name : List Char} (isName : ∀ char ∈ name, isNoteChar char = true)
    (ends : ∀ char ∈ rest.head?, isNoteChar char = false) :
    afterNote? ('@' :: (name ++ rest)) =
      if rest.head? = some '(' then some ((afterParenthesis? 0 rest).getD []) else some rest := by
  have started : trimStart ('@' :: (name ++ rest)) = '@' :: (name ++ rest) :=
    List.dropWhile_cons_of_neg (by decide)
  have named : (name ++ rest).dropWhile isNoteChar = rest := by
    rw [List.dropWhile_append_of_pos isName]
    cases rest with
    | nil => rfl
    | cons first rest =>
      exact List.dropWhile_cons_of_neg (by rw [ends first rfl]; exact Bool.false_ne_true)
  rw [afterNote?, started]
  show (if ((name ++ rest).dropWhile isNoteChar).head? = some '(' then
      some ((afterParenthesis? 0 ((name ++ rest).dropWhile isNoteChar)).getD [])
    else some ((name ++ rest).dropWhile isNoteChar)) = _
  rw [named]

/-- The annotations are taken off up to what is no annotation. -/
theorem IsNotes.stripNotes_append (notes : IsNotes text)
    (unnoted : ∀ char ∈ rest.head?, isBlank char = false ∧ char ≠ '@') :
    stripNotes (text ++ rest) = rest := by
  induction notes with
  | none => exact stripNotes_eq_self unnoted
  | @named name gap others isName nonempty blank notes inductionHypothesis =>
    obtain ⟨first, spaces, rfl⟩ := List.exists_cons_of_ne_nil nonempty
    have solid := List.all_eq_true.mp blank first List.mem_cons_self
    have after : afterNote? ('@' :: (name ++ (first :: spaces ++ (others ++ rest)))) =
        some (first :: spaces ++ (others ++ rest)) := by
      rw [afterNote?_at isName, if_neg]
      · rintro ⟨⟩
        exact absurd solid (by decide)
      · rintro _ ⟨⟩
        rw [← Bool.not_eq_true]
        intro noted
        rw [isBlank_of_isNoteChar noted] at solid
        cases solid
    rw [List.cons_append, List.append_assoc, List.append_assoc, stripNotes_of_afterNote? after,
      Text.stripNotes_append blank, inductionHypothesis]
  | @called name arguments gap others isName counted closed blank notes inductionHypothesis =>
    have after : afterNote?
        ('@' :: (name ++ ('(' :: (arguments ++ [')']) ++ (gap ++ (others ++ rest))))) =
          some (gap ++ (others ++ rest)) := by
      have opened := afterParenthesis?_append closed (gap ++ (others ++ rest))
      rw [afterNote?_at isName, List.cons_append, List.head?_cons, if_pos rfl, afterParenthesis?,
        if_pos rfl, opened]
      · rfl
      · rintro _ ⟨⟩
        decide
    rw [List.cons_append, List.append_assoc, List.append_assoc, List.append_assoc,
      stripNotes_of_afterNote? after, Text.stripNotes_append blank, inductionHypothesis]

end Text

open Text (Closed IsTight IsItem IsNotes IsModifiers KeepsCount ListedAs Refreshes isBlank allBlank
  lastWord)

/-! ### Names -/

/-- What holds of the three characters at which parameters are cut. -/
theorem forall_separators {holds : Char → Prop} (comma : holds ',') (equals : holds '=')
    (colon : holds ':') : ∀ separator ∈ [',', '=', ':'], holds separator := by
  simpa using ⟨comma, equals, colon⟩

/-- Whether nothing in a name is taken for something else: there is no white space in it, it is not
cut where parameters are cut, and it leaves no bracket and no quotes open. -/
structure SourceName.IsCounted (name : SourceName) : Prop where
  solid : ∀ char ∈ name.text, isBlank char = false
  keeps : ∀ separator ∈ [',', '=', ':'], KeepsCount separator name.text

theorem SourceName.isCounted_plain {word : List Char} (valid : (plain word).IsValid) :
    (plain word).IsCounted where
  solid char member := (Text.isWordChar_iff.mp (valid.2 char member)).2.1
  keeps separator among := by
    have special : Text.isWordChar separator = false := by
      simp only [List.mem_cons, List.not_mem_nil, or_false] at among
      rcases among with rfl | rfl | rfl <;> decide
    exact ((Text.refreshes_word valid.2 special) {} .empty).1.keepsCount

theorem SourceName.getLast?_ne (name : SourceName) (valid : name.IsValid) :
    name.text.getLast? ≠ some '-' := by
  cases name with
  | plain word =>
    intro last
    have ordinary := (Text.isWordChar_iff.mp (valid.2 '-' (List.mem_of_getLast? last))).1
    cases ordinary
  | quoted inside =>
    rw [text, ← List.cons_append, List.getLast?_concat]
    decide

/-! ### Parameters as they are written -/

/-- A parameter with its type and maybe a default value. -/
structure SourceParameter where
  name : SourceName
  type : List Char
  default? : Option (List Char)

namespace SourceParameter

/-- How a parameter is written without its default value. -/
inductive WritesDeclared (name : SourceName) (type : List Char) : List Char → Prop where
  | intro {notes modifiers before after : List Char} (isNotes : IsNotes notes)
      (isModifiers : IsModifiers modifiers) (beforeBlank : allBlank before = true)
      (afterBlank : allBlank after = true) :
      WritesDeclared name type
        (notes ++ (modifiers ++ name.text ++ before ++ ':' :: (after ++ type)))

/-- How a default value is written. -/
inductive WritesDefault : Option (List Char) → List Char → Prop where
  | without : WritesDefault none []
  | given {before after value : List Char} (beforeBlank : allBlank before = true)
      (afterBlank : allBlank after = true) :
      WritesDefault (some value) (before ++ '=' :: (after ++ value))

/-- How a parameter is written. -/
inductive Writes : SourceParameter → List Char → Prop where
  | intro {name : SourceName} {type front back : List Char} {default? : Option (List Char)}
      (declared : WritesDeclared name type front) (default : WritesDefault default? back) :
      Writes ⟨name, type, default?⟩ (front ++ back)

/-- Whether a text can be a default value. -/
structure IsValue (text : List Char) : Prop where
  nonempty : text ≠ []
  tight : IsTight text
  ended : text.getLast? ≠ some ','

/-- Whether a parameter has a proper name and a proper type, one that is not cut where parameters are
cut and that leaves nothing open, and maybe a proper default value. -/
structure IsValid (parameter : SourceParameter) : Prop where
  name : parameter.name.IsValid
  type : ∀ separator ∈ [',', '=', ':'], IsItem separator parameter.type
  value : ∀ value ∈ parameter.default?, IsValue value

/-- A parameter as it should be read. -/
def declared (parameter : SourceParameter) : Parameter := ⟨parameter.name.bare, some parameter.type⟩

/-! ### Reading a parameter -/

variable {parameter : SourceParameter} {name : SourceName} {type front text : List Char}
  {separator : Char} {default? : Option (List Char)}

/-- A name with modifiers in front of it starts with neither white space nor an annotation. -/
theorem head?_named {modifiers : List Char} (isModifiers : IsModifiers modifiers)
    (valid : name.IsValid) (rest : List Char) :
    ∀ char ∈ (modifiers ++ name.text ++ rest).head?, isBlank char = false ∧ char ≠ '@' := by
  have word {word : List Char} (nonempty : word ≠ [])
      (isWord : ∀ char ∈ word, Text.isWordChar char = true) (rest : List Char) :
      ∀ char ∈ (word ++ rest).head?, isBlank char = false ∧ char ≠ '@' := by
    intro char member
    rw [List.head?_append_of_ne_nil _ nonempty] at member
    have fine := Text.isWordChar_iff.mp (isWord char (List.mem_of_mem_head? member))
    exact ⟨fine.2.1, Text.ne_of_isOrdinary fine.1 rfl⟩
  cases isModifiers with
  | none =>
    cases name with
    | plain letters => exact word valid.1 valid.2 rest
    | quoted inside =>
      rintro _ ⟨⟩
      decide
  | word nonempty isWord =>
    rw [List.append_assoc, List.append_assoc]
    exact word nonempty isWord _

namespace WritesDeclared

theorem isTight (writes : WritesDeclared name type front) (valid : name.IsValid)
    (nonempty : type ≠ []) (tight : IsTight type) : IsTight front := by
  cases writes with
  | @intro notes modifiers before after isNotes isModifiers =>
    have ended : notes ++ (modifiers ++ name.text ++ before ++ ':' :: (after ++ type)) =
        notes ++ (modifiers ++ name.text ++ before ++ ':' :: after) ++ type := by
      simp
    rw [ended]
    refine Text.isTight_append (by simp) nonempty ?_ tight.2
    cases isNotes with
    | none =>
      rw [List.nil_append, List.append_assoc]
      exact fun char member => (head?_named isModifiers valid _ char member).1
    | named | called =>
      rintro _ ⟨⟩
      decide

/-- Annotations, modifiers, name and type together keep the count if the name and the type do. -/
theorem keepsCount (writes : WritesDeclared name type front) (among : separator ∈ [',', '='])
    (valid : name.IsValid) (named : KeepsCount separator name.text)
    (typed : KeepsCount separator type) :
    KeepsCount separator front := by
  have special : separator ∈ [',', '=', ':'] ∧ isBlank separator = false ∧ separator ∉ [':'] := by
    simp only [List.mem_cons, List.not_mem_nil, or_false] at among
    rcases among with rfl | rfl <;> decide
  cases writes with
  | intro isNotes isModifiers beforeBlank afterBlank =>
    have word := named.refreshes (name.getLast?_ne valid)
    have gap := Refreshes.of_allBlank special.2.1 beforeBlank
    have colon : Refreshes separator [':'] :=
      .of_ordinary (List.forall_mem_singleton.mpr rfl) special.2.2
    have space := Refreshes.of_allBlank special.2.1 afterBlank
    have start := ((isModifiers.refreshes special.1).append word).append gap
    exact (isNotes.refreshes among).append_keepsCount
      (start.append_keepsCount (colon.append_keepsCount (space.append_keepsCount typed)))

theorem isItem (writes : WritesDeclared name type front) (among : separator ∈ [',', '='])
    (valid : name.IsValid) (named : KeepsCount separator name.text) (typed : IsItem separator type) :
    IsItem separator front := by
  refine ⟨writes.keepsCount among valid named typed.keeps, ?_,
    writes.isTight valid typed.nonempty typed.tight⟩
  cases writes
  simp

end WritesDeclared

theorem withoutDefault_of_writes (writes : parameter.Writes text) (valid : parameter.IsValid)
    (counted : parameter.name.IsCounted) :
    ∃ front, WritesDeclared parameter.name parameter.type front ∧
      Parameter.withoutDefault text = front := by
  cases writes with
  | @intro name type front back default? declared default =>
    have item : IsItem '=' front := declared.isItem (by decide) valid.name
      (counted.keeps '=' (by decide)) (valid.type '=' (by decide))
    refine ⟨front, declared, ?_⟩
    cases default with
    | without =>
      rw [List.append_nil, Parameter.withoutDefault, item.splitTopLevel_eq rfl (by decide)]
      rfl
    | @given before after value beforeBlank afterBlank =>
      have nothing : allBlank [] = true := rfl
      have settles := item.keeps.settles_padded .empty (by decide) nothing beforeBlank
      have kept := item.trim_padded nothing beforeBlank
      rw [List.nil_append] at settles kept
      rw [Parameter.withoutDefault, ← List.append_assoc, Text.splitTopLevel_eq,
        Text.partsFrom_append settles (by decide), kept]
      rfl

/-- A parameter is read as it is if nothing in its name is taken for something else. -/
theorem ofText_of_writes (writes : parameter.Writes text) (valid : parameter.IsValid)
    (counted : parameter.name.IsCounted) : Parameter.ofText text = parameter.declared := by
  obtain ⟨front, declared, without⟩ := withoutDefault_of_writes writes valid counted
  have typed := valid.type ':' (by decide)
  rw [Parameter.ofText, without]
  cases declared with
  | @intro notes modifiers before after isNotes isModifiers beforeBlank afterBlank =>
    have unnoted : ∀ char ∈
        (modifiers ++ parameter.name.text ++ before ++ ':' :: (after ++ parameter.type)).head?,
        isBlank char = false ∧ char ≠ '@' := by
      rw [List.append_assoc]
      exact head?_named isModifiers valid.name _
    have item : IsItem ':' (modifiers ++ parameter.name.text) := by
      refine ⟨(isModifiers.refreshes (by decide)).append_keepsCount (counted.keeps ':' (by decide)),
        List.append_ne_nil_of_right_ne_nil _ (SourceName.nonempty valid.name), ?_, ?_⟩
      · have start := head?_named isModifiers valid.name []
        rw [List.append_nil] at start
        exact fun char member => (start char member).1
      · rw [List.getLast?_append_of_ne_nil _ (SourceName.nonempty valid.name)]
        exact (SourceName.isTight valid.name).2
    have listed := ListedAs.two beforeBlank afterBlank ':' (modifiers ++ parameter.name.text)
      parameter.type
    have split := Text.splitTopLevel_of_listedAs (by decide) (by decide) listed (by
      rw [List.forall_mem_cons, List.forall_mem_singleton]
      exact ⟨item, typed⟩)
    have name := isModifiers.lastWord_append (SourceName.nonempty valid.name) counted.solid
    rw [lastWord] at name
    rw [isNotes.stripNotes_append unnoted, split]
    dsimp only [List.headD_cons]
    rw [name, SourceName.unquote_text valid.name]
    rfl

/-- A parameter with a proper default value is not cut. -/
theorem isItem_of_writes (writes : parameter.Writes text) (valid : parameter.IsValid)
    (counted : parameter.name.IsCounted) (values : ∀ value ∈ parameter.default?, KeepsCount ',' value) :
    IsItem ',' text := by
  cases writes with
  | @intro name type front back default? declared default =>
    have item : IsItem ',' front := declared.isItem (by decide) valid.name
      (counted.keeps ',' (by decide)) (valid.type ',' (by decide))
    cases default with
    | without => rwa [List.append_nil]
    | @given before after value beforeBlank afterBlank =>
      have isValue := valid.value value rfl
      have space : Refreshes ',' after := .of_allBlank (by decide) afterBlank
      have whole : KeepsCount ',' (front ++ before ++ '=' :: (after ++ value)) :=
        (item.keeps.append_blank (by decide) beforeBlank).append_cons rfl (by decide)
          (space.append_keepsCount (values value rfl))
      rw [← List.append_assoc]
      refine ⟨whole, by simp, ?_⟩
      rw [← List.cons_append, ← List.append_assoc]
      refine Text.isTight_append (by simp) isValue.nonempty ?_ isValue.tight.2
      rw [List.append_assoc, List.head?_append_of_ne_nil _ item.nonempty]
      exact item.tight.1

/-! ### Reading a list -/

variable {parameters : List SourceParameter} {texts : List (List Char)} {list : List Char}

theorem listOfText_bracketed (list : List Char) : Parameter.listOfText ('(' :: (list ++ [')'])) =
    (Text.splitTopLevel ',' list).map Parameter.ofText := by
  rw [Parameter.listOfText, Parameter.withoutBrackets_bracketed ⟨by decide, by decide⟩]

/-- Whether nothing in a parameter hides what is behind it. -/
structure IsCounted (parameter : SourceParameter) : Prop where
  name : parameter.name.IsCounted
  value : ∀ value ∈ parameter.default?, KeepsCount ',' value

/-- A list of parameters that hide nothing is read one by one. -/
theorem listOfText_of_counted (valid : ∀ parameter ∈ parameters, parameter.IsValid)
    (counted : ∀ parameter ∈ parameters, parameter.IsCounted)
    (written : List.Forall₂ Writes parameters texts) (listed : ListedAs ',' texts list) :
    Parameter.listOfText ('(' :: (list ++ [')'])) = parameters.map declared := by
  have read : (∀ text ∈ texts, IsItem ',' text) ∧
      texts.map Parameter.ofText = parameters.map declared := by
    clear listed
    induction written with
    | nil => exact ⟨List.forall_mem_nil _, rfl⟩
    | cons writes _ inductionHypothesis =>
      rw [List.forall_mem_cons] at valid counted
      obtain ⟨items, rest⟩ := inductionHypothesis valid.2 counted.2
      have item := isItem_of_writes writes valid.1 counted.1.name counted.1.value
      refine ⟨List.forall_mem_cons.mpr ⟨item, items⟩, ?_⟩
      rw [List.map_cons, List.map_cons, ofText_of_writes writes valid.1 counted.1.name, rest]
  rw [listOfText_bracketed, Text.splitTopLevel_of_listedAs (by decide) (by decide) listed read.1,
    read.2]

/-! ### All lists over some names and default values -/

/-- Whether the name of a parameter, if it is in quotes, and its default value, if it has one, are
among the given ones. -/
structure IsAmong (insides values : Set (List Char)) (parameter : SourceParameter) : Prop where
  quoted : ∀ inside, parameter.name = .quoted inside → inside ∈ insides
  value : ∀ value ∈ parameter.default?, value ∈ values

/-- Whether all lists of parameters with these names in quotes and these default values are read as
they are. -/
def ReadsAll (insides values : Set (List Char)) : Prop :=
  ∀ (parameters : List SourceParameter) (texts : List (List Char)) (list : List Char),
    (∀ parameter ∈ parameters, parameter.IsValid ∧ parameter.IsAmong insides values) →
    List.Forall₂ Writes parameters texts → ListedAs ',' texts list →
    Parameter.listOfText ('(' :: (list ++ [')'])) = parameters.map declared

variable {insides values : Set (List Char)}

/-- The parameter `y: A`. -/
def plain : SourceParameter := ⟨.plain ['y'], ['A'], none⟩

theorem isItem_letter : ∀ separator ∈ [',', '=', ':'], IsItem separator ['A'] :=
  forall_separators (by decide) (by decide) (by decide)

theorem writes_labelled (name : SourceName) {back : List Char} {default? : Option (List Char)}
    (default : WritesDefault default? back) :
    Writes ⟨name, ['A'], default?⟩ (name.text ++ ": A".toList ++ back) := by
  have declared : WritesDeclared name ['A']
      ([] ++ ([] ++ name.text ++ [] ++ ':' :: ([' '] ++ ['A']))) :=
    .intro .none .none rfl rfl
  rw [List.nil_append, List.nil_append, List.append_nil] at declared
  exact .intro declared default

/-- The list of one parameter is read as that parameter. -/
theorem map_ofText_of_readsAll (reads : ReadsAll insides values) (valid : parameter.IsValid)
    (isAmong : parameter.IsAmong insides values) (writes : parameter.Writes text) :
    (Text.splitTopLevel ',' text).map Parameter.ofText = [parameter.declared] := by
  have read := reads [parameter] [text] text (List.forall_mem_singleton.mpr ⟨valid, isAmong⟩)
    (.cons writes .nil) (.one ',' text)
  rwa [listOfText_bracketed] at read

/-- If all lists are read as they are, every parameter in them keeps the count: it is one part when
it stands alone, and two with a parameter behind it. -/
theorem keepsCount_of_readsAll (reads : ReadsAll insides values) (valid : parameter.IsValid)
    (isAmong : parameter.IsAmong insides values) (writes : parameter.Writes text) (tight : IsTight text)
    (started : text.head? ≠ some ',') (ended : text.getLast? ≠ some ',') : KeepsCount ',' text := by
  have alone : (Text.splitTopLevel ',' text).length = 1 := by
    have lengths := congrArg List.length (map_ofText_of_readsAll reads valid isAmong writes)
    rwa [List.length_map] at lengths
  have followed : (Text.splitTopLevel ',' (text ++ ',' :: " y: A".toList)).length = 2 := by
    have plainWrites : plain.Writes "y: A".toList := writes_labelled (.plain ['y']) .without
    have plainValid : plain.IsValid :=
      ⟨by decide, isItem_letter, nofun⟩
    have plainAmong : plain.IsAmong insides values := ⟨nofun, nofun⟩
    have listed : ListedAs ',' [text, "y: A".toList] (text ++ [] ++ ',' :: " y: A".toList) :=
      .two (show allBlank [] = true from rfl) (show allBlank [' '] = true from rfl) ',' _ _
    have read := reads [parameter, plain] [text, "y: A".toList] _ (by
        rw [List.forall_mem_cons, List.forall_mem_singleton]
        exact ⟨⟨valid, isAmong⟩, plainValid, plainAmong⟩)
      (.cons writes (.cons plainWrites .nil)) listed
    have lengths := congrArg List.length read
    rwa [List.append_nil, listOfText_bracketed, List.length_map] at lengths
  have whole := Text.piecesFrom_of_length_partsFrom tight started ended alone
  exact Text.keepsCount_of_length_partsFrom whole (by decide) followed

/-- A default value keeps the count if all lists with it are read as they are. -/
theorem keepsCount_value (reads : ReadsAll insides values) {value : List Char} (isValue : IsValue value)
    (member : value ∈ values) : KeepsCount ',' value := by
  let parameter : SourceParameter := ⟨.plain ['x'], ['A'], some value⟩
  have valid : parameter.IsValid := by
    refine ⟨show (SourceName.plain ['x']).IsValid by decide, isItem_letter, ?_⟩
    rintro _ ⟨⟩
    exact isValue
  have isAmong : parameter.IsAmong insides values := by
    refine ⟨nofun, ?_⟩
    rintro _ ⟨⟩
    exact member
  have writes : parameter.Writes ("x: A = ".toList ++ value) :=
    writes_labelled (.plain ['x'])
      (.given (show allBlank [' '] = true from rfl) (show allBlank [' '] = true from rfl))
  have tight : IsTight ("x: A = ".toList ++ value) := by
    refine Text.isTight_append (by decide) isValue.nonempty ?_ isValue.tight.2
    rintro _ ⟨⟩
    decide
  have ended : ("x: A = ".toList ++ value).getLast? ≠ some ',' := by
    rw [List.getLast?_append_of_ne_nil _ isValue.nonempty]
    exact isValue.ended
  have front : Refreshes ',' "x: A = ".toList :=
    .of_ordinary (List.all_eq_true.mp (by decide)) (by decide)
  -- In front of the value there are plain characters only, so the value counts as if it stood alone.
  refine front.keepsCount_of_append ?_
  exact keepsCount_of_readsAll reads valid isAmong writes tight nofun ended

/-! ### Names in quotes -/

/-- The characters that are read as the name of a parameter. -/
def readName (text : List Char) : List Char :=
  lastWord isBlank ((Text.splitTopLevel ':' (Text.stripNotes (Parameter.withoutDefault text))).headD [])

theorem name_ofText (text : List Char) : (Parameter.ofText text).name = Name.unquote (readName text) :=
  rfl

theorem headD_splitTopLevel_sublist (separator : Char) (text : List Char) :
    ((Text.splitTopLevel separator text).headD []).Sublist text := by
  refine .trans ?_ (Text.flatten_splitTopLevel_sublist separator text)
  cases Text.splitTopLevel separator text with
  | nil => exact List.nil_sublist _
  | cons first others => exact List.sublist_append_left _ _

/-- Where a name in quotes is cut, the first part ends there. -/
theorem exists_headD_splitTopLevel {inside : List Char} (other : separator ≠ Name.quote)
    (cut : Text.piecesFrom separator {} (SourceName.quoted inside).text ≠
      [(SourceName.quoted inside).text]) (rest default : List Char) :
    ∃ left right, (SourceName.quoted inside).text = left ++ separator :: right ∧
      (Text.splitTopLevel separator ((SourceName.quoted inside).text ++ rest)).headD default =
        Text.trim left := by
  obtain ⟨left, right, same, found⟩ := Text.exists_cut cut
  obtain ⟨others, pieces⟩ := found rest
  refine ⟨left, right, same, ?_⟩
  cases left with
  | nil => exact absurd (List.cons.inj same).1.symm other
  | cons first left =>
    obtain ⟨rfl, -⟩ := List.cons.inj same
    have kept : (Text.trim (Name.quote :: left)).isEmpty = false := by
      rw [← List.nil_append (Name.quote :: left), Text.trim_append_cons (by decide)]
      rfl
    rw [Text.splitTopLevel, pieces, List.map_cons, List.filter_cons_of_pos (by rw [kept]; rfl)]
    rfl

section

variable {inside : List Char}

/-- The text of a parameter with a name in quotes. -/
def quotedText (inside : List Char) : List Char := (SourceName.quoted inside).text ++ ": A".toList

theorem tight_quotedText (inside : List Char) : IsTight (quotedText inside) := by
  refine Text.isTight_append (List.cons_ne_nil _ _) (by decide) ?_ ?_
  · rintro _ ⟨⟩
    decide
  · rintro _ ⟨⟩
    decide

theorem getLast?_quotedText (inside : List Char) : (quotedText inside).getLast? = some 'A' :=
  List.getLast?_append_of_ne_nil _ (by decide)

/-- If the name is not cut at an equals sign, it is looked for in the whole text. -/
theorem readName_quotedText (valid : (SourceName.quoted inside).IsValid)
    (equals : KeepsCount '=' (SourceName.quoted inside).text) : readName (quotedText inside) =
      lastWord isBlank ((Text.splitTopLevel ':' (quotedText inside)).headD []) := by
  have tight := tight_quotedText inside
  have item : IsItem '=' (quotedText inside) := by
    have behind : Refreshes '=' ": A".toList :=
      .of_ordinary (List.all_eq_true.mp (by decide)) (by decide)
    have name := equals.refreshes (SourceName.getLast?_ne _ valid)
    exact ⟨name.append_keepsCount (behind {} .empty).1.keepsCount, List.cons_ne_nil _ _, tight⟩
  have whole : Parameter.withoutDefault (quotedText inside) = quotedText inside := by
    rw [Parameter.withoutDefault, item.splitTopLevel_eq rfl (by decide)]
    rfl
  have unnoted : Text.stripNotes (quotedText inside) = quotedText inside := by
    refine Text.stripNotes_eq_self ?_
    rintro _ ⟨⟩
    decide
  rw [readName, whole, unnoted]

section

variable (valid : (SourceName.quoted inside).IsValid)
  (read : (Parameter.ofText (quotedText inside)).name = (SourceName.quoted inside).bare)

include valid read

/-- A name is not read as it is if a character of it is missing. -/
theorem not_sublist_of_read {left right : List Char} {char : Char} (other : char ≠ Name.quote)
    (same : (SourceName.quoted inside).text = left ++ char :: right) :
    ¬(readName (quotedText inside)).Sublist (left ++ right) := by
  rw [name_ofText] at read
  exact fun part => SourceName.unquote_ne_of_sublist valid other same part read

theorem keepsCount_equals (comma : KeepsCount ',' (SourceName.quoted inside).text) :
    KeepsCount '=' (SourceName.quoted inside).text := by
  refine ⟨?_, comma.settled⟩
  -- What is behind a cut would be taken for the default value.
  by_contra cut
  obtain ⟨left, right, same, first⟩ :=
    exists_headD_splitTopLevel (by decide) cut ": A".toList (quotedText inside)
  refine not_sublist_of_read valid read (by decide) same (.trans ?_ (List.sublist_append_left _ _))
  have part : Parameter.withoutDefault (quotedText inside) = Text.trim left := first
  rw [readName, part]
  exact (Text.lastWord_sublist _ _).trans ((headD_splitTopLevel_sublist ':' _).trans
    ((Text.stripNotes_sublist _).trans (Text.trim_sublist left)))

theorem keepsCount_colon (comma : KeepsCount ',' (SourceName.quoted inside).text)
    (equals : KeepsCount '=' (SourceName.quoted inside).text) :
    KeepsCount ':' (SourceName.quoted inside).text := by
  refine ⟨?_, comma.settled⟩
  by_contra cut
  obtain ⟨left, right, same, first⟩ := exists_headD_splitTopLevel (by decide) cut ": A".toList []
  refine not_sublist_of_read valid read (by decide) same (.trans ?_ (List.sublist_append_left _ _))
  rw [readName_quotedText valid equals, quotedText, first]
  exact (Text.lastWord_sublist _ _).trans (Text.trim_sublist left)

theorem solid_of_read (equals : KeepsCount '=' (SourceName.quoted inside).text)
    (colon : KeepsCount ':' (SourceName.quoted inside).text) :
    ∀ char ∈ (SourceName.quoted inside).text, isBlank char = false := by
  have split : Text.splitTopLevel ':' (quotedText inside) =
      [(SourceName.quoted inside).text, ['A']] := by
    have listed : ListedAs ':' [(SourceName.quoted inside).text, ['A']]
        ((SourceName.quoted inside).text ++ [] ++ ':' :: " A".toList) :=
      .two (show allBlank [] = true from rfl) (show allBlank [' '] = true from rfl) ':' _ _
    rw [List.append_nil] at listed
    refine Text.splitTopLevel_of_listedAs rfl (by decide) listed ?_
    rw [List.forall_mem_cons, List.forall_mem_singleton]
    exact ⟨⟨colon, SourceName.nonempty valid, SourceName.isTight valid⟩, isItem_letter ':' (by decide)⟩
  intro char member
  rw [← Bool.not_eq_true]
  intro blank
  obtain ⟨left, right, same⟩ := List.append_of_mem member
  have other : char ≠ Name.quote := by
    rintro rfl
    exact absurd blank (by decide)
  refine not_sublist_of_read valid read other same ?_
  rw [readName_quotedText valid equals, split, List.headD_cons, same]
  exact Text.lastWord_append_cons_sublist blank left right

end

end

theorem isCounted_quoted (reads : ReadsAll insides values) {inside : List Char}
    (valid : (SourceName.quoted inside).IsValid) (member : inside ∈ insides) :
    (SourceName.quoted inside).IsCounted := by
  let parameter : SourceParameter := ⟨.quoted inside, ['A'], none⟩
  have isValid : parameter.IsValid := ⟨valid, isItem_letter, nofun⟩
  have isAmong : parameter.IsAmong insides values := by
    refine ⟨?_, nofun⟩
    rintro _ ⟨⟩
    exact member
  have writes : parameter.Writes (quotedText inside) := by
    have labelled := writes_labelled (.quoted inside) .without
    rwa [List.append_nil] at labelled
  have tight := tight_quotedText inside
  have counted := keepsCount_of_readsAll reads isValid isAmong writes tight (by rintro ⟨⟩)
    (by rw [getLast?_quotedText]; decide)
  have comma : KeepsCount ',' (SourceName.quoted inside).text :=
    counted.of_append_ordinary (List.all_eq_true.mp (by decide))
  have item : IsItem ',' (quotedText inside) := ⟨counted, List.cons_ne_nil _ _, tight⟩
  have read := map_ofText_of_readsAll reads isValid isAmong writes
  rw [item.splitTopLevel_eq rfl (by decide), List.map_singleton, List.cons.injEq] at read
  have named : (Parameter.ofText (quotedText inside)).name = (SourceName.quoted inside).bare := by
    rw [read.1]
    rfl
  have equals := keepsCount_equals valid named comma
  have colon := keepsCount_colon valid named comma equals
  exact ⟨solid_of_read valid named equals colon, forall_separators comma equals colon⟩

/-- All lists of parameters over some names in quotes and some default values are read as they are
just when all of these keep the count. -/
theorem readsAll_iff (names : ∀ inside ∈ insides, (SourceName.quoted inside).IsValid)
    (isValue : ∀ value ∈ values, IsValue value) :
    ReadsAll insides values ↔
      (∀ inside ∈ insides, (SourceName.quoted inside).IsCounted) ∧
        ∀ value ∈ values, KeepsCount ',' value := by
  constructor
  · intro reads
    exact ⟨fun inside member => isCounted_quoted reads (names inside member) member,
      fun value member => keepsCount_value reads (isValue value member) member⟩
  · rintro ⟨counted, keeps⟩ parameters texts list proper written listed
    refine listOfText_of_counted (fun parameter member => (proper parameter member).1) ?_ written listed
    intro parameter member
    obtain ⟨valid, isAmong⟩ := proper parameter member
    refine ⟨?_, fun value given => keeps value (isAmong.value value given)⟩
    cases kind : parameter.name with
    | plain word => exact SourceName.isCounted_plain (kind ▸ valid.name)
    | quoted inside => exact counted inside (isAmong.quoted inside kind)

/-- The name `in` in quotes and the default value `f(1, 2)` are read as they are. -/
theorem readsAll_call : ReadsAll {"in".toList} {"f(1, 2)".toList} := by
  refine (readsAll_iff ?_ ?_).mpr ⟨?_, ?_⟩
  · rintro _ rfl
    decide
  · rintro _ rfl
    exact ⟨by decide, by decide, by decide⟩
  · rintro _ rfl
    have solid : (SourceName.quoted "in".toList).text.all (!isBlank ·) = true := by decide
    refine ⟨by simpa using List.all_eq_true.mp solid, ?_⟩
    exact forall_separators (by decide) (by decide) (by decide)
  · rintro _ rfl
    decide

/-! ### A comparison as a default value -/

/-- The parameters of `(a: Boolean = p < q, b: Int)`. -/
def compared : List SourceParameter :=
  [⟨.plain ['a'], "Boolean".toList, some "p < q".toList⟩, ⟨.plain ['b'], "Int".toList, none⟩]

theorem isValid_compared : ∀ parameter ∈ compared, parameter.IsValid := by
  have boolean : ∀ separator ∈ [',', '=', ':'], IsItem separator "Boolean".toList :=
    forall_separators (by decide) (by decide) (by decide)
  have int : ∀ separator ∈ [',', '=', ':'], IsItem separator "Int".toList :=
    forall_separators (by decide) (by decide) (by decide)
  have value : IsValue "p < q".toList := ⟨by decide, by decide, by decide⟩
  rw [compared, List.forall_mem_cons, List.forall_mem_singleton]
  refine ⟨⟨by decide, boolean, ?_⟩, ⟨by decide, int, nofun⟩⟩
  rintro _ ⟨⟩
  exact value

/-- The parameter behind a comparison is not found. -/
theorem listOfText_compared_ne : (∀ parameter ∈ compared, parameter.IsValid) ∧
    (∃ texts, List.Forall₂ Writes compared texts ∧
      ListedAs ',' texts "a: Boolean = p < q, b: Int".toList) ∧
    Parameter.listOfText "(a: Boolean = p < q, b: Int)".toList ≠ compared.map declared := by
  have space : allBlank [' '] = true := rfl
  have nothing : allBlank [] = true := rfl
  have first : Writes ⟨.plain ['a'], "Boolean".toList, some "p < q".toList⟩
      "a: Boolean = p < q".toList :=
    .intro (.intro .none .none nothing space) (.given space space)
  have second : Writes ⟨.plain ['b'], "Int".toList, none⟩ "b: Int".toList :=
    .intro (.intro .none .none nothing space) .without
  have listed : ListedAs ',' ["a: Boolean = p < q".toList, "b: Int".toList]
      "a: Boolean = p < q, b: Int".toList := .two nothing space ',' _ _
  refine ⟨isValid_compared, ⟨_, .cons first (.cons second .nil), listed⟩, fun read => ?_⟩
  have lengths := congrArg List.length read
  have one : (Text.splitTopLevel ',' "a: Boolean = p < q, b: Int".toList).length = 1 := by decide
  have bracketed : "(a: Boolean = p < q, b: Int)".toList =
      '(' :: ("a: Boolean = p < q, b: Int".toList ++ [')']) := rfl
  rw [bracketed, listOfText_bracketed, List.length_map, one] at lengths
  exact absurd lengths (by decide)

end SourceParameter

end SourceCapture
