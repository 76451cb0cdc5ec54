/-
The types in a list of supertypes. A supertype is written alone, with the arguments of its
constructor, or with an object that it is delegated to. Its type is cut out at the first
parenthesis that no angle bracket is open in front of, and the tip of an arrow is taken for an
angle bracket that closes. So a type with arrows may be cut inside, or not at its end.
-/

import Mathlib.Data.List.Infix
import SourceCapture.Header
import SourceCapture.Proofs.Headers.Names
import SourceCapture.Proofs.Text.Levels

namespace SourceCapture

/-! ### The first place of a piece -/

namespace Text

variable {piece text left right : List Char}

/-- A text is cut no later than where the piece is seen in it. -/
theorem exists_splitOnce?_append (piece left right : List Char) :
    ∃ front back, splitOnce? piece (left ++ (piece ++ right)) = some (front, back) ∧
      front.length ≤ left.length := by
  induction left with
  | nil =>
    have here : splitOnce? piece (piece ++ right) = some ([], right) := by
      cases piece with
      | nil => cases right <;> rfl
      | cons first rest =>
        rw [List.cons_append, splitOnce?, ← List.cons_append, stripStart?_eq_some.mpr rfl]
    exact ⟨[], right, here, Nat.le_refl 0⟩
  | cons char left inductionHypothesis =>
    rw [List.cons_append, splitOnce?]
    cases stripStart? piece (char :: (left ++ (piece ++ right))) with
    | some after => exact ⟨[], after, rfl, Nat.zero_le _⟩
    | none =>
      obtain ⟨front, back, found, short⟩ := inductionHypothesis
      exact ⟨char :: front, back, by rw [found]; rfl, Nat.succ_le_succ short⟩

theorem splitOnce?_eq_none (without : ∀ left right, text ≠ left ++ (piece ++ right)) :
    splitOnce? piece text = none := by
  rw [Option.eq_none_iff_forall_ne_some]
  rintro ⟨left, right⟩ found
  exact without left right (eq_append_of_splitOnce? found)

end Text

/-! ### Parentheses -/

namespace ClassHeader

variable {text left right : List Char} {depth : Int} {isFirst : Bool}

theorem beforeArguments_cons (depth : Int) (isFirst : Bool) (char : Char) (rest : List Char) :
    beforeArguments depth isFirst (char :: rest) =
      if char = '(' ∧ depth = 0 ∧ isFirst = false then []
      else char :: beforeArguments (depth + Text.weight false char) false rest := by
  rw [beforeArguments, ← Text.add_weight_false]
  simp [and_assoc]

theorem length_beforeArguments_le (depth : Int) (isFirst : Bool) (text : List Char) :
    (beforeArguments depth isFirst text).length ≤ text.length := by
  induction text generalizing depth isFirst with
  | nil => exact Nat.le_refl 0
  | cons char rest inductionHypothesis =>
    rw [beforeArguments_cons]
    split
    · exact Nat.zero_le _
    · exact Nat.succ_le_succ (inductionHypothesis _ _)

/-- A parenthesis that no bracket is open in front of is not reached. -/
theorem length_beforeArguments_append_le (outside : depth + Text.level false left = 0)
    (behind : isFirst = false ∨ left ≠ []) (right : List Char) :
    (beforeArguments depth isFirst (left ++ '(' :: right)).length ≤ left.length := by
  induction left generalizing depth isFirst with
  | nil =>
    have later : isFirst = false := behind.resolve_right (not_not_intro rfl)
    rw [Text.level_nil, Int.add_zero] at outside
    rw [List.nil_append, beforeArguments_cons, if_pos ⟨rfl, outside, later⟩]
  | cons char left inductionHypothesis =>
    rw [Text.level_cons, ← Int.add_assoc] at outside
    rw [List.cons_append, beforeArguments_cons]
    split
    · exact Nat.zero_le _
    · exact Nat.succ_le_succ (inductionHypothesis outside (Or.inl rfl))

/-- A text is passed over if every parenthesis in it is the first character or stands where a
bracket is open. -/
theorem beforeArguments_append (shielded : ∀ left right, text = left ++ '(' :: right →
      isFirst = true ∧ left = [] ∨ depth + Text.level false left ≠ 0) (rest : List Char) :
    beforeArguments depth isFirst (text ++ rest) =
      text ++ beforeArguments (depth + Text.level false text) (isFirst && text.isEmpty) rest := by
  induction text generalizing depth isFirst with
  | nil =>
    rw [Text.level_nil, Int.add_zero, List.isEmpty_nil, Bool.and_true]
    rfl
  | cons char text inductionHypothesis =>
    have passed : ¬(char = '(' ∧ depth = 0 ∧ isFirst = false) := by
      rintro ⟨rfl, outside, later⟩
      rcases shielded [] text rfl with ⟨first, -⟩ | inside
      · rw [first] at later
        cases later
      · exact inside ((Int.add_zero depth).trans outside)
    have further : beforeArguments (depth + Text.weight false char) false (text ++ rest) =
        text ++ beforeArguments (depth + Text.weight false char + Text.level false text)
          (false && text.isEmpty) rest := by
      refine inductionHypothesis fun left right same => Or.inr ?_
      have inside := (shielded (char :: left) right (by rw [same]; rfl)).resolve_left
        fun first => List.cons_ne_nil _ _ first.2
      rwa [Text.level_cons, ← Int.add_assoc] at inside
    rw [List.cons_append, beforeArguments_cons, if_neg passed, further, Text.level_cons,
      Int.add_assoc, Bool.false_and, List.isEmpty_cons, Bool.and_false]
    rfl

/-! ### Delegates -/

/-- A supertype without what it is delegated to. -/
def declaredPart (written : List Char) : List Char :=
  match Text.splitOnce? " by ".toList written with
  | some (type, _) => type
  | none => written

theorem supertypeText_eq (written : List Char) :
    supertypeText written = Text.trim (beforeArguments 0 true (declaredPart written)) := rfl

theorem length_supertypeText_le (left right : List Char) :
    (supertypeText (left ++ (" by ".toList ++ right))).length ≤ left.length := by
  obtain ⟨front, back, found, short⟩ := Text.exists_splitOnce?_append " by ".toList left right
  have declared : declaredPart (left ++ (" by ".toList ++ right)) = front := by
    rw [declaredPart, found]
  rw [supertypeText_eq, declared]
  have cut := length_beforeArguments_le 0 true front
  have trimmed := Text.length_trim_le (beforeArguments 0 true front)
  omega

theorem declaredPart_eq_self (whole : ∀ left right, text ≠ left ++ (" by ".toList ++ right)) :
    declaredPart text = text := by
  rw [declaredPart, Text.splitOnce?_eq_none whole]

/-- Arguments in parentheses stay behind a type without a delegate, up to a delegate in them. -/
theorem exists_declaredPart_append (whole : ∀ left right, text ≠ left ++ (" by ".toList ++ right))
    (rest : List Char) : ∃ kept, declaredPart (text ++ '(' :: rest) = text ++ '(' :: kept := by
  rw [declaredPart]
  cases found : Text.splitOnce? " by ".toList (text ++ '(' :: rest) with
  | none => exact ⟨rest, rfl⟩
  | some parts =>
    obtain ⟨front, back⟩ := parts
    rcases List.append_eq_append_iff.mp (Text.eq_append_of_splitOnce? found) with
      ⟨kept, rfl, same⟩ | ⟨kept, rfl, same⟩
    · cases kept with
      | nil => exact absurd (List.cons.inj same).1 (by decide)
      | cons char kept =>
        obtain ⟨rfl, -⟩ := List.cons.inj same
        exact ⟨kept, rfl⟩
    · rcases List.append_eq_append_iff.mp same with ⟨other, rfl, -⟩ | ⟨other, piece, cut⟩
      · exact absurd rfl (whole front other)
      · cases other with
        | nil =>
          rw [List.append_nil] at piece
          exact absurd (by rw [piece, List.append_nil]) (whole front [])
        | cons char other =>
          obtain ⟨rfl, -⟩ := List.cons.inj cut
          have inside : '(' ∈ " by ".toList := by
            rw [piece]
            exact List.mem_append_right _ List.mem_cons_self
          exact absurd inside (by decide)

/-- The delegate is cut off, unless the type seems to have one itself. -/
theorem declaredPart_append_delegate
    (whole : ∀ left right, text ++ [' '] ≠ left ++ (" by ".toList ++ right)) (delegate : List Char) :
    declaredPart (text ++ (" by ".toList ++ delegate)) = text := by
  obtain ⟨front, back, found, short⟩ := Text.exists_splitOnce?_append " by ".toList text delegate
  have same := Text.eq_append_of_splitOnce? found
  rw [declaredPart, found]
  obtain ⟨rest, rfl⟩ := List.prefix_of_prefix_length_le ⟨_, same.symm⟩ ⟨_, rfl⟩ short
  rw [List.append_assoc, List.append_cancel_left_eq] at same
  -- The piece that was found starts in the type, so it ends before the one behind the type.
  have chars : " by ".toList = [' ', 'b', 'y', ' '] := rfl
  rw [chars] at same whole
  rcases rest with _ | ⟨first, _ | ⟨second, _ | ⟨third, _ | ⟨fourth, rest⟩⟩⟩⟩
  · exact (List.append_nil front).symm
  · exact absurd (List.cons.inj (List.cons.inj same).2).1 (by decide)
  · exact absurd (List.cons.inj (List.cons.inj (List.cons.inj same).2).2).1 (by decide)
  · simp only [List.cons_append, List.nil_append, List.cons.injEq] at same
    obtain ⟨rfl, rfl, rfl, -⟩ := same
    exact absurd (List.append_assoc _ _ _) (whole front [])
  · simp only [List.cons_append, List.nil_append, List.cons.injEq] at same
    obtain ⟨rfl, rfl, rfl, rfl, -⟩ := same
    exact absurd (List.append_assoc _ _ _) (whole front (rest ++ [' ']))

end ClassHeader

/-! ### Whole supertypes -/

/-- How a supertype is written: alone, with the arguments of its constructor, or with an object
that it is delegated to. -/
inductive SupertypeUse where
  | alone
  | constructed (arguments : List Char)
  | delegated (delegate : List Char)

namespace SupertypeUse

/-- What is written behind the type. -/
def tail : SupertypeUse → List Char
  | alone => []
  | constructed arguments => '(' :: (arguments ++ [')'])
  | delegated delegate => " by ".toList ++ delegate

/-- The white space behind the type. -/
def gap : SupertypeUse → List Char
  | alone => []
  | constructed _ => []
  | delegated _ => [' ']

def isConstructed : SupertypeUse → Bool
  | constructed _ => true
  | _ => false

/-- Whether nothing in the text of a type is taken for its end, and the arguments behind it are not
taken for a part of it. -/
structure Shows (use : SupertypeUse) (type : List Char) : Prop where
  undelegated : ∀ left right, type ++ use.gap ≠ left ++ (" by ".toList ++ right)
  shielded : ∀ left right, type = left ++ '(' :: right → left ≠ [] → left.count '<' ≠ left.count '>'
  arrowless : use.isConstructed = true → '-' ∉ type

end SupertypeUse

namespace ClassHeader

open Text (IsTypeText)

variable {use : SupertypeUse} {type : List Char}

theorem gap_append_tail (use : SupertypeUse) : ∃ rest, use.tail = use.gap ++ rest := by
  cases use with
  | alone => exact ⟨[], rfl⟩
  | constructed arguments => exact ⟨_, rfl⟩
  | delegated delegate => exact ⟨"by ".toList ++ delegate, rfl⟩

/-- A type with a word in it that is taken for the delegation is cut there. -/
theorem undelegated_of_supertypeText (kept : supertypeText (type ++ use.tail) = type) :
    ∀ left right, type ++ use.gap ≠ left ++ (" by ".toList ++ right) := by
  intro left right same
  obtain ⟨rest, tail⟩ := gap_append_tail use
  have short := length_supertypeText_le left (right ++ rest)
  rw [← List.append_assoc, ← List.append_assoc, List.append_assoc left, ← same, List.append_assoc,
    ← tail, kept] at short
  have lengths := congrArg List.length same
  have narrow : use.gap.length ≤ 1 := by
    cases use with
    | alone | constructed => exact Nat.zero_le 1
    | delegated => exact Nat.le_refl 1
  simp only [List.length_append] at lengths
  have four : " by ".toList.length = 4 := rfl
  omega

/-- What is left of a supertype in front of a delegate: the type, with the start of the arguments
if there are some. -/
theorem declaredPart_cases
    (undelegated : ∀ left right, type ++ use.gap ≠ left ++ (" by ".toList ++ right)) :
    use.isConstructed = false ∧ declaredPart (type ++ use.tail) = type ∨
      use.isConstructed = true ∧
        ∃ kept, declaredPart (type ++ use.tail) = type ++ '(' :: kept := by
  cases use with
  | alone =>
    rw [SupertypeUse.gap, List.append_nil] at undelegated
    rw [SupertypeUse.tail, List.append_nil]
    exact .inl ⟨rfl, declaredPart_eq_self undelegated⟩
  | constructed arguments =>
    rw [SupertypeUse.gap, List.append_nil] at undelegated
    exact .inr ⟨rfl, exists_declaredPart_append undelegated _⟩
  | delegated delegate => exact .inl ⟨rfl, declaredPart_append_delegate undelegated delegate⟩

/-- A parenthesis in the type that no bracket seems to be open in front of ends it. -/
theorem shielded_of_supertypeText (declared : ∃ rest, declaredPart (type ++ use.tail) = type ++ rest)
    (kept : supertypeText (type ++ use.tail) = type) :
    ∀ left right, type = left ++ '(' :: right → left ≠ [] → Text.level false left ≠ 0 := by
  rintro left right rfl nonempty outside
  obtain ⟨rest, declared⟩ := declared
  rw [supertypeText_eq, declared, List.append_assoc, List.cons_append] at kept
  have short : (beforeArguments 0 true (left ++ '(' :: (right ++ rest))).length ≤ left.length :=
    length_beforeArguments_append_le ((Int.zero_add _).trans outside) (.inr nonempty) _
  have trimmed := Text.length_trim_le (beforeArguments 0 true (left ++ '(' :: (right ++ rest)))
  rw [kept, List.length_append, List.length_cons] at trimmed
  omega

theorem beforeArguments_type (isType : IsTypeText type) (shielded : ∀ left right,
      type = left ++ '(' :: right → left ≠ [] → Text.level false left ≠ 0) (rest : List Char) :
    beforeArguments 0 true (type ++ rest) =
      type ++ beforeArguments (Text.level false type) false rest := by
  have inside : type.isEmpty = false := by simpa using isType.nonempty
  rw [beforeArguments_append fun left right same => ?_, inside, Bool.and_false, Int.zero_add]
  rw [Int.zero_add]
  exact or_iff_not_imp_left.mpr fun behind =>
    shielded left right same fun empty => behind ⟨rfl, empty⟩

theorem level_ne_zero_iff (text : List Char) :
    Text.level false text ≠ 0 ↔ text.count '<' ≠ text.count '>' := by
  rw [Text.level_false]
  omega

theorem level_eq_zero_iff (isType : IsTypeText type) : Text.level false type = 0 ↔ '-' ∉ type := by
  rw [isType.closed.level_eq, ← List.count_eq_zero]
  omega

theorem supertypeText_of_shows (isType : IsTypeText type) (shows : use.Shows type) :
    supertypeText (type ++ use.tail) = type := by
  have passed := beforeArguments_type isType fun left right same nonempty =>
    (level_ne_zero_iff left).mpr (shows.shielded left right same nonempty)
  rw [supertypeText_eq]
  rcases declaredPart_cases shows.undelegated with ⟨-, declared⟩ | ⟨constructed, rest, declared⟩
  · have whole := passed []
    rw [List.append_nil] at whole
    rw [declared, whole, beforeArguments, List.append_nil, isType.tight.trims.trim_eq]
  · have outside := (level_eq_zero_iff isType).mpr (shows.arrowless constructed)
    rw [declared, passed, beforeArguments_cons, if_pos ⟨rfl, outside, rfl⟩, List.append_nil,
      isType.tight.trims.trim_eq]

/-- The arguments of a constructor are kept with a type that has arrows. -/
theorem supertypeText_ne (isType : IsTypeText type) {rest : List Char}
    (shielded : ∀ left right, type = left ++ '(' :: right → left ≠ [] → Text.level false left ≠ 0)
    (inside : Text.level false type ≠ 0) :
    Text.trim (beforeArguments 0 true (type ++ '(' :: rest)) ≠ type := by
  intro kept
  rw [beforeArguments_type isType shielded, beforeArguments_cons,
    if_neg fun outside => inside outside.2.1, Text.trim_append_cons (by decide),
    isType.tight.trimStart_eq] at kept
  exact absurd (List.append_right_eq_self.mp kept) (List.cons_ne_nil _ _)

theorem shows_of_supertypeText (isType : IsTypeText type)
    (kept : supertypeText (type ++ use.tail) = type) : use.Shows type := by
  have undelegated := undelegated_of_supertypeText kept
  have cases := declaredPart_cases undelegated
  have shielded : ∀ left right, type = left ++ '(' :: right → left ≠ [] →
      Text.level false left ≠ 0 := by
    refine shielded_of_supertypeText ?_ kept
    rcases cases with ⟨-, declared⟩ | ⟨-, rest, declared⟩
    · exact ⟨[], by rw [declared, List.append_nil]⟩
    · exact ⟨_, declared⟩
  refine ⟨undelegated, fun left right same nonempty =>
    (level_ne_zero_iff left).mp (shielded left right same nonempty), fun constructed => ?_⟩
  rcases cases with ⟨other, -⟩ | ⟨-, rest, declared⟩
  · rw [constructed] at other
    cases other
  · rw [← level_eq_zero_iff isType]
    by_contra inside
    rw [supertypeText_eq, declared] at kept
    exact supertypeText_ne isType shielded inside kept

/-- The type of a supertype is the text that was written for it just when nothing in the text is
taken for its end and there are no arrows in front of the arguments of a constructor. -/
theorem supertypeText_eq_iff (isType : IsTypeText type) (use : SupertypeUse) :
    supertypeText (type ++ use.tail) = type ↔ use.Shows type :=
  ⟨shows_of_supertypeText isType, supertypeText_of_shows isType⟩

/-- The class of such a supertype is the one that is written. -/
theorem type_supertypeOf (isType : IsTypeText type) (shows : use.Shows type) {site : Site}
    {tree : Tree} (written : tree.text site.content = type ++ use.tail) :
    (supertypeOf site tree).type = site.parseType type := by
  rw [supertypeOf, written, supertypeText_of_shows isType shows]

/-! ### A supertype with a function among its type arguments -/

/-- The type `Base<() -> A>`. -/
def producerBase : SourceType :=
  .named "Base" [.function false none [] (.named "A" [] false) false] false

theorem wellNamed_producerBase : producerBase.WellNamed := by
  have names : SourceType.IsName "Base" ∧ SourceType.IsName "A" := by decide
  simp [producerBase, SourceType.WellNamed, SourceType.everywhere_named_iff,
    SourceType.everywhere_function_iff, SourceType.inputs, SourceType.OwnNames, names]

/-- The type is found if it stands alone. -/
theorem supertypeText_producerBase :
    supertypeText (producerBase.text ++ SupertypeUse.alone.tail) = producerBase.text := by
  refine (supertypeText_eq_iff wellNamed_producerBase.isTypeText .alone).mpr
    ⟨fun left right same => ?_, fun left right same nonempty => ?_, nofun⟩
  · have inside : 'y' ∈ producerBase.text ++ SupertypeUse.alone.gap := by
      rw [same]
      exact List.mem_append_right _ (List.mem_append_left _ (by decide))
    revert inside
    decide
  · have counted : ∀ front ∈ producerBase.text.inits, front.getLast? = some '(' →
        front.count '<' ≠ front.count '>' := by
      decide
    have front : left ++ ['('] ∈ producerBase.text.inits := by
      rw [List.mem_inits, same]
      exact ⟨right, by simp⟩
    simpa using counted _ front List.getLast?_concat

/-- The argument of the constructor is taken for a part of the type. -/
theorem supertypeText_producerBase_ne :
    producerBase.WellNamed ∧
      supertypeText (producerBase.text ++ (SupertypeUse.constructed ['1']).tail) ≠
        producerBase.text :=
  ⟨wellNamed_producerBase, by decide⟩

end ClassHeader

end SourceCapture
