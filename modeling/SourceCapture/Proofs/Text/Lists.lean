/-
Lists as they are written: items with a separator between each two, with white space around every
item and maybe one more separator at the end. Such a list is split into its items if every item
keeps the count, that is, if it is not cut itself, and leaves no bracket and no quotes open. What
stands in front of an item does not matter then, but for the first half of an arrow.
-/

import SourceCapture.Proofs.Text.Brackets

namespace SourceCapture.Text

/-! ### What is known behind a text -/

namespace Nesting

/-- Whether no bracket and no quotes are open. -/
structure IsSettled (state : Nesting) : Prop where
  outside : state.depth = 0
  unquoted : state.isQuoted = false
  unescaped : state.isEscaped = false

/-- Whether no arrow has started either, so that nothing is known. -/
structure IsFresh (state : Nesting) : Prop extends IsSettled state where
  afterOther : state.previous ≠ some '-'

/-- Whether two states mean the same for whatever follows. -/
structure Alike (state other : Nesting) : Prop where
  depth : state.depth = other.depth
  isQuoted : state.isQuoted = other.isQuoted
  isEscaped : state.isEscaped = other.isEscaped
  arrow : state.previous = some '-' ↔ other.previous = some '-'

variable {state other : Nesting} {separator char : Char} {text left right : List Char}

theorem IsFresh.empty : IsFresh {} := ⟨⟨rfl, rfl, rfl⟩, nofun⟩

@[simp] theorem after_nil (state : Nesting) : state.after [] = state := rfl

@[simp] theorem after_cons (state : Nesting) (char : Char) (text : List Char) :
    state.after (char :: text) = (state.next char).after text := rfl

theorem after_append (state : Nesting) (left right : List Char) :
    state.after (left ++ right) = (state.after left).after right := List.foldl_append

theorem IsSettled.next (settled : state.IsSettled) (ordinary : isOrdinary char = true) :
    (state.next char).IsFresh := by
  rw [next_eq_of_ordinary settled.unquoted ordinary]
  exact ⟨⟨settled.outside, settled.unquoted, settled.unescaped⟩,
    fun same => ne_of_isOrdinary ordinary rfl (Option.some.inj same)⟩

theorem IsFresh.after (fresh : state.IsFresh) (ordinary : ∀ char ∈ text, isOrdinary char = true) :
    (state.after text).IsFresh := by
  induction text generalizing state with
  | nil => exact fresh
  | cons char rest inductionHypothesis =>
    rw [List.forall_mem_cons] at ordinary
    exact inductionHypothesis (fresh.next ordinary.1) ordinary.2

theorem IsFresh.alike (fresh : state.IsFresh) (otherFresh : other.IsFresh) : state.Alike other where
  depth := fresh.outside.trans otherFresh.outside.symm
  isQuoted := fresh.unquoted.trans otherFresh.unquoted.symm
  isEscaped := fresh.unescaped.trans otherFresh.unescaped.symm
  arrow := iff_of_false fresh.afterOther otherFresh.afterOther

theorem Alike.next (alike : state.Alike other) (char : Char) :
    (state.next char).Alike (other.next char) := by
  obtain ⟨depth, quoted, escaped, previous⟩ := state
  obtain ⟨otherDepth, otherQuoted, otherEscaped, otherPrevious⟩ := other
  obtain ⟨rfl, rfl, rfl, arrow⟩ := alike
  dsimp only at arrow
  have tip : (char = '>' ∧ previous = some '-') ↔ (char = '>' ∧ otherPrevious = some '-') :=
    and_congr_right fun _ => arrow
  simp only [Nesting.next, Bool.and_eq_true, decide_eq_true_eq, tip]
  split_ifs <;> exact ⟨rfl, rfl, rfl, Iff.rfl⟩

theorem Alike.separates (alike : state.Alike other) (separator char : Char) :
    state.separates separator char = other.separates separator char := by
  rw [Nesting.separates, Nesting.separates, alike.depth, alike.isQuoted]

theorem Alike.after (alike : state.Alike other) (text : List Char) :
    (state.after text).Alike (other.after text) := by
  induction text generalizing state other with
  | nil => exact alike
  | cons char rest inductionHypothesis => exact inductionHypothesis (alike.next char)

theorem Alike.isSettled (alike : state.Alike other) (settled : state.IsSettled) :
    other.IsSettled where
  outside := alike.depth.symm.trans settled.outside
  unquoted := alike.isQuoted.symm.trans settled.unquoted
  unescaped := alike.isEscaped.symm.trans settled.unescaped

theorem Alike.piecesFrom (alike : state.Alike other) (separator : Char) (text : List Char) :
    piecesFrom separator state text = piecesFrom separator other text := by
  induction text generalizing state other with
  | nil => rfl
  | cons char rest inductionHypothesis =>
    rw [Text.piecesFrom, Text.piecesFrom, alike.separates, inductionHypothesis (alike.next char)]

end Nesting

theorem piecesFrom_ne_nil (separator : Char) (state : Nesting) (text : List Char) :
    piecesFrom separator state text ≠ [] := by
  cases text with
  | nil => exact List.cons_ne_nil _ _
  | cons char rest =>
    rw [piecesFrom]
    split
    · exact List.cons_ne_nil _ _
    · cases piecesFrom separator (state.next char) rest <;> exact List.cons_ne_nil _ _

theorem keeps_of_piecesFrom_cons {separator char : Char} {state : Nesting} {rest : List Char}
    (whole : piecesFrom separator state (char :: rest) = [char :: rest]) :
    state.separates separator char = false ∧
      piecesFrom separator (state.next char) rest = [rest] := by
  rw [piecesFrom] at whole
  split at whole
  case isTrue => exact absurd (List.cons.inj whole).1.symm (List.cons_ne_nil _ _)
  case isFalse keeps =>
    obtain ⟨first, others, same⟩ :=
      List.exists_cons_of_ne_nil (piecesFrom_ne_nil separator (state.next char) rest)
    rw [same] at whole
    obtain ⟨front, rfl⟩ := List.cons.inj whole
    rw [(List.cons.inj front).2] at same
    exact ⟨Bool.eq_false_iff.mpr keeps, same⟩

/-- A text that is one piece is passed over without a cut. -/
theorem walks_of_piecesFrom {separator : Char} {state : Nesting} {text : List Char}
    (whole : piecesFrom separator state text = [text]) :
    Walks separator state text (state.after text) := by
  induction text generalizing state with
  | nil => exact .nil separator state
  | cons char rest inductionHypothesis =>
    obtain ⟨keeps, later⟩ := keeps_of_piecesFrom_cons whole
    exact .cons keeps (inductionHypothesis later)

theorem piecesFrom_of_walks {separator : Char} {state after : Nesting} {text : List Char}
    (walks : Walks separator state text after) : piecesFrom separator state text = [text] := by
  have whole := walks []
  rwa [List.append_nil, piecesFrom, foldr_extendFirst, List.append_nil] at whole

/-! ### Texts that keep the count -/

/-- Whether a text can stand between separators: it is not cut itself, and at its end no bracket
and no quotes are open. -/
structure KeepsCount (separator : Char) (text : List Char) : Prop where
  whole : piecesFrom separator {} text = [text]
  settled : (({} : Nesting).after text).IsSettled

instance (state : Nesting) : Decidable state.IsSettled :=
  decidable_of_iff (state.depth = 0 ∧ state.isQuoted = false ∧ state.isEscaped = false)
    ⟨fun settled => ⟨settled.1, settled.2.1, settled.2.2⟩,
      fun settled => ⟨settled.outside, settled.unquoted, settled.unescaped⟩⟩

instance (separator : Char) (text : List Char) : Decidable (KeepsCount separator text) :=
  decidable_of_iff (piecesFrom separator {} text = [text] ∧ (({} : Nesting).after text).IsSettled)
    ⟨fun keeps => ⟨keeps.1, keeps.2⟩, fun keeps => ⟨keeps.whole, keeps.settled⟩⟩

/-- Whether a text is passed over, and leaves no bracket and no quotes open. -/
structure Settles (separator : Char) (state : Nesting) (text : List Char) : Prop where
  walks : Walks separator state text (state.after text)
  settled : (state.after text).IsSettled

variable {separator char : Char} {state : Nesting} {text left right : List Char}

theorem Settles.append (first : Settles separator state left)
    (second : Settles separator (state.after left) right) : Settles separator state (left ++ right) := by
  constructor
  · rw [Nesting.after_append]
    exact first.walks.append second.walks
  · rw [Nesting.after_append]
    exact second.settled

theorem KeepsCount.settles (keeps : KeepsCount separator text) (fresh : state.IsFresh) :
    Settles separator state text := by
  have alike : state.Alike {} := fresh.alike .empty
  have back : Nesting.Alike {} state := Nesting.IsFresh.empty.alike fresh
  constructor
  · exact walks_of_piecesFrom ((alike.piecesFrom separator text).trans keeps.whole)
  · exact (back.after text).isSettled keeps.settled

theorem Settles.keepsCount (settles : Settles separator {} text) : KeepsCount separator text :=
  ⟨piecesFrom_of_walks settles.walks, settles.settled⟩

/-- Characters without a meaning of their own are passed over. -/
theorem settles_of_ordinary (settled : state.IsSettled)
    (ordinary : ∀ char ∈ text, isOrdinary char = true) (other : separator ∉ text) :
    Settles separator state text := by
  induction text generalizing state with
  | nil => exact ⟨.nil separator state, settled⟩
  | cons char rest inductionHypothesis =>
    rw [List.forall_mem_cons] at ordinary
    rw [List.mem_cons, not_or] at other
    obtain ⟨walks, ended⟩ :=
      inductionHypothesis (settled.next ordinary.1).toIsSettled ordinary.2 other.2
    refine ⟨.cons ?_ walks, ended⟩
    simp [Nesting.separates, Ne.symm other.1]

/-- White space means nothing to whatever counts brackets. -/
theorem isOrdinary_of_isBlank (blank : isBlank char = true) : isOrdinary char = true :=
  isOrdinary_of_holds (show specials.any isBlank = false by decide) blank

theorem not_mem_of_allBlank (solid : isBlank char = false) (blank : allBlank text = true) :
    char ∉ text := by
  intro member
  rw [(List.all_eq_true.mp blank) char member] at solid
  cases solid

theorem settles_of_allBlank (settled : state.IsSettled) (solid : isBlank separator = false)
    (blank : allBlank text = true) : Settles separator state text := by
  have absent := not_mem_of_allBlank solid blank
  rw [allBlank, List.all_eq_true] at blank
  exact settles_of_ordinary settled (fun char member => isOrdinary_of_isBlank (blank char member))
    absent

theorem Nesting.IsFresh.after_blank (fresh : state.IsFresh) (blank : allBlank text = true) :
    (state.after text).IsFresh := by
  rw [allBlank, List.all_eq_true] at blank
  exact fresh.after fun char member => isOrdinary_of_isBlank (blank char member)

theorem Closed.of_allBlank (solid : isBlank separator = false) (blank : allBlank text = true) :
    Closed (· ≠ separator) text := by
  have absent := not_mem_of_allBlank solid blank
  rw [allBlank, List.all_eq_true] at blank
  refine .of_ordinary (fun char member => isOrdinary_of_isBlank (blank char member)) ?_
  intro char member
  rw [decide_eq_true_iff]
  rintro rfl
  exact absent member

/-- An item is passed over with the white space around it. -/
theorem KeepsCount.settles_padded {before after : List Char} (keeps : KeepsCount separator text)
    (fresh : state.IsFresh) (solid : isBlank separator = false) (beforeBlank : allBlank before = true)
    (afterBlank : allBlank after = true) : Settles separator state (before ++ (text ++ after)) := by
  have first := settles_of_allBlank fresh.toIsSettled solid beforeBlank
  have item := keeps.settles (fresh.after_blank beforeBlank)
  exact first.append (item.append (settles_of_allBlank item.settled solid afterBlank))

/-! ### Texts in which every bracket is closed -/

namespace Nesting

/-- A backslash counts inside of quotes only. -/
theorem isQuoted_after_of_isEscaped (inside : state.isEscaped = true → state.isQuoted = true)
    (text : List Char) :
    (state.after text).isEscaped = true → (state.after text).isQuoted = true := by
  induction text generalizing state with
  | nil => exact inside
  | cons char text inductionHypothesis =>
    refine inductionHypothesis ?_
    obtain ⟨depth, quoted, escaped, previous⟩ := state
    dsimp only at inside
    simp only [next]
    split_ifs <;> simp_all

/-- What is open behind a text is known from whether a separator is seen there. -/
theorem isSettled_after (outside : (({} : Nesting).after text).depth = 0)
    (unquoted : (({} : Nesting).after text).isQuoted = false) :
    (({} : Nesting).after text).IsSettled where
  outside := outside
  unquoted := unquoted
  unescaped := by
    rw [← Bool.not_eq_true]
    intro escaped
    rw [isQuoted_after_of_isEscaped (fun other => other) text escaped] at unquoted
    cases unquoted

theorem after_bracketed {opening closing : Char} (calm : state.IsCalm)
    (isOpening : opens opening = true) (isClosing : closes closing = true)
    (inside : ∀ next : Nesting, next.IsCalm →
      (next.after text).IsCalm ∧ (next.after text).depth = next.depth) :
    (((state.next opening).after text).next closing).IsCalm ∧
      (((state.next opening).after text).next closing).depth = state.depth := by
  obtain ⟨opened, deeper⟩ := next_of_opens calm isOpening
  obtain ⟨last, same⟩ := inside _ opened
  obtain ⟨outer, back⟩ := next_of_closes last isClosing
  exact ⟨outer, by omega⟩

end Nesting

/-- A closed text leaves as many brackets open as there are before it. -/
theorem Closed.after {allowed : Char → Bool} (closed : Closed allowed text) (calm : state.IsCalm) :
    (state.after text).IsCalm ∧ (state.after text).depth = state.depth := by
  induction closed generalizing state with
  | nil => exact ⟨calm, rfl⟩
  | ordinary isOrdinary _ _ inductionHypothesis =>
    obtain ⟨next, same⟩ := Nesting.next_of_ordinary calm isOrdinary
    rw [← same]
    exact inductionHypothesis next
  | arrow _ _ inductionHypothesis =>
    obtain ⟨next, same⟩ := Nesting.next_arrow calm
    rw [← same]
    exact inductionHypothesis next
  | round _ _ innerHypothesis restHypothesis =>
    obtain ⟨outer, same⟩ := Nesting.after_bracketed calm (show Nesting.opens '(' = true from rfl)
      (show Nesting.closes ')' = true from rfl) fun _ nextCalm => innerHypothesis nextCalm
    rw [Nesting.after_cons, Nesting.after_append, Nesting.after_cons, ← same]
    exact restHypothesis outer
  | angle _ _ innerHypothesis restHypothesis =>
    obtain ⟨outer, same⟩ := Nesting.after_bracketed calm (show Nesting.opens '<' = true from rfl)
      (show Nesting.closes '>' = true from rfl) fun _ nextCalm => innerHypothesis nextCalm
    rw [Nesting.after_cons, Nesting.after_append, Nesting.after_cons, ← same]
    exact restHypothesis outer

theorem Closed.keepsCount {allowed : Char → Bool} (closed : Closed allowed text)
    (without : allowed separator = false) : KeepsCount separator text := by
  have calm : Nesting.IsCalm {} := ⟨rfl, nofun⟩
  obtain ⟨after, walks, -, -⟩ := closed.passes calm (Int.le_refl 0) fun _ => without
  obtain ⟨last, depth⟩ := closed.after calm
  exact ⟨piecesFrom_of_walks walks, Nesting.isSettled_after depth last.unquoted⟩

/-! ### Splitting -/

/-- The parts of a text between separators, from what is known before it. -/
def partsFrom (separator : Char) (state : Nesting) (text : List Char) : List (List Char) :=
  ((piecesFrom separator state text).map trim).filter (!·.isEmpty)

theorem splitTopLevel_eq (separator : Char) (text : List Char) :
    splitTopLevel separator text = partsFrom separator {} text := rfl

theorem partsFrom_of_settles (settles : Settles separator state text) :
    partsFrom separator state text = [trim text].filter (!·.isEmpty) := by
  rw [partsFrom, piecesFrom_of_walks settles.walks]
  rfl

/-- A text is cut at a separator behind a part that is passed over. -/
theorem piecesFrom_append (settles : Settles separator state left)
    (ordinary : isOrdinary separator = true) (right : List Char) :
    piecesFrom separator state (left ++ separator :: right) =
      left :: piecesFrom separator ((state.after left).next separator) right := by
  have cut : (state.after left).separates separator separator = true :=
    Nesting.separates_self ordinary settles.settled.unquoted settles.settled.outside
  rw [settles.walks, piecesFrom, cut, if_pos rfl, foldr_extendFirst, List.append_nil]

theorem partsFrom_append (settles : Settles separator state left)
    (ordinary : isOrdinary separator = true) (right : List Char) :
    partsFrom separator state (left ++ separator :: right) =
      [trim left].filter (!·.isEmpty) ++
        partsFrom separator ((state.after left).next separator) right := by
  rw [partsFrom, piecesFrom_append settles ordinary, List.map_cons, ← List.singleton_append,
    List.filter_append]
  rfl

theorem length_extendFirst {pieces : List (List Char)} (nonempty : pieces ≠ []) (char : Char) :
    (extendFirst char pieces).length = pieces.length := by
  cases pieces with
  | nil => exact absurd rfl nonempty
  | cons => rfl

theorem intercalate_extendFirst {pieces : List (List Char)} (nonempty : pieces ≠ [])
    (separator char : Char) :
    [separator].intercalate (extendFirst char pieces) = char :: [separator].intercalate pieces := by
  match pieces, nonempty with
  | [_], _ => rfl
  | _ :: _ :: _, _ => simp [extendFirst, List.intercalate_cons_cons]

/-- The pieces of a text are the text, but for the separators between them. -/
theorem intercalate_piecesFrom (separator : Char) (state : Nesting) (text : List Char) :
    [separator].intercalate (piecesFrom separator state text) = text := by
  induction text generalizing state with
  | nil => rfl
  | cons char rest inductionHypothesis =>
    have later := inductionHypothesis (state.next char)
    have some := piecesFrom_ne_nil separator (state.next char) rest
    rw [piecesFrom]
    split
    case isTrue separates =>
      rw [List.intercalate_cons_of_ne_nil some, later, Nesting.eq_of_separates separates]
      rfl
    case isFalse => rw [intercalate_extendFirst some, later]

/-- A text has no fewer pieces than a part at its start. -/
theorem length_piecesFrom_le (separator : Char) (state : Nesting) (left right : List Char) :
    (piecesFrom separator state left).length ≤ (piecesFrom separator state (left ++ right)).length := by
  induction left generalizing state with
  | nil =>
    rw [List.nil_append]
    exact List.length_pos_iff.mpr (piecesFrom_ne_nil separator state right)
  | cons char left inductionHypothesis =>
    have rest := inductionHypothesis (state.next char)
    rw [List.cons_append, piecesFrom, piecesFrom]
    split
    · exact Nat.succ_le_succ rest
    · rwa [length_extendFirst (piecesFrom_ne_nil _ _ _), length_extendFirst (piecesFrom_ne_nil _ _ _)]

/-- Lists as they are written: with white space around every item, a separator between each two,
and maybe one more at the end. -/
inductive ListedAs (separator : Char) : List (List Char) → List Char → Prop where
  | nil {blank : List Char} (isBlank : allBlank blank = true) : ListedAs separator [] blank
  | last {before item after : List Char} (beforeBlank : allBlank before = true)
      (afterBlank : allBlank after = true) :
      ListedAs separator [item] (before ++ (item ++ after))
  | cons {before item after rest : List Char} {items : List (List Char)}
      (beforeBlank : allBlank before = true) (afterBlank : allBlank after = true)
      (listed : ListedAs separator items rest) :
      ListedAs separator (item :: items) (before ++ (item ++ after) ++ separator :: rest)

theorem ListedAs.one (separator : Char) (text : List Char) : ListedAs separator [text] text := by
  have listed : ListedAs separator [text] ([] ++ (text ++ [])) :=
    .last (show allBlank [] = true from rfl) (show allBlank [] = true from rfl)
  rwa [List.append_nil, List.nil_append] at listed

theorem ListedAs.two {before after : List Char} (beforeBlank : allBlank before = true)
    (afterBlank : allBlank after = true) (separator : Char) (first second : List Char) :
    ListedAs separator [first, second] (first ++ before ++ separator :: (after ++ second)) := by
  have last : ListedAs separator [second] (after ++ (second ++ [])) :=
    .last afterBlank (show allBlank [] = true from rfl)
  rw [List.append_nil] at last
  exact .cons (show allBlank [] = true from rfl) beforeBlank last

theorem ListedAs.closed {items : List (List Char)} (listed : ListedAs separator items text)
    (ordinary : isOrdinary separator = true) (solid : isBlank separator = false)
    (closed : ∀ item ∈ items, Closed (fun _ => true) item) : Closed (fun _ => true) text := by
  induction listed with
  | nil isBlank => exact (Closed.of_allBlank solid isBlank).all
  | last beforeBlank afterBlank =>
    have first := closed _ (List.mem_singleton_self _)
    exact (Closed.of_allBlank solid beforeBlank).all.append
      (first.append (Closed.of_allBlank solid afterBlank).all)
  | cons beforeBlank afterBlank _ inductionHypothesis =>
    rw [List.forall_mem_cons] at closed
    have first := (Closed.of_allBlank solid beforeBlank).all.append
      (closed.1.append (Closed.of_allBlank solid afterBlank).all)
    exact first.append (.ordinary ordinary rfl (inductionHypothesis closed.2))

/-- What is neither white space nor a separator is in one of the items. -/
theorem ListedAs.mem_iff {items : List (List Char)} (listed : ListedAs separator items text)
    (notSeparator : char ≠ separator) (solid : isBlank char = false) :
    char ∈ text ↔ ∃ item ∈ items, char ∈ item := by
  have apart {blank : List Char} (isBlank : allBlank blank = true) : char ∉ blank :=
    not_mem_of_allBlank solid isBlank
  induction listed with
  | nil isBlank => simpa using apart isBlank
  | last beforeBlank afterBlank => simp [apart beforeBlank, apart afterBlank]
  | cons beforeBlank afterBlank _ inductionHypothesis =>
    simp [apart beforeBlank, apart afterBlank, notSeparator, inductionHypothesis]

/-- Whether a text can be an item of a list. -/
structure IsItem (separator : Char) (text : List Char) : Prop where
  keeps : KeepsCount separator text
  nonempty : text ≠ []
  tight : IsTight text

instance (separator : Char) (text : List Char) : Decidable (IsItem separator text) :=
  decidable_of_iff (KeepsCount separator text ∧ text ≠ [] ∧ IsTight text)
    ⟨fun item => ⟨item.1, item.2.1, item.2.2⟩, fun item => ⟨item.keeps, item.nonempty, item.tight⟩⟩

theorem IsItem.trim_padded {before after : List Char} (isItem : IsItem separator text)
    (beforeBlank : allBlank before = true) (afterBlank : allBlank after = true) :
    [trim (before ++ (text ++ after))].filter (!·.isEmpty) = [text] := by
  rw [isItem.tight.trims.trim_append_append beforeBlank afterBlank]
  exact List.filter_cons_of_pos (by simpa using isItem.nonempty)

theorem partsFrom_of_listedAs (ordinary : isOrdinary separator = true)
    (solid : isBlank separator = false) {items : List (List Char)}
    (listed : ListedAs separator items text) (areItems : ∀ item ∈ items, IsItem separator item)
    (fresh : state.IsFresh) : partsFrom separator state text = items := by
  induction listed generalizing state with
  | nil isBlank =>
    have nothing := isTight_nil.trim_append_blank isBlank
    rw [List.nil_append] at nothing
    rw [partsFrom_of_settles (settles_of_allBlank fresh.toIsSettled solid isBlank), nothing]
    rfl
  | last beforeBlank afterBlank =>
    have isItem := areItems _ (List.mem_singleton_self _)
    rw [partsFrom_of_settles (isItem.keeps.settles_padded fresh solid beforeBlank afterBlank),
      isItem.trim_padded beforeBlank afterBlank]
  | cons beforeBlank afterBlank listed inductionHypothesis =>
    rw [List.forall_mem_cons] at areItems
    have settles := areItems.1.keeps.settles_padded fresh solid beforeBlank afterBlank
    rw [partsFrom_append settles ordinary, areItems.1.trim_padded beforeBlank afterBlank,
      inductionHypothesis areItems.2 (settles.settled.next ordinary)]
    rfl

/-- A list is split into its items. -/
theorem splitTopLevel_of_listedAs (ordinary : isOrdinary separator = true)
    (solid : isBlank separator = false) {items : List (List Char)}
    (listed : ListedAs separator items text) (areItems : ∀ item ∈ items, IsItem separator item) :
    splitTopLevel separator text = items :=
  partsFrom_of_listedAs ordinary solid listed areItems .empty

theorem IsItem.splitTopLevel_eq (item : IsItem separator text) (ordinary : isOrdinary separator = true)
    (solid : isBlank separator = false) : splitTopLevel separator text = [text] :=
  splitTopLevel_of_listedAs ordinary solid (.one separator text) (List.forall_mem_singleton.mpr item)

end SourceCapture.Text
