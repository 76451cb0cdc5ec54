/-
Texts that can stand between separators. Such a text closes the brackets that it opens, the tips of
its arrows apart, and its quotes, and has the separator in brackets or quotes only. These are just
the texts that are passed over without a cut and leave nothing open. So a list of them is split into
its items. Every text is a list of its pieces, and what it is split into is those of them that are
not empty.
-/

import SourceCapture.Proofs.Text.Lists

namespace SourceCapture.Text

/-! ### The grammar -/

/-- What can stand between two quotes: characters behind a backslash, and others that are neither
quote nor backslash. -/
inductive QuotedBody : List Char → Prop where
  | nil : QuotedBody []
  | plain {char : Char} {rest : List Char} (notQuote : char ≠ '"') (notBackslash : char ≠ '\\')
      (body : QuotedBody rest) : QuotedBody (char :: rest)
  | escaped (char : Char) {rest : List Char} (body : QuotedBody rest) :
      QuotedBody ('\\' :: char :: rest)

/-- Texts that close as many brackets as are open before them, with the separator only where some
are open, or in quotes. An arrow is read as one, so that its tip closes nothing. -/
inductive Balanced (separator : Char) : Int → List Char → Prop where
  | nil : Balanced separator 0 []
  | quoted {depth : Int} {body rest : List Char} (quoted : QuotedBody body)
      (balanced : Balanced separator depth rest) :
      Balanced separator depth ('"' :: (body ++ '"' :: rest))
  | arrow {depth : Int} {rest : List Char} (balanced : Balanced separator depth rest) :
      Balanced separator depth ('-' :: '>' :: rest)
  | opening {depth : Int} {char : Char} {rest : List Char} (opens : Nesting.opens char = true)
      (balanced : Balanced separator (depth + 1) rest) : Balanced separator depth (char :: rest)
  | closing {depth : Int} {char : Char} {rest : List Char} (closes : Nesting.closes char = true)
      (balanced : Balanced separator (depth - 1) rest) : Balanced separator depth (char :: rest)
  | other {depth : Int} {char : Char} {rest : List Char} (noMark : isMark char = false)
      (inside : char = separator → depth ≠ 0) (noArrow : char = '-' → rest.head? ≠ some '>')
      (balanced : Balanced separator depth rest) : Balanced separator depth (char :: rest)

variable {separator char : Char} {state : Nesting} {depth : Int} {previous : Option Char}
  {text rest body : List Char}

/-! ### One step -/

theorem settles_nil_iff : Settles separator state [] ↔ state.IsSettled :=
  ⟨fun settles => settles.settled, fun settled => ⟨.nil separator state, settled⟩⟩

theorem settles_cons_iff : Settles separator state (char :: rest) ↔
    state.separates separator char = false ∧ Settles separator (state.next char) rest := by
  constructor
  · rintro ⟨walks, settled⟩
    obtain ⟨keeps, later⟩ := keeps_of_piecesFrom_cons (piecesFrom_of_walks walks)
    exact ⟨keeps, walks_of_piecesFrom later, settled⟩
  · rintro ⟨keeps, walks, settled⟩
    exact ⟨.cons keeps walks, settled⟩

/-! ### Outside of quotes -/

/-- What is known outside of quotes. -/
def Nesting.atDepth (depth : Int) (previous : Option Char) : Nesting := ⟨depth, false, false, previous⟩

/-- What is known between quotes, where a backslash may stand just before. -/
def Nesting.inQuotes (depth : Int) (escaped : Bool) (previous : Option Char) : Nesting :=
  ⟨depth, true, escaped, previous⟩

open Nesting (atDepth inQuotes)

theorem settles_atDepth_nil_iff : Settles separator (atDepth depth previous) [] ↔ depth = 0 :=
  settles_nil_iff.trans ⟨fun settled => settled.outside, fun none => ⟨none, rfl, rfl⟩⟩

theorem settles_quote_iff : Settles separator (atDepth depth previous) ('"' :: rest) ↔
    Settles separator (inQuotes depth false (some '"')) rest := by
  rw [settles_cons_iff]
  have kept : (atDepth depth previous).separates separator '"' = false := by
    simp [Nesting.separates]
  exact and_iff_right kept

theorem settles_opening_iff (opens : Nesting.opens char = true) :
    Settles separator (atDepth depth previous) (char :: rest) ↔
      Settles separator (atDepth (depth + 1) (some char)) rest := by
  have next : (atDepth depth previous).next char = atDepth (depth + 1) (some char) :=
    Nesting.next_eq_of_opens rfl opens
  rw [settles_cons_iff, next]
  exact and_iff_right (Nesting.separates_of_bracket _ separator (.inl opens))

theorem settles_closing_iff (closes : Nesting.closes char = true)
    (noTip : previous = some '-' → char ≠ '>') :
    Settles separator (atDepth depth previous) (char :: rest) ↔
      Settles separator (atDepth (depth - 1) (some char)) rest := by
  have next : (atDepth depth previous).next char = atDepth (depth - 1) (some char) :=
    Nesting.next_eq_of_closes rfl closes noTip
  rw [settles_cons_iff, next]
  exact and_iff_right (Nesting.separates_of_bracket _ separator (.inr closes))

theorem settles_arrow_iff (ordinary : isOrdinary separator = true) :
    Settles separator (atDepth depth previous) ('-' :: '>' :: rest) ↔
      Settles separator (atDepth depth (some '>')) rest := by
  have other : separator ≠ '-' := ne_of_isOrdinary ordinary rfl
  have kept : (atDepth depth previous).separates separator '-' = false := by
    simp [Nesting.separates, other.symm]
  have next : ((atDepth depth previous).next '-').next '>' = atDepth depth (some '>') :=
    Nesting.next_eq_of_arrow rfl
  rw [settles_cons_iff, settles_cons_iff, next, and_iff_right kept]
  exact and_iff_right (Nesting.separates_of_bracket _ separator (.inr rfl))

theorem settles_other_iff (noMark : isMark char = false) :
    Settles separator (atDepth depth previous) (char :: rest) ↔
      (char = separator → depth ≠ 0) ∧ Settles separator (atDepth depth (some char)) rest := by
  have next : (atDepth depth previous).next char = atDepth depth (some char) :=
    Nesting.next_eq_of_noMark rfl noMark
  have kept : (atDepth depth previous).separates separator char = false ↔
      (char = separator → depth ≠ 0) := by
    rw [Nesting.separates, ← isMark, noMark, atDepth]
    simp
  rw [settles_cons_iff, next, kept]

/-! ### Quoted texts -/

theorem settles_inQuotes_cons_iff {escaped : Bool} :
    Settles separator (inQuotes depth escaped previous) (char :: rest) ↔
      Settles separator ((inQuotes depth escaped previous).next char) rest :=
  settles_cons_iff.trans (and_iff_right (by simp [Nesting.separates, inQuotes]))

theorem next_inQuotes (notQuote : char ≠ '"') (notBackslash : char ≠ '\\') :
    (inQuotes depth false previous).next char = inQuotes depth false (some char) := by
  simp [Nesting.next, inQuotes, notQuote, notBackslash]

/-- What is open between quotes is closed by the first quote that is not behind a backslash. -/
theorem settles_of_quotedBody (quoted : QuotedBody body) (previous : Option Char) :
    Settles separator (atDepth depth (some '"')) rest →
      Settles separator (inQuotes depth false previous) (body ++ '"' :: rest) := by
  intro later
  induction quoted generalizing previous with
  | nil => exact settles_inQuotes_cons_iff.mpr later
  | @plain char _ notQuote notBackslash _ inductionHypothesis =>
    rw [List.cons_append, settles_inQuotes_cons_iff, next_inQuotes notQuote notBackslash]
    exact inductionHypothesis (some char)
  | escaped char _ inductionHypothesis =>
    have next : (inQuotes depth false previous).next '\\' = inQuotes depth true (some '\\') := rfl
    rw [List.cons_append, List.cons_append, settles_inQuotes_cons_iff, next,
      settles_inQuotes_cons_iff]
    exact inductionHypothesis (some char)

theorem exists_quotedBody {escaped : Bool}
    (settles : Settles separator (inQuotes depth escaped previous) text) :
    ∃ body rest, text = body ++ '"' :: rest ∧
      QuotedBody (if escaped then '\\' :: body else body) ∧
        Settles separator (atDepth depth (some '"')) rest := by
  induction text generalizing escaped previous with
  | nil => cases (settles_nil_iff.mp settles).unquoted
  | cons char text inductionHypothesis =>
    rw [settles_inQuotes_cons_iff] at settles
    cases escaped with
    | true =>
      obtain ⟨body, rest, rfl, quoted, later⟩ := inductionHypothesis settles
      exact ⟨char :: body, rest, rfl, .escaped char quoted, later⟩
    | false =>
      by_cases backslash : char = '\\'
      · subst backslash
        obtain ⟨body, rest, rfl, quoted, later⟩ := inductionHypothesis settles
        exact ⟨'\\' :: body, rest, rfl, quoted, later⟩
      by_cases quote : char = '"'
      · subst quote
        exact ⟨[], text, rfl, .nil, settles⟩
      rw [next_inQuotes quote backslash] at settles
      obtain ⟨body, rest, rfl, quoted, later⟩ := inductionHypothesis settles
      exact ⟨char :: body, rest, rfl, .plain quote backslash quoted, later⟩

/-! ### The texts of the grammar are those that are passed over -/

theorem Balanced.settles (ordinary : isOrdinary separator = true)
    (balanced : Balanced separator depth text) (previous : Option Char)
    (noTip : previous = some '-' → text.head? ≠ some '>') :
    Settles separator (atDepth depth previous) text := by
  induction balanced generalizing previous with
  | nil => exact settles_atDepth_nil_iff.mpr rfl
  | quoted quoted _ inductionHypothesis =>
    exact settles_quote_iff.mpr (settles_of_quotedBody quoted _ (inductionHypothesis _ nofun))
  | arrow _ inductionHypothesis =>
    exact (settles_arrow_iff ordinary).mpr (inductionHypothesis _ nofun)
  | @opening _ char _ opens _ inductionHypothesis =>
    refine (settles_opening_iff opens).mpr (inductionHypothesis _ fun dash => ?_)
    exact absurd dash (Nesting.some_ne_dash (.inl opens))
  | @closing _ char _ closes _ inductionHypothesis =>
    have notTip : previous = some '-' → char ≠ '>' := fun dash same => noTip dash (by rw [same]; rfl)
    refine (settles_closing_iff closes notTip).mpr (inductionHypothesis _ fun dash => ?_)
    exact absurd dash (Nesting.some_ne_dash (.inr closes))
  | other noMark inside noArrow _ inductionHypothesis =>
    refine (settles_other_iff noMark).mpr ⟨inside, inductionHypothesis _ fun dash => ?_⟩
    exact noArrow (Option.some.inj dash)

theorem Settles.balanced (ordinary : isOrdinary separator = true)
    (settles : Settles separator (atDepth depth previous) text)
    (noTip : previous = some '-' → text.head? ≠ some '>') : Balanced separator depth text := by
  -- A quoted text is taken off as a whole, so the induction is on the length.
  induction length : text.length using Nat.strong_induction_on generalizing text depth previous with
  | _ size inductionHypothesis =>
  subst length
  cases text with
  | nil =>
    obtain rfl := settles_atDepth_nil_iff.mp settles
    exact .nil
  | cons char rest =>
    by_cases quote : char = '"'
    · subst quote
      obtain ⟨body, later, rfl, quoted, ended⟩ := exists_quotedBody (settles_quote_iff.mp settles)
      refine .quoted quoted (inductionHypothesis _ ?_ ended nofun rfl)
      simp only [List.length_cons, List.length_append]
      omega
    by_cases opens : Nesting.opens char = true
    · refine .opening opens (inductionHypothesis _ (Nat.lt_succ_self _)
        ((settles_opening_iff opens).mp settles) (fun dash => ?_) rfl)
      exact absurd dash (Nesting.some_ne_dash (.inl opens))
    by_cases closes : Nesting.closes char = true
    · have notTip : previous = some '-' → char ≠ '>' :=
        fun dash same => noTip dash (by rw [same]; rfl)
      refine .closing closes (inductionHypothesis _ (Nat.lt_succ_self _)
        ((settles_closing_iff closes notTip).mp settles) (fun dash => ?_) rfl)
      exact absurd dash (Nesting.some_ne_dash (.inr closes))
    by_cases arrow : char = '-' ∧ rest.head? = some '>'
    · obtain ⟨rfl, tip⟩ := arrow
      obtain ⟨later, rfl⟩ := List.head?_eq_some_iff.mp tip
      refine .arrow (inductionHypothesis _ ?_ ((settles_arrow_iff ordinary).mp settles) nofun rfl)
      simp only [List.length_cons]
      omega
    have noMark : isMark char = false := by simp [isMark, quote, opens, closes]
    have noArrow : char = '-' → rest.head? ≠ some '>' := fun dash tip => arrow ⟨dash, tip⟩
    obtain ⟨inside, later⟩ := (settles_other_iff noMark).mp settles
    refine .other noMark inside noArrow (inductionHypothesis _ (Nat.lt_succ_self _) later ?_ rfl)
    exact fun dash => noArrow (Option.some.inj dash)

/-- A text stands between separators as a whole if and only if its brackets and quotes are closed
and it has the separator inside of them only. -/
theorem balanced_iff_keepsCount (ordinary : isOrdinary separator = true) :
    Balanced separator 0 text ↔ KeepsCount separator text :=
  ⟨fun balanced => (balanced.settles ordinary none nofun).keepsCount,
    fun keeps => (keeps.settles .empty).balanced ordinary nofun⟩

theorem isItem_iff_balanced (ordinary : isOrdinary separator = true) :
    IsItem separator text ↔ text ≠ [] ∧ IsTight text ∧ Balanced separator 0 text := by
  rw [balanced_iff_keepsCount ordinary]
  exact ⟨fun item => ⟨item.nonempty, item.tight, item.keeps⟩,
    fun ⟨nonempty, tight, keeps⟩ => ⟨keeps, nonempty, tight⟩⟩

/-! ### What a text is split into -/

/-- Texts that stand in a text one behind the other, with anything between them. -/
inductive StandIn : List (List Char) → List Char → Prop where
  | nil (text : List Char) : StandIn [] text
  | cons (before part : List Char) {parts : List (List Char)} {rest : List Char}
      (later : StandIn parts rest) : StandIn (part :: parts) (before ++ (part ++ rest))

variable {parts items pieces : List (List Char)}

theorem StandIn.append_left (stand : StandIn parts text) (front : List Char) :
    StandIn parts (front ++ text) := by
  cases stand with
  | nil => exact .nil _
  | cons before part later =>
    rw [← List.append_assoc]
    exact .cons (front ++ before) part later

theorem StandIn.filter (stand : StandIn parts text) (keep : List Char → Bool) :
    StandIn (parts.filter keep) text := by
  induction stand with
  | nil => exact .nil _
  | cons before part _ inductionHypothesis =>
    rw [List.filter_cons]
    split
    · exact .cons before part inductionHypothesis
    · exact (inductionHypothesis.append_left part).append_left before

theorem ListedAs.standIn (listed : ListedAs separator items text) : StandIn items text := by
  induction listed with
  | nil => exact .nil _
  | @last before item after => exact .cons before item (.nil after)
  | @cons before item after rest _ _ _ _ inductionHypothesis =>
    rw [List.append_assoc, List.append_assoc]
    exact .cons before item ((inductionHypothesis.append_left [separator]).append_left after)

theorem isTight_trim (text : List Char) : IsTight (trim text) := by
  obtain ⟨head, core, tail, trims⟩ := exists_trims text
  rw [trims.trim_eq]
  exact trims.tight

theorem listedAs_map_trim (some : pieces ≠ []) :
    ListedAs separator (pieces.map trim) ([separator].intercalate pieces) := by
  induction pieces with
  | nil => exact absurd rfl some
  | cons piece others inductionHypothesis =>
    obtain ⟨head, core, tail, trims⟩ := exists_trims piece
    rw [List.map_cons, trims.trim_eq]
    by_cases last : others = []
    · rw [last, List.intercalate_singleton, trims.split]
      exact .last trims.headBlank trims.tailBlank
    · rw [List.intercalate_cons_of_ne_nil last, List.append_assoc, trims.split]
      exact .cons trims.headBlank trims.tailBlank (inductionHypothesis last)

/-- Every text is a list, and what it is split into is the items that are not empty. -/
theorem exists_listedAs (separator : Char) (text : List Char) :
    ∃ items, ListedAs separator items text ∧
      splitTopLevel separator text = items.filter (!·.isEmpty) := by
  have listed : ListedAs separator ((piecesFrom separator {} text).map trim)
      ([separator].intercalate (piecesFrom separator {} text)) :=
    listedAs_map_trim (piecesFrom_ne_nil separator {} text)
  rw [intercalate_piecesFrom] at listed
  exact ⟨_, listed, rfl⟩

theorem nonempty_and_isTight_of_mem_splitTopLevel {part : List Char}
    (member : part ∈ splitTopLevel separator text) : part ≠ [] ∧ IsTight part := by
  rw [splitTopLevel, List.mem_filter, List.mem_map] at member
  obtain ⟨⟨piece, -, rfl⟩, some⟩ := member
  exact ⟨by simpa using some, isTight_trim piece⟩

/-- The characters that lists are split at. -/
def listSeparators : List Char := [',', ':', '=']

theorem isOrdinary_and_solid_of_mem_listSeparators (known : separator ∈ listSeparators) :
    isOrdinary separator = true ∧ isBlank separator = false := by
  have all : listSeparators.all (fun char => isOrdinary char && !isBlank char) = true := by decide
  have both := List.all_eq_true.mp all separator known
  rwa [Bool.and_eq_true, Bool.not_eq_true'] at both

/-- A list is split into its items if these are balanced. Whatever text is split, the parts stand in
it one behind the other. -/
theorem splitTopLevel_lists (known : separator ∈ listSeparators) :
    (∀ items text, ListedAs separator items text →
      (∀ item ∈ items, item ≠ [] ∧ IsTight item ∧ Balanced separator 0 item) →
        splitTopLevel separator text = items) ∧
    ∀ text, StandIn (splitTopLevel separator text) text ∧
      ∀ part ∈ splitTopLevel separator text, part ≠ [] ∧ IsTight part := by
  obtain ⟨ordinary, solid⟩ := isOrdinary_and_solid_of_mem_listSeparators known
  constructor
  · intro items text listed fine
    exact splitTopLevel_of_listedAs ordinary solid listed fun item member =>
      (isItem_iff_balanced ordinary).mpr (fine item member)
  · intro text
    obtain ⟨items, listed, split⟩ := exists_listedAs separator text
    refine ⟨?_, fun part => nonempty_and_isTight_of_mem_splitTopLevel⟩
    rw [split]
    exact listed.standIn.filter _

/-- A parameter whose type has brackets in brackets, and an arrow. -/
def mapParameter : List Char := "f: Map<A, (B) -> C>".toList

/-- A parameter with a separator, a quote and a bracket in quotes. -/
def quotedParameter : List Char := "x = \"a,\\\")\"".toList

theorem splitTopLevel_lists_parameters : ',' ∈ listSeparators ∧
    splitTopLevel ',' (" f: Map<A, (B) -> C> ,x = \"a,\\\")\" ,".toList) =
      [mapParameter, quotedParameter] := by
  have known : ',' ∈ listSeparators := by decide
  refine ⟨known, (splitTopLevel_lists known).1 _ _ ?_ ?_⟩
  · have last : ListedAs ',' [quotedParameter] ([] ++ (quotedParameter ++ [' ']) ++ ',' :: []) :=
      .cons rfl rfl (.nil rfl)
    have first : ListedAs ',' [mapParameter, quotedParameter]
        ([' '] ++ (mapParameter ++ [' ']) ++ ',' :: ([] ++ (quotedParameter ++ [' ']) ++ ',' :: [])) :=
      .cons rfl rfl last
    exact first
  · have first : IsItem ',' mapParameter := by decide
    have second : IsItem ',' quotedParameter := by decide
    rw [List.forall_mem_cons, List.forall_mem_singleton]
    exact ⟨(isItem_iff_balanced rfl).mp first, (isItem_iff_balanced rfl).mp second⟩

end SourceCapture.Text
