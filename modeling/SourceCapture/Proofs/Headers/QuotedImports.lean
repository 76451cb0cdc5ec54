/-
Import lines with quotes around some of the names in them. Quotes and white space are taken out of
the path, so a line imports what its path says unless a name of the path has white space of its own,
or is a star in quotes. But the quotes stay around the name that an import is given, so what is
imported under a quoted name is not found under the name.
-/

import SourceCapture.ImportLine
import SourceCapture.Proofs.Constants.Expressions
import SourceCapture.Proofs.Text.Tokens

namespace SourceCapture

open Text (allBlank isBlank isIdentifierChar isInWord dropEndWhile)

/-! ### Lines as they are written -/

/-- What stands behind the path of an import line. -/
inductive ImportEnding where
  | plain
  | star
  | given (name : SourceName)

/-- An import line. -/
structure SourceImport where
  path : List SourceName
  ending : ImportEnding
  /-- The white space in front of the path. -/
  gap : List Char
  /-- The white space at the end. -/
  behind : List Char
  /-- Whether there is a semicolon at the end. -/
  isClosed : Bool

/-- Whether a name is an identifier. In quotes it can have other characters, but no dots. -/
def SourceName.IsIdentifier : SourceName → Prop
  | plain word => word ≠ [] ∧ (∀ char ∈ word, isIdentifierChar char = true) ∧ word ≠ "as".toList
  | quoted inside => inside ≠ [] ∧ Name.quote ∉ inside ∧ '.' ∉ inside

instance : (name : SourceName) → Decidable name.IsIdentifier
  | .plain word =>
    decidable_of_iff (word ≠ [] ∧ word.all isIdentifierChar = true ∧ word ≠ "as".toList)
      (by rw [List.all_eq_true]; exact Iff.rfl)
  | .quoted inside => inferInstanceAs (Decidable (inside ≠ [] ∧ Name.quote ∉ inside ∧ '.' ∉ inside))

namespace SourceImport

/-- The path as it is written. -/
def pathText (path : List SourceName) : List Char :=
  ['.'].intercalate (path.map SourceName.text)

/-- What is written behind the path. -/
def endingText : ImportEnding → List Char
  | .plain => []
  | .star => ['.', '*']
  | .given name => " as ".toList ++ name.text

/-- The line as it is written. -/
def text (line : SourceImport) : List Char :=
  "import".toList ++ (line.gap ++ (pathText line.path ++ (endingText line.ending ++
    (line.behind ++ if line.isClosed then [';'] else []))))

structure IsValid (line : SourceImport) : Prop where
  nonempty : line.path ≠ []
  names : ∀ name ∈ line.path, name.IsIdentifier
  given : ∀ name, line.ending = .given name → name.IsIdentifier
  gapNonempty : line.gap ≠ []
  gapBlank : allBlank line.gap = true
  behindBlank : allBlank line.behind = true

/-- The full name that is written. -/
def fqn (line : SourceImport) : String := String.ofList (SourceName.dotted line.path)

/-- The last name of the path. -/
def lastName (line : SourceImport) : String :=
  ((line.path.getLast?).map SourceName.bare).getD ""

/-- What the line is to import. -/
def binding (line : SourceImport) : ImportLine :=
  match line.ending with
  | .plain => .named line.lastName line.fqn
  | .star => .star line.fqn
  | .given name => .named name.bare line.fqn

/-- Whether a path ends with a star behind a dot. -/
def EndsInStar (path : List SourceName) : Prop := ∃ front last,
  front ≠ [] ∧ path = front ++ [last] ∧ last.bareText = ['*']

/-- Whether the quotes in a line do not matter: what is imported is given no name in quotes, no name
of the path has white space, and the last one is no star behind a dot. -/
structure KeepsQuotes (line : SourceImport) : Prop where
  given : ∀ name, line.ending = .given name → ∃ word, name = .plain word
  solid : ∀ name ∈ line.path, ∀ char ∈ name.bareText, isBlank char = false
  unstarred : line.ending ≠ .star → ¬EndsInStar line.path

end SourceImport

/-! ### Names -/

namespace SourceName

variable {name : SourceName} {names : List SourceName}

theorem IsIdentifier.isValid (identifier : name.IsIdentifier) : name.IsValid := by
  cases name with
  | plain word =>
    refine ⟨identifier.1, fun char member => Text.isWordChar_iff.mpr ?_⟩
    have inWord := Text.isInWord_of_isIdentifierChar (identifier.2.1 char member)
    exact ⟨Text.isOrdinary_of_isInWord inWord, Text.isBlank_of_isInWord inWord,
      Text.ne_of_isInWord inWord (by decide), Text.ne_of_isInWord inWord (by decide),
      Text.ne_of_isInWord inWord (by decide), Text.ne_of_isInWord inWord (by decide),
      Text.ne_quote_of_isIdentifierChar (identifier.2.1 char member)⟩
  | quoted inside => exact ⟨identifier.1, identifier.2.1⟩

theorem IsIdentifier.undotted (identifier : name.IsIdentifier) : '.' ∉ name.bareText := by
  cases name with
  | plain word => exact fun member => absurd (identifier.2.1 '.' member) (by decide)
  | quoted inside => exact identifier.2.2

/-- A name ends with a character of an identifier or a quote. -/
theorem IsIdentifier.exists_concat (identifier : name.IsIdentifier) :
    ∃ front last, name.text = front ++ [last] ∧ isInWord last = true := by
  cases name with
  | plain word =>
    obtain ⟨front, last, same⟩ := (List.eq_nil_or_concat' word).resolve_left identifier.1
    exact ⟨front, last, same, Text.isInWord_of_isIdentifierChar
      (identifier.2.1 last (same ▸ List.mem_concat_self))⟩
  | quoted inside => exact ⟨Name.quote :: inside, Name.quote, rfl, Text.isInWord_quote⟩

theorem dotted_singleton (name : SourceName) : dotted [name] = name.bareText := by
  rw [dotted, List.map_singleton, List.intercalate_singleton]

/-- A path has no white space if its names have none. -/
theorem solid_dotted_iff : (∀ char ∈ dotted names, isBlank char = false) ↔
    ∀ name ∈ names, ∀ char ∈ name.bareText, isBlank char = false := by
  induction names with
  | nil => simp [dotted]
  | cons first rest inductionHypothesis =>
    rw [List.forall_mem_cons, ← inductionHypothesis]
    by_cases several : rest = []
    · subst several
      rw [dotted_singleton]
      simp [dotted]
    · have dot : isBlank '.' = false := by decide
      rw [ConstantExpr.dotted_cons several, List.forall_mem_append, List.forall_mem_cons]
      simp only [dot, true_and]

theorem dotted_concat (several : names ≠ []) (last : SourceName) :
    dotted (names ++ [last]) = dotted names ++ '.' :: last.bareText := by
  induction names with
  | nil => exact absurd rfl several
  | cons first rest inductionHypothesis =>
    cases rest with
    | nil =>
      rw [List.singleton_append, ConstantExpr.dotted_cons (List.cons_ne_nil _ _), dotted_singleton,
        dotted_singleton]
    | cons next rest =>
      rw [List.cons_append, ConstantExpr.dotted_cons (by simp),
        inductionHypothesis (List.cons_ne_nil _ _), ConstantExpr.dotted_cons (List.cons_ne_nil _ _),
        List.append_assoc]
      rfl

end SourceName

theorem Name.lastSegment_undotted {text : List Char} (undotted : '.' ∉ text) :
    lastSegment (String.ofList text) = String.ofList text := by
  have uncut : Text.splitLast? '.' text = none := by
    rw [Text.splitLast?, ← List.append_nil text.reverse,
      Token.splitOnce?_append (by rwa [List.mem_reverse])]
    rfl
  rw [lastSegment, splitLast?, String.toList_ofList, uncut]
  rfl

theorem Name.lastSegment_append {text : List Char} (undotted : '.' ∉ text) (front : List Char) :
    lastSegment (String.ofList (front ++ '.' :: text)) = String.ofList text := by
  have cut : Text.splitLast? '.' (front ++ '.' :: text) = some (front, text) := by
    rw [Text.splitLast?, List.reverse_append, List.reverse_cons, List.append_assoc,
      Token.splitOnce?_append (by rwa [List.mem_reverse])]
    show some (front.reverse.reverse, (text.reverse ++ []).reverse) = some (front, text)
    rw [List.reverse_reverse, List.append_nil, List.reverse_reverse]
  rw [lastSegment, splitLast?, String.toList_ofList, cut]
  rfl

/-- The path or the package that is imported. -/
def ImportLine.target : ImportLine → String
  | .named _ path => path
  | .star package => package

namespace SourceImport

variable {names : List SourceName} {name : SourceName}

theorem stripEnd?_dotted (identifiers : ∀ name ∈ names, name.IsIdentifier)
    (unstarred : ¬EndsInStar names) : Text.stripEnd? ['.', '*'] (SourceName.dotted names) = none := by
  refine Option.eq_none_iff_forall_ne_some.mpr fun package stripped => unstarred ?_
  have split := Text.stripEnd?_eq_some.mp stripped
  rcases List.eq_nil_or_concat' names with rfl | ⟨front, last, rfl⟩
  · exact absurd (congrArg List.length split) (by simp [SourceName.dotted])
  have undotted := (identifiers last List.mem_concat_self).undotted
  by_cases single : front = []
  · rw [single, List.nil_append, SourceName.dotted_singleton] at split
    exact absurd (by simp [split]) undotted
  · rw [SourceName.dotted_concat single] at split
    have same := Name.lastSegment_append undotted (SourceName.dotted front)
    rw [split, Name.lastSegment_append (show '.' ∉ ['*'] by decide), String.ofList_inj] at same
    exact ⟨front, last, single, rfl, same.symm⟩

theorem lastSegment_fqn {line : SourceImport} (valid : line.IsValid) :
    Name.lastSegment line.fqn = line.lastName := by
  obtain ⟨path, ending, gap, behind, isClosed⟩ := line
  obtain ⟨front, last, rfl⟩ := (List.eq_nil_or_concat' path).resolve_left valid.nonempty
  have undotted := (valid.names last List.mem_concat_self).undotted
  rw [fqn, lastName, List.getLast?_concat]
  by_cases single : front = []
  · rw [single, List.nil_append, SourceName.dotted_singleton]
    exact Name.lastSegment_undotted undotted
  · rw [SourceName.dotted_concat single]
    exact Name.lastSegment_append undotted _

/-! ### The text of a line -/

theorem pathText_singleton (name : SourceName) : pathText [name] = name.text := by
  rw [pathText, List.map_singleton, List.intercalate_singleton]

theorem pathText_cons (several : names ≠ []) :
    pathText (name :: names) = name.text ++ '.' :: pathText names :=
  ConstantExpr.intercalate_map_cons several SourceName.text

theorem writesPath_pathText (nonempty : names ≠ []) :
    SourceName.WritesPath names (pathText names) := by
  induction names with
  | nil => exact absurd rfl nonempty
  | cons name rest inductionHypothesis =>
    by_cases several : rest = []
    · subst several
      rw [pathText_singleton]
      exact .one name
    · have nothing : allBlank [] = true := rfl
      rw [pathText_cons several]
      exact .dot nothing nothing (inductionHypothesis several)

theorem forall_mem_pathText {holds : Char → Prop} (quote : holds Name.quote) (dot : holds '.')
    (bare : ∀ name ∈ names, ∀ char ∈ name.bareText, holds char) :
    ∀ char ∈ pathText names, holds char := by
  have text {name : SourceName} (bare : ∀ char ∈ name.bareText, holds char) :
      ∀ char ∈ name.text, holds char := by
    cases name with
    | plain word => exact bare
    | quoted inside =>
      rw [SourceName.text, List.forall_mem_cons, List.forall_mem_append, List.forall_mem_singleton]
      exact ⟨quote, bare, quote⟩
  induction names with
  | nil => exact List.forall_mem_nil _
  | cons name rest inductionHypothesis =>
    rw [List.forall_mem_cons] at bare
    by_cases several : rest = []
    · subst several
      rw [pathText_singleton]
      exact text bare.1
    · rw [pathText_cons several, List.forall_mem_append, List.forall_mem_cons]
      exact ⟨text bare.1, dot, inductionHypothesis bare.2⟩

/-- A path is no word that stands in front of a given name. -/
theorem pathText_ne_as (identifiers : ∀ name ∈ names, name.IsIdentifier) :
    pathText names ≠ "as".toList := by
  intro same
  cases names with
  | nil => cases same
  | cons name rest =>
    by_cases several : rest = []
    · subst several
      rw [pathText_singleton] at same
      cases name with
      | plain word => exact (identifiers _ List.mem_cons_self).2.2 same
      | quoted inside => cases same
    · rw [pathText_cons several] at same
      have dot : '.' ∈ "as".toList := by simp [← same]
      revert dot
      decide

theorem exists_pathText_concat (identifiers : ∀ name ∈ names, name.IsIdentifier)
    (nonempty : names ≠ []) : ∃ front last, pathText names = front ++ [last] ∧
      isInWord last = true := by
  induction names with
  | nil => exact absurd rfl nonempty
  | cons name rest inductionHypothesis =>
    rw [List.forall_mem_cons] at identifiers
    by_cases several : rest = []
    · subst several
      rw [pathText_singleton]
      exact identifiers.1.exists_concat
    · obtain ⟨front, last, same, inside⟩ := inductionHypothesis identifiers.2 several
      refine ⟨name.text ++ '.' :: front, last, ?_, inside⟩
      rw [pathText_cons several, same, List.append_assoc]
      rfl

/-- The last character of a line is neither white space nor a semicolon. -/
theorem exists_concat {line : SourceImport} (valid : line.IsValid) :
    ∃ front last, pathText line.path ++ endingText line.ending = front ++ [last] ∧
      isBlank last = false ∧ last ≠ ';' := by
  have ends {last : Char} (inside : isInWord last = true) : isBlank last = false ∧ last ≠ ';' :=
    ⟨Text.isBlank_of_isInWord inside, Text.ne_of_isInWord inside (by decide)⟩
  have ended := exists_pathText_concat valid.names valid.nonempty
  have given := valid.given
  generalize pathText line.path = path at ended
  generalize line.ending = ending at given
  cases ending with
  | plain =>
    obtain ⟨front, last, rfl, inside⟩ := ended
    exact ⟨front, last, List.append_nil _, ends inside⟩
  | star => exact ⟨path ++ ['.'], '*', by rw [List.append_assoc]; rfl, by decide⟩
  | given name =>
    obtain ⟨front, last, same, inside⟩ := (given name rfl).exists_concat
    refine ⟨path ++ (" as ".toList ++ front), last, ?_, ends inside⟩
    rw [endingText, same, List.append_assoc, List.append_assoc]

/-! ### Reading a line -/

/-- What is read of a line: everything but the semicolon at the end. -/
theorem exists_body {last : Char} {behind : List Char} (solid : isBlank last = false)
    (other : last ≠ ';') (blank : allBlank behind = true) (front : List Char) (isClosed : Bool) :
    ∃ tail, allBlank tail = true ∧
      dropEndWhile (· = ';') (Text.trim ("import".toList ++ (front ++ [last]) ++
        (behind ++ if isClosed then [';'] else []))) =
          "import".toList ++ (front ++ last :: tail) := by
  have read (closing : List Char) : dropEndWhile (· = ';') (Text.trim ("import".toList ++
      (front ++ [last]) ++ closing)) = "import".toList ++
        (front ++ last :: dropEndWhile (· = ';') (Text.trimEnd closing)) := by
    have started : Text.trimStart ("import".toList ++ front) = "import".toList ++ front :=
      List.dropWhile_cons_of_neg (by decide)
    rw [← List.append_assoc, List.append_assoc, List.singleton_append, Text.trim_append_cons solid,
      started, Text.dropEndWhile_append_cons (decide_eq_false other), List.append_assoc]
  refine ⟨_, ?_, read _⟩
  cases isClosed with
  | false =>
    rw [if_neg Bool.false_ne_true, List.append_nil]
    exact Text.allBlank_of_sublist ((Text.dropEndWhile_sublist _ _).trans
      (Text.dropEndWhile_sublist _ _)) blank
  | true =>
    have closed : Text.trimEnd (behind ++ [';']) = behind ++ [';'] :=
      Text.dropEndWhile_append_cons (by decide) behind []
    have dropped : dropEndWhile (· = ';') (behind ++ [';']) = dropEndWhile (· = ';') behind := by
      rw [dropEndWhile, List.reverse_concat, List.dropWhile_cons_of_pos (by decide)]
      rfl
    rw [if_pos rfl, closed, dropped]
    exact Text.allBlank_of_sublist (Text.dropEndWhile_sublist _ _) blank

/-- The word in front of a given name is not found before the end of a path. -/
theorem splitOnce?_as {gap middle rest : List Char} (gapBlank : allBlank gap = true)
    (solid : ∀ char ∈ middle, isBlank char = false) (other : middle ≠ "as".toList)
    (next : ∀ char ∈ rest.head?, isBlank char = true) :
    Text.splitOnce? " as ".toList (gap ++ (middle ++ rest)) =
      (Text.splitOnce? " as ".toList rest).map fun parts =>
        (gap ++ (middle ++ parts.1), parts.2) := by
  induction gap with
  | nil =>
    refine Token.splitOnce?_append (fun space => ?_) _ rest
    exact absurd (solid ' ' space) (by decide)
  | cons char gap inductionHypothesis =>
    obtain ⟨-, gapBlank⟩ := Text.allBlank_append.mp (show allBlank ([char] ++ gap) = true from gapBlank)
    have word : (gap ++ (middle ++ rest)).takeWhile (!isBlank ·) ≠ "as".toList := by
      cases gap with
      | nil =>
        have stops : rest.takeWhile (!isBlank ·) = [] := by
          cases rest with
          | nil => rfl
          | cons first rest => exact List.takeWhile_cons_of_neg (by simp [next first rfl])
        rw [List.nil_append, List.takeWhile_append_of_pos fun char member => by
          rw [solid char member]; rfl, stops, List.append_nil]
        exact other
      | cons first gap =>
        rw [List.cons_append, List.takeWhile_cons_of_neg
          (by simp [List.all_eq_true.mp gapBlank first List.mem_cons_self])]
        exact nofun
    have uncut : Text.stripStart? " as ".toList (char :: (gap ++ (middle ++ rest))) = none := by
      refine Option.eq_none_iff_forall_ne_some.mpr fun after found => word ?_
      rw [(List.cons.inj (Text.stripStart?_eq_some.mp found)).2]
      rfl
    rw [List.cons_append, Text.splitOnce?, uncut, inductionHypothesis gapBlank]
    dsimp only
    rw [Option.map_map]
    rfl

/-- What is imported has no white space. -/
theorem solid_of_ofText? {written : List Char} {line : ImportLine}
    (read : ImportLine.ofText? written = some line) :
    ∀ char ∈ line.target.toList, isBlank char = false := by
  have joined (given : Option String) (path : List Char) :
      ∀ char ∈ (ImportLine.ofPath (Name.join path) given).target.toList, isBlank char = false := by
    intro char member
    have inside : char ∈ (Name.join path).toList := by
      rw [ImportLine.ofPath] at member
      split at member
      case h_1 package stripped =>
        rw [Text.stripEnd?_eq_some.mp stripped]
        rw [ImportLine.target, String.toList_ofList] at member
        exact List.mem_append_left _ member
      case h_2 => exact member
    rw [Name.join, String.toList_ofList, List.mem_filter, Bool.and_eq_true] at inside
    simpa using inside.2.1
  obtain ⟨body, -, rfl⟩ := Option.map_eq_some_iff.mp read
  split <;> exact joined _ _

theorem filter_pathText (identifiers : ∀ name ∈ names, name.IsIdentifier) (nonempty : names ≠ [])
    (solid : ∀ name ∈ names, ∀ char ∈ name.bareText, isBlank char = false) :
    ((pathText names).filter fun char => !isBlank char && char ≠ Name.quote) =
      SourceName.dotted names := by
  have whole : (SourceName.dotted names).filter (!isBlank ·) = SourceName.dotted names := by
    refine List.filter_eq_self.mpr fun char member => ?_
    rw [SourceName.solid_dotted_iff.mpr solid char member]
    rfl
  rw [ConstantExpr.filter_path (fun name member => (identifiers name member).isValid)
    (writesPath_pathText nonempty), whole]

/-- A path is read without the white space around it and the quotes in it. -/
theorem join_path (identifiers : ∀ name ∈ names, name.IsIdentifier) (nonempty : names ≠ [])
    (solid : ∀ name ∈ names, ∀ char ∈ name.bareText, isBlank char = false) {gap tail : List Char}
    (gapBlank : allBlank gap = true) (tailBlank : allBlank tail = true) {mark : List Char}
    (shown : ∀ char ∈ mark, isBlank char = false ∧ char ≠ Name.quote) :
    Name.join (gap ++ (pathText names ++ (mark ++ tail))) =
      String.ofList (SourceName.dotted names ++ mark) := by
  have blank {gap : List Char} (blank : allBlank gap = true) :
      (gap.filter fun char => !isBlank char && char ≠ Name.quote) = [] := by
    refine List.filter_eq_nil_iff.mpr fun char member => ?_
    rw [List.all_eq_true.mp blank char member]
    exact Bool.false_ne_true
  have kept : (mark.filter fun char => !isBlank char && char ≠ Name.quote) = mark := by
    refine List.filter_eq_self.mpr fun char member => ?_
    rw [(shown char member).1, decide_eq_true (shown char member).2]
    rfl
  rw [Name.join, List.filter_append, List.filter_append, List.filter_append, blank gapBlank,
    blank tailBlank, kept, filter_pathText identifiers nonempty solid, List.append_nil]
  rfl

theorem ofText?_of_uncut {written body : List Char}
    (line : dropEndWhile (· = ';') (Text.trim written) = "import".toList ++ body)
    (uncut : Text.splitOnce? " as ".toList body = none) :
    ImportLine.ofText? written = some (ImportLine.ofPath (Name.join body) none) := by
  rw [ImportLine.ofText?, line, Text.stripStart?_eq_some.mpr rfl, Option.map_some, uncut]

theorem ofText?_of_cut {written body path given : List Char}
    (line : dropEndWhile (· = ';') (Text.trim written) = "import".toList ++ body)
    (cut : Text.splitOnce? " as ".toList body = some (path, given)) :
    ImportLine.ofText? written =
      some (ImportLine.ofPath (Name.join path) (some (String.ofList (Text.trim given)))) := by
  rw [ImportLine.ofText?, line, Text.stripStart?_eq_some.mpr rfl, Option.map_some, cut]

/-- A line is read without its semicolon, which may leave white space behind what it says. -/
theorem exists_read_text {line : SourceImport} (valid : line.IsValid) :
    ∃ tail, allBlank tail = true ∧ dropEndWhile (· = ';') (Text.trim line.text) =
      "import".toList ++
        (line.gap ++ (pathText line.path ++ (endingText line.ending ++ tail))) := by
  obtain ⟨front, last, same, lastSolid, other⟩ := exists_concat valid
  obtain ⟨tail, tailBlank, read⟩ := exists_body lastSolid other valid.behindBlank
    (line.gap ++ front) line.isClosed
  have whole : line.text = "import".toList ++ (line.gap ++ front ++ [last]) ++
      (line.behind ++ if line.isClosed then [';'] else []) := by
    delta text
    generalize "import".toList = word
    rw [List.append_assoc line.gap, ← same]
    simp only [List.append_assoc]
  have inner : line.gap ++ front ++ last :: tail =
      line.gap ++ (pathText line.path ++ (endingText line.ending ++ tail)) := by
    rw [List.append_cons, List.append_assoc line.gap, ← same, List.append_assoc line.gap,
      List.append_assoc (pathText line.path)]
  exact ⟨tail, tailBlank, whole ▸ inner ▸ read⟩

theorem splitOnce?_as_of_allBlank {tail : List Char} (tailBlank : allBlank tail = true) :
    Text.splitOnce? " as ".toList tail = none := by
  refine Option.eq_none_iff_forall_ne_some.mpr fun parts found => ?_
  have split := Text.eq_append_of_splitOnce? found
  have blank := List.all_eq_true.mp tailBlank 'a' (by simp [split])
  revert blank
  decide

section

variable {line : SourceImport} {tail : List Char} (valid : line.IsValid)
  (solid : ∀ name ∈ line.path, ∀ char ∈ name.bareText, isBlank char = false)
  (tailBlank : allBlank tail = true)

include valid solid tailBlank

theorem ofText?_plain (read : dropEndWhile (· = ';') (Text.trim line.text) =
      "import".toList ++ (line.gap ++ (pathText line.path ++ tail))) :
    ImportLine.ofText? line.text = some (ImportLine.ofPath line.fqn none) := by
  have uncut : Text.splitOnce? " as ".toList (line.gap ++ (pathText line.path ++ tail)) = none := by
    rw [splitOnce?_as valid.gapBlank (forall_mem_pathText (by decide) (by decide) solid)
      (pathText_ne_as valid.names) fun char first =>
        List.all_eq_true.mp tailBlank char (List.mem_of_mem_head? first),
      splitOnce?_as_of_allBlank tailBlank]
    rfl
  have path : Name.join (line.gap ++ (pathText line.path ++ ([] ++ tail))) = line.fqn := by
    rw [join_path valid.names valid.nonempty solid valid.gapBlank tailBlank (List.forall_mem_nil _),
      List.append_nil]
    rfl
  rw [ofText?_of_uncut read uncut, ← path]
  rfl

theorem ofText?_star (read : dropEndWhile (· = ';') (Text.trim line.text) =
      "import".toList ++ (line.gap ++ (pathText line.path ++ (['.', '*'] ++ tail)))) :
    ImportLine.ofText? line.text = some (.star line.fqn) := by
  have shown : ∀ char ∈ ['.', '*'], isBlank char = false ∧ char ≠ Name.quote :=
    List.forall_mem_cons.mpr ⟨by decide, List.forall_mem_singleton.mpr (by decide)⟩
  have starSolid : ∀ char ∈ pathText line.path ++ ['.', '*'], isBlank char = false :=
    List.forall_mem_append.mpr ⟨forall_mem_pathText (by decide) (by decide) solid,
      fun char member => (shown char member).1⟩
  have starOther : pathText line.path ++ ['.', '*'] ≠ "as".toList := fun same => by
    have dot : '.' ∈ "as".toList := by simp [← same]
    revert dot
    decide
  have uncut : Text.splitOnce? " as ".toList
      (line.gap ++ (pathText line.path ++ (['.', '*'] ++ tail))) = none := by
    rw [← List.append_assoc (pathText line.path),
      splitOnce?_as valid.gapBlank starSolid starOther fun char first =>
        List.all_eq_true.mp tailBlank char (List.mem_of_mem_head? first),
      splitOnce?_as_of_allBlank tailBlank]
    rfl
  have stripped (path : List Char) : Text.stripEnd? ['.', '*'] (path ++ ['.', '*']) = some path :=
    Text.stripEnd?_eq_some.mpr rfl
  rw [ofText?_of_uncut read uncut,
    join_path valid.names valid.nonempty solid valid.gapBlank tailBlank shown, ImportLine.ofPath,
    String.toList_ofList, stripped]
  rfl

theorem ofText?_given {name : SourceName} (isIdentifier : name.IsIdentifier)
    (read : dropEndWhile (· = ';') (Text.trim line.text) = "import".toList ++
      (line.gap ++ (pathText line.path ++ (" as ".toList ++ name.text ++ tail)))) :
    ImportLine.ofText? line.text =
      some (ImportLine.ofPath line.fqn (some (String.ofList name.text))) := by
  have next : ∀ char ∈ (" as ".toList ++ name.text ++ tail).head?, isBlank char = true := by
    rintro char ⟨⟩
    decide
  have cut : Text.splitOnce? " as ".toList
      (line.gap ++ (pathText line.path ++ (" as ".toList ++ name.text ++ tail))) =
        some (line.gap ++ (pathText line.path ++ []), name.text ++ tail) := by
    rw [splitOnce?_as valid.gapBlank (forall_mem_pathText (by decide) (by decide) solid)
      (pathText_ne_as valid.names) next, List.append_assoc]
    rfl
  have path : Name.join (line.gap ++ (pathText line.path ++ ([] ++ []))) = line.fqn := by
    rw [join_path valid.names valid.nonempty solid valid.gapBlank rfl (List.forall_mem_nil _),
      List.append_nil]
    rfl
  have tight := SourceName.isTight isIdentifier.isValid
  rw [ofText?_of_cut read cut, tight.trim_append_blank tailBlank, ← path]
  rfl

end

/-- What a line imports if there is no white space in the names of its path. -/
theorem ofText?_text {line : SourceImport} (valid : line.IsValid)
    (solid : ∀ name ∈ line.path, ∀ char ∈ name.bareText, isBlank char = false) :
    ImportLine.ofText? line.text = some (match line.ending with
      | .plain => ImportLine.ofPath line.fqn none
      | .star => .star line.fqn
      | .given name => ImportLine.ofPath line.fqn (some (String.ofList name.text))) := by
  obtain ⟨tail, tailBlank, read⟩ := exists_read_text valid
  cases ending : line.ending with
  | plain =>
    rw [ending] at read
    exact ofText?_plain valid solid tailBlank read
  | star =>
    rw [ending] at read
    exact ofText?_star valid solid tailBlank read
  | given name =>
    rw [ending] at read
    exact ofText?_given valid solid tailBlank (valid.given name ending) read

/-! ### Lines that keep their quotes -/

theorem ofPath_fqn {line : SourceImport} (valid : line.IsValid) (unstarred : ¬EndsInStar line.path)
    (given : Option String) :
    ImportLine.ofPath line.fqn given = .named (given.getD line.lastName) line.fqn := by
  have stays : Text.stripEnd? ['.', '*'] line.fqn.toList = none := by
    rw [fqn, String.toList_ofList]
    exact stripEnd?_dotted valid.names unstarred
  rw [ImportLine.ofPath, stays, lastSegment_fqn valid]

theorem ofPath_of_endsInStar {line : SourceImport} (starred : EndsInStar line.path)
    (given : Option String) : ∃ package, ImportLine.ofPath line.fqn given = .star package := by
  obtain ⟨front, last, several, path, star⟩ := starred
  have stripped : Text.stripEnd? ['.', '*'] line.fqn.toList = some (SourceName.dotted front) := by
    rw [Text.stripEnd?_eq_some, fqn, String.toList_ofList, path, SourceName.dotted_concat several, star]
  rw [ImportLine.ofPath, stripped]
  exact ⟨_, rfl⟩

theorem target_binding (line : SourceImport) : line.binding.target = line.fqn := by
  rw [binding]
  split <;> rfl

/-- A name that is given in quotes is registered with them. -/
theorem text_ne_bare {inside : List Char} (valid : (SourceName.quoted inside).IsValid) :
    String.ofList (SourceName.quoted inside).text ≠ (SourceName.quoted inside).bare := by
  intro same
  have quote : Name.quote ∈ (SourceName.quoted inside).bareText := by
    rw [← String.ofList_inj.mp same]
    exact List.mem_cons_self
  exact SourceName.notQuote_of_mem valid quote rfl

/-- A line that imports what it says keeps its quotes: white space would be lost from a name of the
path, a star in quotes would import a package, and quotes would stay around a given name. -/
theorem keepsQuotes_of_ofText? {line : SourceImport} (valid : line.IsValid)
    (read : ImportLine.ofText? line.text = some line.binding) : line.KeepsQuotes := by
  have solid : ∀ name ∈ line.path, ∀ char ∈ name.bareText, isBlank char = false := by
    have joined := solid_of_ofText? read
    rw [target_binding, fqn, String.toList_ofList] at joined
    exact SourceName.solid_dotted_iff.mp joined
  have same := Option.some.inj ((ofText?_text valid solid).symm.trans read)
  rw [binding] at same
  have unstarred : line.ending ≠ .star → ¬EndsInStar line.path := by
    intro other starred
    have star := ofPath_of_endsInStar starred
    cases ending : line.ending with
    | star => exact other ending
    | plain =>
      obtain ⟨package, read⟩ := star none
      rw [ending] at same
      cases read.symm.trans same
    | given name =>
      obtain ⟨package, read⟩ := star (some (String.ofList name.text))
      rw [ending] at same
      cases read.symm.trans same
  refine ⟨fun name given => ?_, solid, unstarred⟩
  cases name with
  | plain word => exact ⟨word, rfl⟩
  | quoted inside =>
    rw [given] at same
    dsimp only at same
    rw [ofPath_fqn valid (unstarred (by simp [given]))] at same
    exact absurd (ImportLine.named.inj same).1 (text_ne_bare (valid.given _ given).isValid)

/-- A line imports what it says exactly if its quotes do not matter. -/
theorem ofText?_eq_binding_iff {line : SourceImport} (valid : line.IsValid) :
    ImportLine.ofText? line.text = some line.binding ↔ line.KeepsQuotes := by
  refine ⟨keepsQuotes_of_ofText? valid, fun keeps => ?_⟩
  rw [ofText?_text valid keeps.solid, binding]
  refine congrArg some ?_
  cases ending : line.ending with
  | star => rfl
  | plain => exact ofPath_fqn valid (keeps.unstarred (by simp [ending])) none
  | given name =>
    obtain ⟨word, rfl⟩ := keeps.given name ending
    exact ofPath_fqn valid (keeps.unstarred (by simp [ending])) _

end SourceImport

end SourceCapture
