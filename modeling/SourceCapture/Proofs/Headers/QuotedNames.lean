/-
Where names are found with quotes around them. The name of an annotation, a call or a declaration is
taken without its quotes, and so is the path of an import. But the quotes stay around the name that
an import is given and around the classes of a type, so neither is found there if it is in quotes.
-/

import SourceCapture.Header
import SourceCapture.Proofs.Headers.QuotedImports
import SourceCapture.Proofs.Types.QuotedTypes

namespace SourceCapture

open Text (isBlank isIdentifierChar)

/-! ### Imports -/

namespace FileScope

theorem addLine_empty_injective :
    Function.Injective fun line : ImportLine => ({} : FileScope).addLine line := by
  intro line other same
  cases line with
  | named name path =>
    cases other with
    | named => exact (by simpa [addLine, Table.insert, Table.empty, Table.put] using same)
    | star => simp [addLine] at same
  | star package =>
    cases other with
    | named => simp [addLine] at same
    | star => simpa [addLine] using same

theorem addLine_empty_ne (line : ImportLine) : ({} : FileScope).addLine line ≠ {} := by
  cases line with
  | named => simp [addLine, Table.insert, Table.empty, Table.put]
  | star => simp [addLine]

/-- A text adds what a line adds, whatever was imported before, just if it is read as this line. -/
theorem addImport_eq_addLine_iff {written : List Char} {line : ImportLine} :
    (∀ scope : FileScope, scope.addImport written = scope.addLine line) ↔
      ImportLine.ofText? written = some line := by
  constructor
  · intro same
    have first := same {}
    rw [addImport] at first
    cases read : ImportLine.ofText? written with
    | none =>
      rw [read] at first
      exact absurd first.symm (addLine_empty_ne line)
    | some other =>
      rw [read] at first
      exact congrArg some (addLine_empty_injective first)
  · intro read scope
    rw [addImport, read]

end FileScope

/-! ### Annotations -/

namespace Annotation

variable {names : List SourceName} {rest : List Char}

theorem isNameChar_of_mem_pathText
    (words : ∀ name ∈ names, ∀ char ∈ name.bareText, isIdentifierChar char = true) :
    ∀ char ∈ SourceImport.pathText names, isNameChar char = true :=
  SourceImport.forall_mem_pathText (by decide) (by decide) fun name member char inside => by
    have identifier := words name member char inside
    rw [isIdentifierChar] at identifier
    rw [isNameChar, identifier, Bool.true_or, Bool.true_or]

/-- A name is not taken for a target, whatever is in the parentheses behind it. -/
theorem fromName_append {path : List Char} (inside : ∀ char ∈ path, isNameChar char = true)
    (next : ∀ char ∈ rest.head?, char = '(') : fromName ('@' :: (path ++ rest)) = path ++ rest := by
  have absent (char : Char) (outside : isNameChar char = false) : char ∉ path := fun member => by
    rw [inside char member] at outside
    cases outside
  have started : ('@' :: (path ++ rest)).dropWhile (· = '@') = path ++ rest := by
    rw [List.dropWhile_cons_of_pos (by decide)]
    have first : ∀ char ∈ (path ++ rest).head?, char ≠ '@' := by
      rw [List.head?_append]
      rintro char member rfl
      rcases Option.or_eq_some_iff.mp member with here | ⟨-, later⟩
      · exact absent '@' (by decide) (List.mem_of_mem_head? here)
      · exact absurd (next '@' later) (by decide)
    generalize path ++ rest = text at first
    cases text with
    | nil => rfl
    | cons char others => exact List.dropWhile_cons_of_neg (by simpa using first char rfl)
  rw [fromName, started]
  split
  case h_2 => rfl
  case h_1 target after cut =>
    refine if_neg fun isTarget => ?_
    cases rest with
    | nil =>
      have split := Text.eq_append_of_splitOnce? cut
      rw [List.append_nil] at split
      exact absent ':' (by decide) (by simp [split])
    | cons char rest =>
      obtain rfl : char = '(' := next char rfl
      have absentBefore : ':' ∉ path ++ ['('] := by
        simpa using absent ':' (by decide)
      rw [List.append_cons, Token.splitOnce?_append absentBefore] at cut
      obtain ⟨parts, -, same⟩ := Option.map_eq_some_iff.mp cut
      obtain ⟨rfl, -⟩ := Prod.mk.inj same
      have bare : ∀ target ∈ targets, '(' ∉ target.toList := by decide
      refine bare _ (List.contains_iff_mem.mp isTarget) ?_
      rw [String.toList_ofList, List.append_assoc, List.singleton_append,
        Text.trim_append_cons (by decide)]
      simp

/-- An annotation is found under its name without the quotes. -/
theorem writtenName_path (identifiers : ∀ name ∈ names, name.IsIdentifier) (nonempty : names ≠ [])
    (words : ∀ name ∈ names, ∀ char ∈ name.bareText, isIdentifierChar char = true)
    (next : ∀ char ∈ rest.head?, char = '(') :
    writtenName ('@' :: (SourceImport.pathText names ++ rest)) =
      String.ofList (SourceName.dotted names) := by
  have inside := isNameChar_of_mem_pathText words
  have solid : ∀ name ∈ names, ∀ char ∈ name.bareText, isBlank char = false :=
    fun name member char bare =>
      Text.isBlank_of_isInWord (Text.isInWord_of_isIdentifierChar (words name member char bare))
  have stops : rest.takeWhile isNameChar = [] := by
    cases rest with
    | nil => rfl
    | cons char rest =>
      obtain rfl : char = '(' := next char rfl
      exact List.takeWhile_cons_of_neg (by decide)
  have bare : (SourceImport.pathText names).filter (· ≠ Name.quote) = SourceName.dotted names := by
    rw [← SourceImport.filter_pathText identifiers nonempty solid]
    refine List.filter_congr fun char member => ?_
    rw [SourceImport.forall_mem_pathText (by decide) (by decide) solid char member]
    rfl
  rw [writtenName, fromName_append inside next, List.takeWhile_append_of_pos inside, stops,
    List.append_nil, bare]

end Annotation

/-! ### Where the quotes stay -/

/-- A name is found however it is quoted if it is that of an annotation, a declaration or a call, or
in the path of an import. It is not found if it is a class in a type, or the name that an import is
given, and in quotes. -/
theorem quoted_found_iff {line : SourceImport} (valid : line.IsValid) {tokens : List Token}
    (quotes : Token.QuotesNames tokens) :
    ((∀ scope : FileScope, scope.addImport line.text = scope.addLine line.binding) ↔
      line.KeepsQuotes) ∧
    (let quoted := WrittenType.parse (Token.textOf true tokens)
      let bare := WrittenType.parse (Token.textOf false tokens)
      bare = quoted.mapNames WrittenType.unquoted ∧
        ((∀ lookUp, quoted.resolve lookUp = bare.resolve lookUp) ↔
          ∀ name ∈ quoted.names, Name.quote ∉ name.toList)) ∧
    (∀ names : List SourceName, (∀ name ∈ names, name.IsIdentifier) → names ≠ [] →
      (∀ name ∈ names, ∀ char ∈ name.bareText, isIdentifierChar char = true) →
      ∀ rest : List Char, (∀ char ∈ rest.head?, char = '(') →
        Annotation.writtenName ('@' :: (SourceImport.pathText names ++ rest)) =
          String.ofList (SourceName.dotted names)) ∧
    ∀ (name : SourceName) (content : List Char) (tree : Tree), name.IsValid →
      tree.text content = name.text → tree.identifierName content = name.bare := by
  refine ⟨?_, ⟨Token.parse_textOf quotes, Token.resolve_textOf_iff quotes⟩, ?_, ?_⟩
  · rw [FileScope.addImport_eq_addLine_iff]
    exact SourceImport.ofText?_eq_binding_iff valid
  · exact fun names identifiers nonempty words rest next =>
      Annotation.writtenName_path identifiers nonempty words next
  · intro name content tree valid written
    rw [Tree.identifierName, written, SourceName.unquote_text valid]

/-- A line with quotes in its path only. -/
def quotedPath : SourceImport :=
  { path := [.plain ['a'], .quoted ['B']], ending := .given (.plain ['C']), gap := [' ']
    behind := [], isClosed := true }

/-- A class in quotes. -/
def quotedClass : List Token :=
  [.word ⟨['A'], List.cons_ne_nil _ _, List.forall_mem_singleton.mpr rfl⟩ true]

theorem isValid_quotedPath : quotedPath.IsValid where
  nonempty := by decide
  names := by decide
  given := by
    rintro name ⟨⟩
    decide
  gapNonempty := by decide
  gapBlank := by decide
  behindBlank := by decide

theorem keepsQuotes_quotedPath : quotedPath.KeepsQuotes where
  given := by
    rintro name ⟨⟩
    exact ⟨_, rfl⟩
  solid := List.forall_mem_cons.mpr ⟨List.forall_mem_singleton.mpr rfl,
    List.forall_mem_singleton.mpr (List.forall_mem_singleton.mpr rfl)⟩
  unstarred := by
    rintro - ⟨front, last, -, path, star⟩
    have same : some (.quoted ['B']) = some last :=
      (congrArg List.getLast? path).trans List.getLast?_concat
    cases same
    exact absurd star (by decide)

theorem quotesNames_quotedClass : Token.QuotesNames quotedClass where
  apart first second pair := absurd pair.length_le (Nat.not_succ_le_self 1)
  keywords identifier member := by
    cases List.mem_singleton.mp member
    decide
  notes mark name _ start := nomatch List.mem_singleton.mp (start.subset List.mem_cons_self)

theorem parse_quotedClass : WrittenType.parse "\x60A\x60".toList = .named "\x60A\x60" [] false := by
  have core : WrittenType.core "\x60A\x60".toList = ("\x60A\x60".toList, false) := by
    have trimmed : Text.trim "\x60A\x60".toList = "\x60A\x60".toList := by decide
    rw [WrittenType.core, trimmed, Text.stripNotes_of_afterNote?_eq_none (by decide)]
    decide
  rw [WrittenType.parse_eq, core]
  rfl

/-- Quotes in the path of an import are taken off, and those around a class are not. -/
theorem quoted_found_quotedPath :
    quotedPath.IsValid ∧ quotedPath.text = "import a.\x60B\x60 as C;".toList ∧
      (∀ scope : FileScope,
        scope.addImport "import a.\x60B\x60 as C;".toList = scope.addLine (.named "C" "a.B")) ∧
      Token.QuotesNames quotedClass ∧
      WrittenType.parse (Token.textOf false quotedClass) = .named "A" [] false ∧
      Annotation.writtenName "@a.\x60B\x60(c)".toList = "a.B" ∧
      Tree.identifierName "\x60A\x60".toList (.leaf "identifier" 0 3) = "A" := by
  have text : quotedPath.text = "import a.\x60B\x60 as C;".toList := by decide
  obtain ⟨imports, types, annotations, identifiers⟩ :=
    quoted_found_iff isValid_quotedPath quotesNames_quotedClass
  have added := imports.mpr keepsQuotes_quotedPath
  rw [text] at added
  have bare := types.1
  have quoted : Token.textOf true quotedClass = "\x60A\x60".toList := rfl
  rw [quoted, parse_quotedClass] at bare
  refine ⟨isValid_quotedPath, text, added, quotesNames_quotedClass, bare, ?_, ?_⟩
  · have words : ∀ name ∈ quotedPath.path, ∀ char ∈ name.bareText, isIdentifierChar char = true :=
      List.forall_mem_cons.mpr ⟨List.forall_mem_singleton.mpr rfl,
        List.forall_mem_singleton.mpr (List.forall_mem_singleton.mpr rfl)⟩
    exact annotations quotedPath.path isValid_quotedPath.names isValid_quotedPath.nonempty words
      "(c)".toList (by rintro _ ⟨⟩; rfl)
  · exact identifiers (.quoted ['A']) _ _ (by decide) (by decide)

/-- A line that gives an import a name in quotes. -/
def quotedGiven : SourceImport :=
  { path := [.plain ['a'], .plain ['B']], ending := .given (.quoted ['C']), gap := [' ']
    behind := [], isClosed := false }

/-- What is imported under a name in quotes is not found under the name, and neither is a class in
quotes. -/
theorem quotedGiven_not_found :
    let lookUp := fun name => if name = "A" then "p.A" else name
    quotedGiven.IsValid ∧ quotedGiven.text = "import a.B as \x60C\x60".toList ∧
      quotedGiven.binding = .named "C" "a.B" ∧
      (({} : FileScope).addImport quotedGiven.text).imported? "C" = none ∧
      (({} : FileScope).addImport quotedGiven.text).imported? "\x60C\x60" = some "a.B" ∧
      (WrittenType.parse "\x60A\x60".toList).resolve lookUp = .of "\x60A\x60" [] false ∧
      (WrittenType.parse "A".toList).resolve lookUp = .of "p.A" [] false := by
  intro lookUp
  have valid : quotedGiven.IsValid :=
    { nonempty := by decide
      names := by decide
      given := by
        rintro name ⟨⟩
        decide
      gapNonempty := by decide
      gapBlank := by decide
      behindBlank := by decide }
  have quoted : (WrittenType.parse "\x60A\x60".toList).resolve lookUp =
      .of "\x60A\x60" [] false := by
    rw [parse_quotedClass]
    rfl
  have bare : (WrittenType.parse "A".toList).resolve lookUp = .of "p.A" [] false := by
    have read := Token.parse_textOf quotesNames_quotedClass
    have written : Token.textOf true quotedClass = "\x60A\x60".toList := rfl
    rw [written, parse_quotedClass] at read
    have same : WrittenType.parse "A".toList = .named "A" [] false := read
    rw [same]
    rfl
  exact ⟨valid, by decide, by decide, by decide, by decide, quoted, bare⟩

end SourceCapture
