/-
The values of quoted texts and characters. The tree of a text has its parts between two tokens, and
escapes are replaced in each part by itself. So a text has its value just when no escape is cut and
no character is written as two escapes. Between three quotes nothing is escaped, and the quotes that
belong to the text stand in the token that closes it; they are lost just when there are other parts.
Of a character the quotes at both ends are taken off, one that is written as an escape included.
-/

import SourceCapture.Proofs.Constants.Value
import SourceCapture.Proofs.Literals.Spelled
import SourceCapture.Proofs.SampleTrees
import SourceCapture.Proofs.Text.Trimming

namespace SourceCapture

namespace Tree

/-- The texts of the parts of a literal. -/
def pieces (content : List Char) (tree : Tree) : List (List Char) :=
  tree.namedChildren.map (·.text content)

/-- Whether a tree is a text between two tokens, cut into parts of these kinds. -/
structure IsQuoted (content : List Char) (kinds : List String) (opening body closing : List Char)
    (tree : Tree) : Prop where
  text : tree.text content = opening ++ (body ++ closing)
  children : ∃ first last, tree.children = first :: (tree.namedChildren ++ [last]) ∧
    first.isNamed = false ∧ first.kind = String.ofList opening ∧
    last.isNamed = false ∧ last.kind = String.ofList closing ∧ last.text content = closing
  kinds : ∀ part ∈ tree.namedChildren, part.kind ∈ kinds
  pieces : (tree.pieces content).flatten = body
  nonempty : ∀ piece ∈ tree.pieces content, piece ≠ []

end Tree

/-! ### Literals -/

/-- A character or a text in quotes, without templates. In three quotes nothing is escaped, and all
quotes in front of the last three belong to the text. -/
inductive QuotedLiteral where
  | text (chars : List SpelledChar)
  | raw (body : List Char) (quotes : Nat)
  | character (spelled : SpelledChar)

namespace QuotedLiteral

/-- The characters that the literal stands for. -/
def value : QuotedLiteral → List Char
  | text chars => chars.map SpelledChar.char
  | raw body quotes => body ++ List.replicate quotes '"'
  | character spelled => [spelled.char]

def IsValid : QuotedLiteral → Prop
  | text chars => ∀ spelled ∈ chars, spelled.IsValid '"'
  | raw _ _ => True
  | character spelled => spelled.IsValid '\''

/-- Whether a tree is one of the literal. Its parts may be cut anywhere. -/
def IsWrittenAs (content : List Char) (tree : Tree) : QuotedLiteral → Prop
  | text chars => tree.kind ∈ ["string_literal", "line_string_literal"] ∧
    tree.IsQuoted content ["string_content", "escape_sequence"] ['"']
      (chars.flatMap SpelledChar.text) ['"']
  | raw body quotes => tree.kind ∈ ["multiline_string_literal", "multi_line_string_literal"] ∧
    tree.IsQuoted content ["string_content"] Literal.rawQuote body (List.replicate (quotes + 3) '"')
  | character spelled => tree.kind = "character_literal" ∧
    tree.text content = '\'' :: (spelled.text ++ ['\''])

/-- Whether nothing of the literal is lost. No escape is cut and no character is written as two of
them; a text in three quotes that has other characters does not end with quotes, and a character
is not the escaped quote. -/
def IsWhole (content : List Char) (tree : Tree) : QuotedLiteral → Prop
  | text chars => (∀ spelled ∈ chars, spelled.isPair = false) ∧
    Literal.CutBetween (chars.map SpelledChar.text) (tree.pieces content)
  | raw body quotes => quotes = 0 ∨ body = []
  | character spelled => spelled.isPair = false ∧ spelled.text ≠ ['\\', '\'']

end QuotedLiteral

/-! ### Pieces of a text -/

theorem mapM_ofList (read? : List Char → Option (List Char)) (texts : List (List Char)) :
    texts.mapM (fun text => (read? text).map String.ofList) =
      (texts.mapM read?).map (List.map String.ofList) := by
  induction texts with
  | nil => rfl
  | cons text rest inductionHypothesis =>
    rw [List.mapM_cons, List.mapM_cons, inductionHypothesis]
    cases read? text with
    | none => rfl
    | some out => cases rest.mapM read? <;> rfl

theorem mapM_some (texts : List (List Char)) : texts.mapM some = some texts := by
  have mapped : texts.mapM some = some (texts.map id) := List.mapM_pure (m := Option) (f := id)
  rwa [List.map_id] at mapped

theorem flatten_mapM_singleton (read? : List Char → Option (List Char)) (text : List Char) :
    ([text].mapM read?).map List.flatten = read? text := by
  rw [List.mapM_cons, List.mapM_nil]
  cases read? text with
  | none => rfl
  | some out => exact congrArg some (List.flatten_singleton)

theorem join_map_ofList (texts : List (List Char)) :
    String.join (texts.map String.ofList) = String.ofList texts.flatten := by
  induction texts with
  | nil => rfl
  | cons text rest inductionHypothesis =>
    rw [List.map_cons, String.join_cons, inductionHypothesis, List.flatten_cons,
      String.ofList_append]

/-! ### The parts of a tree -/

namespace TextPart

variable {content : List Char} {tree : Tree} {isRaw : Bool}

theorem ofTree?_delimiter (unnamed : tree.isNamed = false) (known : tree.kind ∈ delimiters) :
    ofTree? content isRaw tree = none := by
  have delimits : (!tree.isNamed && delimiters.contains tree.kind) = true := by
    rw [unnamed, List.contains_iff_mem.mpr known]
    rfl
  exact if_pos delimits

theorem kindHas_eq_false {kind piece : String} {char : Char} (inPiece : char ∈ piece.toList)
    (other : char ∉ kind.toList) : kindHas kind piece = false := by
  rw [kindHas, Text.containsPiece, Option.isSome_eq_false_iff, Option.isNone_iff_eq_none]
  refine Option.eq_none_iff_forall_not_mem.mpr fun parts found => other ?_
  rw [Text.eq_append_of_splitOnce? found]
  exact List.mem_append_right _ (List.mem_append_left _ inPiece)

theorem ofTree?_plain (shown : tree.isNamed = true ∨ tree.kind ∉ delimiters)
    (noTemplate : (kindHas tree.kind "interpolat" || kindHas tree.kind "template") = false) :
    ofTree? content isRaw tree = some (.plain
      (if isRaw && !kindHas tree.kind "escape" then some (tree.text content)
      else Literal.unescape? (tree.text content))) := by
  have noDelimiter : ¬(!tree.isNamed && delimiters.contains tree.kind) = true := by
    rcases shown with named | other
    · rw [named]
      exact Bool.false_ne_true
    · rw [Bool.and_eq_true, List.contains_iff_mem]
      exact fun both => other both.2
  rw [ofTree?]
  rw [if_neg noDelimiter, noTemplate, if_neg Bool.false_ne_true]
  split <;> rfl

end TextPart

namespace Tree

variable {content opening body closing : List Char} {kinds : List String} {tree : Tree}
  {lookUp : String → Option Const}

/-- A text of plain parts has the value that the parts have one behind the other. -/
theorem value?_of_plain {read? : List Char → Option (List Char)} {texts : List (List Char)}
    (form : ConstShape.ofTree content tree = .text (texts.map fun text => .plain (read? text))) :
    tree.value? content lookUp =
      (texts.mapM read?).map fun outs => .text (String.ofList outs.flatten) := by
  have shown : (TextPart.shown? content lookUp) ∘ (fun text => .plain (read? text)) =
      fun text => (read? text).map String.ofList := rfl
  rw [value?_eq, form, ConstShape.value?, List.mapM_map, shown, mapM_ofList, Option.map_map]
  refine congrArg (Option.map · _) (funext fun outs => ?_)
  rw [Function.comp_apply, join_map_ofList]

theorem ofTree_text (kind : tree.kind ∈ ["string_literal", "line_string_literal",
      "multiline_string_literal", "multi_line_string_literal"]) :
    ConstShape.ofTree content tree = ConstShape.ofText content tree := by
  have forms : ∀ kind ∈ ["string_literal", "line_string_literal", "multiline_string_literal",
      "multi_line_string_literal"], ConstShape.formOf kind = .text := by
    decide
  rw [ConstShape.ofTree, forms _ kind]

namespace IsQuoted

theorem pieces_eq_nil_iff (quoted : tree.IsQuoted content kinds opening body closing) :
    tree.pieces content = [] ↔ body = [] := by
  rw [← quoted.pieces, List.flatten_eq_nil_iff]
  refine ⟨fun none => none ▸ List.forall_mem_nil _, fun empty => ?_⟩
  exact List.eq_nil_iff_forall_not_mem.mpr fun piece member =>
    quoted.nonempty piece member (empty piece member)

/-- The parts are read one by one, and the token behind them only if it is none of those known. -/
theorem filterMap_children (quoted : tree.IsQuoted content kinds opening body closing)
    {isRaw : Bool} (known : String.ofList opening ∈ TextPart.delimiters)
    {read? : List Char → Option (List Char)} (parts : ∀ part ∈ tree.namedChildren,
      TextPart.ofTree? content isRaw part = some (.plain (read? (part.text content)))) :
    ∃ last, last.isNamed = false ∧ last.kind = String.ofList closing ∧
      last.text content = closing ∧
      tree.children.filterMap (TextPart.ofTree? content isRaw) =
        (tree.pieces content).map (fun text => .plain (read? text)) ++
          (TextPart.ofTree? content isRaw last).toList := by
  obtain ⟨first, last, split, firstUnnamed, firstKind, lastUnnamed, lastKind, lastText⟩ :=
    quoted.children
  refine ⟨last, lastUnnamed, lastKind, lastText, ?_⟩
  have opens : TextPart.ofTree? content isRaw first = none :=
    TextPart.ofTree?_delimiter firstUnnamed (firstKind ▸ known)
  rw [split, List.filterMap_cons_none opens, List.filterMap_append, Tree.pieces, List.map_map]
  refine congrArg₂ (· ++ ·) ?_ ?_
  · generalize tree.namedChildren = named at parts
    induction named with
    | nil => rfl
    | cons part rest inductionHypothesis =>
      rw [List.forall_mem_cons] at parts
      rw [List.filterMap_cons_some parts.1, inductionHypothesis parts.2]
      rfl
  · rw [List.filterMap_cons]
    cases TextPart.ofTree? content isRaw last <;> rfl

theorem isEmpty_eq_decide (quoted : tree.IsQuoted content kinds opening body closing) :
    tree.namedChildren.isEmpty = decide (body = []) := by
  rw [Bool.eq_iff_iff, decide_eq_true_iff, ← quoted.pieces_eq_nil_iff, Tree.pieces,
    List.map_eq_nil_iff, List.isEmpty_iff]

/-- A text that is not empty is read as its parts, and maybe the token that closes it. -/
theorem exists_ofText_eq (quoted : tree.IsQuoted content kinds opening body closing)
    (something : body ≠ []) (known : String.ofList opening ∈ TextPart.delimiters)
    {read? : List Char → Option (List Char)} (parts : ∀ part ∈ tree.namedChildren,
      TextPart.ofTree? content (Literal.isRaw (tree.text content)) part =
        some (.plain (read? (part.text content)))) :
    ∃ last, last.isNamed = false ∧ last.kind = String.ofList closing ∧
      last.text content = closing ∧
      ConstShape.ofText content tree = .text ((tree.pieces content).map (fun text =>
        .plain (read? text)) ++
          (TextPart.ofTree? content (Literal.isRaw (tree.text content)) last).toList) := by
  obtain ⟨last, unnamed, kind, text, read⟩ := quoted.filterMap_children known parts
  refine ⟨last, unnamed, kind, text, ?_⟩
  rw [ConstShape.ofText, quoted.isEmpty_eq_decide, decide_eq_false something,
    if_neg Bool.false_ne_true, read]

end IsQuoted

end Tree

/-! ### The value of a literal -/

namespace QuotedLiteral

variable {content : List Char} {tree : Tree} {chars : List SpelledChar} {spelled : SpelledChar}
  {body : List Char} {quotes : Nat} {lookUp : String → Option Const} {literal : QuotedLiteral}

theorem isRaw_text (valid : ∀ spelled ∈ chars, spelled.IsValid '"') :
    Literal.isRaw ('"' :: (chars.flatMap SpelledChar.text ++ ['"'])) = false := by
  rw [Literal.isRaw, Option.isSome_eq_false_iff, Option.isNone_iff_eq_none,
    Option.eq_none_iff_forall_not_mem]
  intro rest found
  have split := List.cons.inj (Text.stripStart?_eq_some.mp found)
  cases chars with
  | nil => cases split.2
  | cons spelled others =>
    obtain ⟨first, behind, same, other⟩ :=
      SpelledChar.exists_text_cons (valid spelled List.mem_cons_self) (by decide)
    rw [List.flatMap_cons, same] at split
    exact other (List.cons.inj split.2).1

/-- A text with escapes is read part by part. -/
theorem value?_text (valid : (QuotedLiteral.text chars).IsValid)
    (written : (QuotedLiteral.text chars).IsWrittenAs content tree) :
    tree.value? content lookUp = ((tree.pieces content).mapM Literal.unescape?).map
      fun outs => .text (String.ofList outs.flatten) := by
  obtain ⟨kind, quoted⟩ := written
  have isRaw : Literal.isRaw (tree.text content) = false := by
    rw [quoted.text]
    exact isRaw_text valid
  have form : ConstShape.ofTree content tree = ConstShape.ofText content tree :=
    Tree.ofTree_text (List.mem_append_left _ kind)
  by_cases nothing : chars.flatMap SpelledChar.text = []
  · rw [Tree.value?_eq, form, quoted.pieces_eq_nil_iff.mpr nothing, ConstShape.ofText,
      quoted.isEmpty_eq_decide, if_pos (decide_eq_true nothing), Literal.readText?, isRaw,
      quoted.text, Text.stripBoth?_append, nothing, Option.getD_some]
    simp only [Literal.unescape?]
    rfl
  · have parts : ∀ part ∈ tree.namedChildren,
        TextPart.ofTree? content (Literal.isRaw (tree.text content)) part =
          some (.plain (Literal.unescape? (part.text content))) := by
      intro part member
      have kinds : ∀ kind ∈ ["string_content", "escape_sequence"],
          (TextPart.kindHas kind "interpolat" || TextPart.kindHas kind "template") = false := by
        decide
      have named : part.isNamed = true := (List.mem_filter.mp member).2
      rw [isRaw, TextPart.ofTree?_plain (Or.inl named) (kinds _ (quoted.kinds part member))]
      rfl
    obtain ⟨last, unnamed, lastKind, -, read⟩ :=
      quoted.exists_ofText_eq nothing (by decide) parts
    refine Tree.value?_of_plain ?_
    rw [form, read, TextPart.ofTree?_delimiter unnamed (lastKind ▸ by decide), Option.toList_none,
      List.append_nil]

/-- A token of more than three quotes is read as a part of the text. -/
theorem ofTree?_closing {last : Tree} (several : quotes ≠ 0)
    (kind : last.kind = String.ofList (List.replicate (quotes + 3) '"')) :
    TextPart.ofTree? content true last = some (.plain (some (last.text content))) := by
  have letters : last.kind.toList = List.replicate (quotes + 3) '"' := by
    rw [kind, String.toList_ofList]
  have other : ∀ char, char ≠ '"' → char ∉ last.kind.toList := by
    intro char other member
    rw [letters] at member
    exact other (List.eq_of_mem_replicate member)
  have unknown : last.kind ∉ TextPart.delimiters := by
    intro member
    have short : ∀ kind ∈ TextPart.delimiters, kind.toList.length ≤ 3 := by decide
    have length := short _ member
    rw [letters, List.length_replicate] at length
    omega
  have without : ∀ piece, piece.toList.any (· ≠ '"') = true →
      TextPart.kindHas last.kind piece = false := by
    intro piece some
    obtain ⟨char, member, differs⟩ := List.any_eq_true.mp some
    exact TextPart.kindHas_eq_false member (other char (of_decide_eq_true differs))
  rw [TextPart.ofTree?_plain (Or.inr unknown), without "escape" (by decide)]
  · rfl
  · rw [without "interpolat" (by decide), without "template" (by decide)]
    rfl

theorem isRaw_raw (written : (QuotedLiteral.raw body quotes).IsWrittenAs content tree) :
    Literal.isRaw (tree.text content) = true := by
  rw [written.2.text, Literal.isRaw, Text.stripStart?_eq_some.mpr rfl]
  rfl

theorem ofTree_raw (written : (QuotedLiteral.raw body quotes).IsWrittenAs content tree) :
    ConstShape.ofTree content tree = ConstShape.ofText content tree :=
  Tree.ofTree_text (List.mem_append_right ["string_literal", "line_string_literal"] written.1)

/-- A text of nothing but quotes loses three of them at each end. -/
theorem value?_raw_nil (written : (QuotedLiteral.raw [] quotes).IsWrittenAs content tree) :
    tree.value? content lookUp =
      some (.text (String.ofList (List.replicate quotes '"'))) := by
  have closing : List.replicate (quotes + 3) '"' = List.replicate quotes '"' ++ Literal.rawQuote :=
    List.replicate_add quotes 3 '"'
  rw [Tree.value?_eq, ofTree_raw written, ConstShape.ofText, written.2.isEmpty_eq_decide,
    if_pos (decide_eq_true rfl), Literal.readText?, isRaw_raw written, if_pos rfl, written.2.text,
    closing, List.nil_append, Text.stripBoth?_append, Option.getD_some]
  rfl

/-- Behind other characters, a closing token of more than three quotes is a part of the text. -/
theorem value?_raw_of_ne_nil (written : (QuotedLiteral.raw body quotes).IsWrittenAs content tree)
    (something : body ≠ []) :
    tree.value? content lookUp = some (.text (String.ofList
      (body ++ List.replicate (if quotes = 0 then 0 else quotes + 3) '"'))) := by
  have parts : ∀ part ∈ tree.namedChildren,
      TextPart.ofTree? content (Literal.isRaw (tree.text content)) part =
        some (.plain (some (part.text content))) := by
    intro part member
    have kind : part.kind = "string_content" :=
      List.mem_singleton.mp (written.2.kinds part member)
    have named : part.isNamed = true := (List.mem_filter.mp member).2
    rw [TextPart.ofTree?_plain (Or.inl named) (by rw [kind]; decide), isRaw_raw written, kind]
    rfl
  obtain ⟨last, unnamed, lastKind, lastText, read⟩ :=
    written.2.exists_ofText_eq something (by decide) parts
  rw [isRaw_raw written, ← ofTree_raw written] at read
  by_cases single : quotes = 0
  · have closes : TextPart.ofTree? content true last = none := by
      refine TextPart.ofTree?_delimiter unnamed ?_
      rw [lastKind, single]
      decide
    rw [closes, Option.toList_none, List.append_nil] at read
    rw [Tree.value?_of_plain read, mapM_some, Option.map_some, written.2.pieces, if_pos single,
      List.replicate_zero, List.append_nil]
  · have parted : ConstShape.ofTree content tree = .text ((tree.pieces content ++
        [List.replicate (quotes + 3) '"']).map fun text => .plain (some text)) := by
      rw [read, ofTree?_closing single lastKind, lastText, List.map_append]
      rfl
    rw [Tree.value?_of_plain parted, mapM_some, Option.map_some, List.flatten_append,
      List.flatten_singleton, written.2.pieces, if_neg single]

/-- A text in three quotes is read as it is, but with every quote of the token at its end. -/
theorem value?_raw (written : (QuotedLiteral.raw body quotes).IsWrittenAs content tree) :
    tree.value? content lookUp = some (.text (String.ofList
      (body ++ List.replicate (if quotes = 0 ∨ body = [] then quotes else quotes + 3) '"'))) := by
  by_cases nothing : body = []
  · subst nothing
    rw [value?_raw_nil written, if_pos (Or.inr rfl), List.nil_append]
  · rw [value?_raw_of_ne_nil written nothing]
    by_cases single : quotes = 0
    · rw [if_pos single, if_pos (Or.inl single), single]
    · rw [if_neg single, if_neg (not_or.mpr ⟨single, nothing⟩)]

/-- A character is what its escape stands for, without any single quotes at its ends. -/
theorem value?_character (written : (QuotedLiteral.character spelled).IsWrittenAs content tree) :
    tree.value? content lookUp =
      (Literal.unescape? (Text.stripWhile (· = '\'') ('\'' :: (spelled.text ++ ['\''])))).map
        fun out => .text (String.ofList out) := by
  obtain ⟨kind, text⟩ := written
  have form : ConstShape.formOf tree.kind = .character := by
    rw [kind]
    decide
  have tight : Text.IsTight ('\'' :: (spelled.text ++ ['\''])) :=
    Text.isTight_surrounded (by decide) (by decide) spelled.text
  rw [Tree.value?_eq, ConstShape.ofTree, form, Tree.trimmedText, text, tight.trims.trim_eq]
  rfl

theorem stripWhile_character (valid : spelled.IsValid '\'') (bare : spelled.text ≠ ['\\', '\'']) :
    Text.stripWhile (· = '\'') ('\'' :: (spelled.text ++ ['\''])) = spelled.text := by
  obtain ⟨first, rest, started, firstOther⟩ := SpelledChar.exists_text_cons valid (by decide)
  obtain ⟨front, last, ended, lastOther⟩ := SpelledChar.exists_text_append valid bare
  have head : ('\'' :: (spelled.text ++ ['\''])).dropWhile (· = '\'') = spelled.text ++ ['\''] := by
    rw [started, List.dropWhile_cons_of_pos (by decide)]
    exact List.dropWhile_cons_of_neg (by simpa using firstOther)
  rw [Text.stripWhile, head, ended, List.append_assoc, List.singleton_append,
    Text.dropEndWhile_append_cons (decide_eq_false lastOther)]
  rfl

/-- Between single quotes only the escaped quote is lost, and what is written as two escapes. -/
theorem unescape?_character_iff (valid : spelled.IsValid '\'') :
    Literal.unescape? (Text.stripWhile (· = '\'') ('\'' :: (spelled.text ++ ['\'']))) =
      some [spelled.char] ↔ spelled.isPair = false ∧ spelled.text ≠ ['\\', '\''] := by
  by_cases bare : spelled.text = ['\\', '\'']
  · have nothing : Literal.unescape? ['\\'] = none := by rw [Literal.unescape?]
    have stripped : Text.stripWhile (· = '\'') ['\'', '\\', '\'', '\''] = ['\\'] := by decide
    rw [bare]
    refine iff_of_false ?_ fun whole => whole.2 rfl
    show Literal.unescape? (Text.stripWhile (· = '\'') ['\'', '\\', '\'', '\'']) ≠ _
    rw [stripped, nothing]
    exact (Option.some_ne_none _).symm
  · have flat : [spelled.text].flatten = [spelled].flatMap SpelledChar.text := by
      rw [List.flatten_singleton, List.flatMap_singleton]
    have cut : Literal.CutBetween ([spelled].map SpelledChar.text) [spelled.text] :=
      ⟨[[spelled.text]], rfl, congrArg (· :: []) (List.flatten_singleton)⟩
    have read := SpelledChar.mapM_unescape?_eq_iff (List.forall_mem_singleton.mpr valid) flat
    rw [flatten_mapM_singleton, List.forall_mem_singleton] at read
    rw [stripWhile_character valid bare]
    exact read.trans (and_congr_right fun _ => iff_of_true cut bare)

theorem map_text_eq_some_iff {outs : Option (List Char)} {value : List Char} :
    (outs.map fun out => Const.text (String.ofList out)) = some (.text (String.ofList value)) ↔
      outs = some value := by
  simp only [Option.map_eq_some_iff, Const.text.injEq, String.ofList_inj, exists_eq_right]

/-- A literal is folded to its value just when nothing of it is lost. Otherwise it has no value, or
another one. -/
theorem folded_eq_value_iff (lookUp : String → Option Const) (valid : literal.IsValid)
    (written : literal.IsWrittenAs content tree) :
    tree.folded content lookUp = .text (String.ofList literal.value) ↔
      literal.IsWhole content tree := by
  rw [Tree.folded_eq_iff rfl]
  cases literal with
  | text chars =>
    have flattened : ∀ outs : Option (List (List Char)),
        (outs.map fun outs => Const.text (String.ofList outs.flatten)) =
          (outs.map List.flatten).map fun out => .text (String.ofList out) := by
      intro outs
      rw [Option.map_map]
      rfl
    rw [value?_text valid written, flattened, map_text_eq_some_iff]
    exact SpelledChar.mapM_unescape?_eq_iff valid written.2.pieces
  | raw body quotes =>
    rw [value?_raw written, Option.some_inj, Const.text.injEq, String.ofList_inj, value,
      List.append_cancel_left_eq, List.replicate_inj]
    show _ ↔ quotes = 0 ∨ body = []
    by_cases whole : quotes = 0 ∨ body = []
    · rw [if_pos whole]
      exact iff_of_true ⟨rfl, Or.inr rfl⟩ whole
    · rw [if_neg whole]
      exact iff_of_false (fun same => absurd same.1 (by omega)) whole
  | character spelled =>
    rw [value?_character written, map_text_eq_some_iff]
    exact unescape?_character_iff valid

/-- The literal `"a\"b"`. -/
def withQuote : QuotedLiteral := .text [.itself 'a', .escape '"' '"', .itself 'b']

def withQuoteTree : Tree :=
  .branch "string_literal" 0 6 [
    .token "\"" 0 1,
    .leaf "string_content" 1 2,
    .leaf "escape_sequence" 2 4,
    .leaf "string_content" 4 5,
    .token "\"" 5 6]

theorem isValid_withQuote : withQuote.IsValid := by
  refine List.forall_mem_cons.mpr
    ⟨?_, List.forall_mem_cons.mpr ⟨?_, List.forall_mem_singleton.mpr ?_⟩⟩
  · show 'a' ∉ ['"', '\\', '\n', '\r']
    decide
  · show ('"', '"') ∈ SpelledChar.letters
    decide
  · show 'b' ∉ ['"', '\\', '\n', '\r']
    decide

theorem isWrittenAs_withQuote : withQuote.IsWrittenAs "\"a\\\"b\"".toList withQuoteTree := by
  refine ⟨by decide, ⟨by decide, ?_, by decide, by decide, by decide⟩⟩
  exact ⟨.token "\"" 0 1, .token "\"" 5 6, rfl, rfl, rfl, rfl, rfl, by decide⟩

theorem folded_withQuote :
    withQuote.IsValid ∧ withQuote.IsWrittenAs "\"a\\\"b\"".toList withQuoteTree ∧
      ∀ lookUp, withQuoteTree.folded "\"a\\\"b\"".toList lookUp = .text "a\"b" := by
  refine ⟨isValid_withQuote, isWrittenAs_withQuote, fun lookUp => ?_⟩
  refine (folded_eq_value_iff lookUp isValid_withQuote isWrittenAs_withQuote).mpr ⟨?_, ?_⟩
  · decide
  · exact ⟨[[['a']], [['\\', '"']], [['b']]], rfl, by decide⟩

/-- The literal `"\u65e5"`. -/
def withCode : QuotedLiteral := .text [.code '日' "65e5".toList]

/-- Its escape is two parts of the tree. -/
def withCodeTree : Tree :=
  .branch "string_literal" 0 8 [
    .token "\"" 0 1,
    .leaf "string_content" 1 3,
    .leaf "string_content" 3 7,
    .token "\"" 7 8]

theorem isValid_withCode : withCode.IsValid := by
  refine List.forall_mem_singleton.mpr ⟨rfl, [6, 5, 14, 5], ?_, by decide⟩
  decide

theorem isWrittenAs_withCode : withCode.IsWrittenAs "\"\\u65e5\"".toList withCodeTree := by
  refine ⟨by decide, ⟨by decide, ?_, by decide, by decide, by decide⟩⟩
  exact ⟨.token "\"" 0 1, .token "\"" 7 8, rfl, rfl, rfl, rfl, rfl, by decide⟩

/-- A character that is written by its code is not folded. -/
theorem folded_withCode :
    withCode.IsValid ∧ withCode.IsWrittenAs "\"\\u65e5\"".toList withCodeTree ∧
      withCodeTree.folded "\"\\u65e5\"".toList (fun _ => none) =
        .nonConstant "\"\\u65e5\"" (some ⟨0, 8⟩) := by
  refine ⟨isValid_withCode, isWrittenAs_withCode, ?_⟩
  have pieces : withCodeTree.pieces "\"\\u65e5\"".toList = [['\\', 'u'], "65e5".toList] := by decide
  have cut : Literal.unescape? ['\\', 'u'] = none := by
    rw [Literal.unescape?]
    rfl
  rw [Tree.folded_eq, value?_text isValid_withCode isWrittenAs_withCode, pieces, List.mapM_cons,
    cut]
  decide

end QuotedLiteral

end SourceCapture
