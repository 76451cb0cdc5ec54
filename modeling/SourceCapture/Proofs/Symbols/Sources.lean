/-
Where the classes of a run come from. Every class that is known under some name is read off a
class of one of the files, at a place of that file where what is known as a constant has a value.
-/

import SourceCapture.Proofs.Constants.Known
import SourceCapture.Proofs.Symbols.Declared

namespace SourceCapture

/-- Whether a class is what a class-like node of a syntax tree reads as, somewhere in a text. -/
def ClassHeader.IsReadFrom (header : ClassHeader) (content : List Char) (node : Tree) : Prop :=
  node.isClassLike = true ∧ ∃ place : Site, place.content = content ∧ place.KnowsValues ∧
    ofTree? place node = some header

namespace FileSymbols

variable {site inner place : Site} {tree node : Tree}

theorem isReadFrom_of_mem_own (knows : place.KnowsValues) {header : ClassHeader}
    (member : header ∈ (own place node).classes) : header.IsReadFrom place.content node := by
  rw [own] at member
  split at member
  case isTrue classLike => exact ⟨classLike, place, rfl, knows, Option.mem_toList.mp member⟩
  case isFalse =>
    split at member
    · cases member
    · cases member

theorem knowsValues_within? (knows : site.KnowsValues) (around : within? site tree = some inner) :
    inner.content = site.content ∧ inner.KnowsValues := by
  rw [within?] at around
  split at around
  · obtain ⟨header, -, rfl⟩ := Option.map_eq_some_iff.mp around
    exact ⟨rfl, knows⟩
  split at around
  · obtain ⟨header, -, rfl⟩ := Option.map_eq_some_iff.mp around
    exact ⟨rfl, knows⟩
  · cases around
    exact ⟨rfl, knows⟩

/-- Registering stays below a node and in its text, and knows the same constants there. -/
theorem ComesTo.isBelow (comes : ComesTo site tree place node) (knows : site.KnowsValues) :
    node ∈ tree.nodes ∧ place.content = site.content ∧ place.KnowsValues := by
  induction comes with
  | here => exact ⟨Tree.mem_nodes_self _, rfl, knows⟩
  | inside around member _ inductionHypothesis =>
    obtain ⟨same, innerKnows⟩ := knowsValues_within? knows around
    obtain ⟨below, content, placeKnows⟩ := inductionHypothesis innerKnows
    exact ⟨Tree.mem_nodes_trans below (Tree.mem_nodes_of_mem_namedChildren member),
      content.trans same, placeKnows⟩

end FileSymbols

variable {markers : MarkerNames} {files : List ParsedFile}

theorem knowsValues_declarationsAfter (before : List ParsedFile) :
    (before.foldl (ParsedFile.addDeclarations markers)
      (constantsAfter markers files)).KnowsValues := by
  refine List.foldlRecOn before _ (knowsValues_constantsAfter markers files)
    fun symbols knows file _ => ?_
  exact ParsedFile.knowsValues_addDeclarations knows

/-- Every class that a run knows is read off a class of one of its files. -/
theorem exists_source_of_class? {fqn : String} {known : ClassHeader}
    (found : (symbolsOf markers files).class? fqn = some known) :
    ∃ file ∈ files, ∃ node ∈ file.root.nodes, known.IsReadFrom file.document.content node := by
  obtain ⟨place, node, ⟨before, file, after, rfl, top, topMember, comes⟩, own, -⟩ :=
    exists_declaredIn_of_class? found
  obtain ⟨below, content, placeKnows⟩ :=
    comes.isBelow (ParsedFile.knowsValues_site (knowsValues_declarationsAfter before))
  have read := FileSymbols.isReadFrom_of_mem_own placeKnows own
  rw [content] at read
  exact ⟨file, List.mem_append_right _ List.mem_cons_self, node,
    Tree.mem_nodes_trans below (Tree.mem_nodes_of_mem_namedChildren topMember), read⟩

end SourceCapture
