/-
Calls to functional interfaces. Where a type is written, the name of an interface may have dots,
and a name with dots is looked for by its first segment. A call takes its callee apart before any
name is looked for, and it is a conversion only if nothing stands before the name, the name starts
like the name of a class, and nothing else stands in the list of its arguments.
-/

import SourceCapture.Proofs.Lowering.TypeParameters
import SourceCapture.Proofs.Uncommented

namespace SourceCapture

variable {markers : MarkerNames} {files : List ParsedFile}

/-- Whether a node spells a name, simple or with dots. -/
inductive Tree.Spells (content : List Char) : Tree → String → Prop where
  | simple {tree : Tree} (identifier : tree.isIdentifier = true) :
      Spells content tree (tree.identifierName content)
  | dotted {tree owner last : Tree} {name : String} (path : tree.kind = "navigation_expression")
      (first : tree.namedChildren.head? = some owner) (more : 2 ≤ tree.namedChildren.length)
      (ends : CallParts.lastIdentifier? tree = some last)
      (dots : ∀ token ∈ tree.nodes, token.isNamed = false → token.kind = ".")
      (outer : Spells content owner name) :
      Spells content tree (Name.member name (last.identifierName content))

theorem Tree.Spells.eq_identifierName {content : List Char} {tree : Tree} {name : String}
    (spells : tree.Spells content name) (identifier : tree.isIdentifier = true) :
    name = tree.identifierName content := by
  cases spells with
  | simple => rfl
  | dotted path =>
    rw [isIdentifier, path] at identifier
    cases identifier

theorem Tree.Spells.isIdentifier_or_path {content : List Char} {tree : Tree} {name : String}
    (spells : tree.Spells content name) : tree.isIdentifier = true ∨
      tree.kind = "navigation_expression" ∧ 2 ≤ tree.namedChildren.length := by
  cases spells with
  | simple identifier => exact .inl identifier
  | dotted path first more => exact .inr ⟨path, more⟩

/-! ### The only lambda -/

namespace CallParts

variable {content : List Char} {parts : CallParts} {literal : Tree} {slot : ArgumentSlot}

theorem arguments_of_onlyLambda? (content : List Char) (found : parts.onlyLambda? = some literal) :
    ∃ slot, parts.arguments content = [(literal, slot)] ∧
      ∀ parameter, slot ≠ .named parameter := by
  rw [onlyLambda?] at found
  split at found
  case h_1 values lambdas =>
    cases found
    exact ⟨.last, by rw [arguments, values, lambdas]; rfl, by rintro parameter ⟨⟩⟩
  case h_2 value values lambdas =>
    split at found
    case isTrue =>
      cases found
      exact ⟨.position 0, by rw [arguments, values, lambdas]; rfl, by rintro parameter ⟨⟩⟩
    case isFalse => cases found
  case h_3 => cases found

theorem onlyLambda?_of_arguments (only : parts.arguments content = [(literal, slot)])
    (unnamed : ∀ parameter, slot ≠ .named parameter) (isLambda : literal.kind = "lambda_literal") :
    parts.onlyLambda? = some literal := by
  rw [arguments, List.append_eq_singleton_iff] at only
  rcases only with ⟨noValues, lambda⟩ | ⟨value, noLambdas⟩
  · rw [List.map_eq_nil_iff, List.zipIdx_eq_nil_iff] at noValues
    obtain ⟨behind, lambdas, same⟩ := List.map_eq_singleton_iff.mp lambda
    cases same
    rw [onlyLambda?, noValues, lambdas]
  · rw [List.map_eq_nil_iff] at noLambdas
    obtain ⟨⟨⟨name?, inside⟩, index⟩, values, same⟩ := List.map_eq_singleton_iff.mp value
    cases same
    have single : parts.values = [⟨name?, inside⟩] := by
      rw [← List.zipIdx_map_fst 0 parts.values, values]
      rfl
    cases name? with
    | none => rw [onlyLambda?, single, noLambdas]; exact if_pos isLambda
    | some name => exact absurd rfl (unnamed _)

end CallParts

namespace Site

/-- A call with a lambda for its only argument, comments apart, whose callee spells a name that
means a functional interface where types are written. -/
structure InterfaceCall (place : Site) (parts : CallParts) where
  name : String
  literal : Tree
  slot : ArgumentSlot
  owner : ClassHeader
  spelled : parts.callee.Spells place.content name
  only : (parts.arguments place.content).filter
    (fun argument => !Tree.commentKinds.contains argument.1.kind) = [(literal, slot)]
  isLambda : literal.kind = "lambda_literal"
  means : place.functionalInterface? (place.resolveClass name) = some owner

namespace InterfaceCall

variable {place : Site} {parts : CallParts} {node : Tree}

/-- Whether the node of the call is lowered to the conversion of the lambda to the interface. -/
def IsConverted (call : place.InterfaceCall parts) (node : Tree) : Prop :=
  ∃ type, type.fqn = place.resolveClass call.name ∧
    place.expr? node =
      some (.conversion (some call.literal.span) type call.owner (place.lambda call.literal))

/-- Whether the call is written in the way that is taken for a conversion. -/
structure IsPlain (call : place.InterfaceCall parts) : Prop where
  simple : parts.callee.isIdentifier = true
  capital : FileScope.looksLikeClass call.name = true
  unnamed : ∀ parameter, call.slot ≠ .named parameter
  alone : ∀ argument ∈ parts.arguments place.content, argument.1.kind ∉ Tree.commentKinds

/-! ### The callee -/

theorem isSome_receiver?_of_path (path : parts.callee.kind = "navigation_expression")
    (more : 2 ≤ parts.callee.namedChildren.length) : parts.receiver?.isSome = true := by
  have noIdentifier : parts.callee.isIdentifier = false := by
    rw [Tree.isIdentifier, path]
    rfl
  have isPath : parts.isPath = true := decide_eq_true path
  rw [CallParts.receiver?, noIdentifier, if_neg Bool.false_ne_true, if_pos isPath]
  generalize parts.callee.namedChildren = children at more ⊢
  rcases children with _ | ⟨first, _ | ⟨second, rest⟩⟩
  · cases more
  · cases Nat.le_of_succ_le_succ more
  · rfl

theorem isIdentifier_of_receiver?_none (call : place.InterfaceCall parts)
    (noReceiver : parts.receiver? = none) : parts.callee.isIdentifier = true := by
  refine call.spelled.isIdentifier_or_path.resolve_right fun ⟨path, more⟩ => ?_
  have receiver := isSome_receiver?_of_path path more
  rw [noReceiver] at receiver
  cases receiver

theorem name?_of_isIdentifier (call : place.InterfaceCall parts)
    (simple : parts.callee.isIdentifier = true) :
    parts.name? place.content = some call.name := by
  rw [CallParts.name?, if_pos simple, call.spelled.eq_identifierName simple]

theorem receiver?_of_isIdentifier (simple : parts.callee.isIdentifier = true) :
    parts.receiver? = none := by
  rw [CallParts.receiver?, if_pos simple]

/-! ### Conversion -/

theorem arguments_of_isPlain {call : place.InterfaceCall parts} (plain : call.IsPlain) :
    parts.arguments place.content = [(call.literal, call.slot)] := by
  rw [← call.only, eq_comm, List.filter_eq_self]
  intro argument member
  simp [plain.alone argument member]

theorem converted?_of_isPlain {call : place.InterfaceCall parts} (plain : call.IsPlain) :
    ∃ type, type.fqn = place.resolveClass call.name ∧
      place.converted? parts = some (call.literal, type, call.owner) := by
  have only := CallParts.onlyLambda?_of_arguments (arguments_of_isPlain plain) plain.unnamed
    call.isLambda
  rw [converted?, receiver?_of_isIdentifier plain.simple, only,
    call.name?_of_isIdentifier plain.simple]
  show ∃ type, _ ∧ (place.construction? call.name parts.typeArguments?).bind _ = _
  rw [construction?, if_pos plain.capital]
  dsimp only
  rw [call.means]
  exact ⟨_, rfl, rfl⟩

theorem isPlain_of_converted? (call : place.InterfaceCall parts) {literal : Tree}
    {type : TypeRef} {owner : ClassHeader}
    (found : place.converted? parts = some (literal, type, owner)) : call.IsPlain := by
  have simple := call.isIdentifier_of_receiver?_none (receiver?_of_converted? found)
  have capital : FileScope.looksLikeClass call.name = true := by
    obtain ⟨name, named, constructed⟩ := construction?_of_converted? found
    rw [call.name?_of_isIdentifier simple] at named
    cases named
    by_contra other
    rw [construction?, if_neg other] at constructed
    cases constructed
  obtain ⟨slot, arguments, unnamed⟩ :=
    CallParts.arguments_of_onlyLambda? place.content (onlyLambda?_of_converted? found)
  have only := call.only
  rw [arguments, List.filter_cons] at only
  split at only
  case isTrue kept =>
    cases only
    refine ⟨simple, capital, unnamed, fun argument member => ?_⟩
    rw [arguments, List.mem_singleton] at member
    simpa [member] using kept
  case isFalse => cases only

/-- A call to an interface is a conversion just when it is written in the plain way. -/
theorem isConverted_iff (call : place.InterfaceCall parts) (kind : node.kind = "call_expression")
    (read : CallParts.ofTree? node = some parts) : call.IsConverted node ↔ call.IsPlain := by
  constructor
  · rintro ⟨type, -, lowered⟩
    rw [expr?_eq, if_pos kind, call_eq, read] at lowered
    dsimp only at lowered
    split at lowered
    case h_1 found => exact call.isPlain_of_converted? found
    case h_2 => cases lowered
  · intro plain
    obtain ⟨type, name, found⟩ := converted?_of_isPlain plain
    exact ⟨type, name, expr?_of_converted? kind read found⟩

end InterfaceCall

end Site

/-! ### Whole files -/

/-- Whether every call to a functional interface in some files is lowered to the conversion of
its lambda, in whichever way the interface is named. -/
def ConvertsInterfaceCalls (markers : MarkerNames) (files : List ParsedFile) : Prop :=
  ∀ file ∈ files, ∀ place node parts,
    file.ComesTo (symbolsOf markers files) markers place node →
    node.kind = "call_expression" → CallParts.ofTree? node = some parts →
      ∀ call : place.InterfaceCall parts, call.IsConverted node

/-- The calls to functional interfaces are lowered to conversions just when all of them are
written in the plain way. -/
theorem convertsInterfaceCalls_iff (markers : MarkerNames) (files : List ParsedFile) :
    ConvertsInterfaceCalls markers files ↔ ∀ file ∈ files, ∀ place node parts,
      file.ComesTo (symbolsOf markers files) markers place node →
      node.kind = "call_expression" → CallParts.ofTree? node = some parts →
        ∀ call : place.InterfaceCall parts, call.IsPlain := by
  refine forall₅_congr fun file member place node parts => ?_
  refine forall₃_congr fun comes kind read => forall_congr' fun call => ?_
  exact call.isConverted_iff kind read

/-! ### An interface inside a class -/

/-- The call `N.M { V }`, for names and a number of one character each. -/
def Tree.memberBlockCall (start : Nat) : Tree :=
  branch "call_expression" start (start + 9) [
    branch "navigation_expression" start (start + 3) [
      leaf "identifier" start (start + 1),
      token "." (start + 1) (start + 2),
      leaf "identifier" (start + 2) (start + 3)],
    branch "annotated_lambda" (start + 4) (start + 9) [blockLiteral (start + 4)]]

def memberInterfaceContent : List Char :=
  ["import com.github.tarcv.kotbridge.*\n", "class O \x7b\n", "fun interface B : Capturable<B>\n",
    "\x7d\n", "val x = O.B \x7b 1 \x7d\n"].flatMap String.toList

/-- A file with an interface inside a class and a call that names the interface through it. -/
def memberInterfaceFile : ParsedFile where
  document := .ofFile ⟨"/p/src/A.kt"⟩ memberInterfaceContent ⟨"/p"⟩
  root := .branch "source_file" 0 98 [
    .wholeLibraryImport 0,
    .branch "class_declaration" 36 79 [
      .token "class" 36 41,
      .leaf "identifier" 42 43,
      .branch "class_body" 44 79 [
        .token "\x7b" 44 45,
        .capturableInterface 46 46 [],
        .token "\x7d" 78 79]],
    .valueProperty 80 (.memberBlockCall 88)]

/-- The outermost place of the file, with the file's own symbols. -/
def memberInterfaceSite : Site :=
  memberInterfaceFile.site (symbolsOf {} [memberInterfaceFile]) {}

/-- Lowering comes to the value of the property. -/
theorem memberInterfaceFile_comesTo :
    memberInterfaceFile.ComesTo (symbolsOf {} [memberInterfaceFile]) {} memberInterfaceSite
      (.memberBlockCall 88) := by
  have headed : (memberInterfaceSite.heading? (.valueProperty 80 (.memberBlockCall 88))).isSome =
      true := by
    decide +kernel
  have within : Site.ComesTo memberInterfaceSite (.valueProperty 80 (.memberBlockCall 88))
      memberInterfaceSite (.memberBlockCall 88) := by
    have named : ((Tree.valueProperty 80 (.memberBlockCall 88)).propertyName?
        memberInterfaceSite.content).isSome = true := by
      decide +kernel
    have inner := Site.inner_of_property rfl named
    have member : Tree.memberBlockCall 88 ∈
        (memberInterfaceSite.inner (.valueProperty 80 (.memberBlockCall 88))).2 := by
      rw [inner]
      exact List.mem_singleton_self _
    refine .inside member ?_
    rw [inner]
    exact .here
  refine ⟨.valueProperty 80 (.memberBlockCall 88), ?_, within⟩
  refine List.mem_append_left _ (List.mem_filter.mpr ⟨?_, headed⟩)
  exact List.mem_of_getElem? (i := 1) rfl

/-- The name with the dot means the interface, but it is no plain name. -/
theorem memberInterfaceFile_not_converted : ¬ConvertsInterfaceCalls {} [memberInterfaceFile] := by
  intro converts
  have known : (memberInterfaceSite.functionalInterface? (memberInterfaceSite.resolveClass
      (Name.member (Tree.identifierName memberInterfaceContent (.leaf "identifier" 88 89))
        (Tree.identifierName memberInterfaceContent (.leaf "identifier" 90 91))))).isSome =
      true := by
    decide +kernel
  obtain ⟨owner, means⟩ := Option.isSome_iff_exists.mp known
  let parts : CallParts := ⟨.branch "navigation_expression" 88 91 [.leaf "identifier" 88 89,
    .token "." 89 90, .leaf "identifier" 90 91], [.lambda (.blockLiteral 92)]⟩
  have spelled : parts.callee.Spells memberInterfaceContent _ :=
    .dotted rfl rfl (by decide) rfl (by decide) (.simple rfl)
  have call : memberInterfaceSite.InterfaceCall parts :=
    ⟨_, .blockLiteral 92, .last, owner, spelled, rfl, rfl, means⟩
  have converted := converts memberInterfaceFile (List.mem_singleton_self _) memberInterfaceSite
    (.memberBlockCall 88) parts memberInterfaceFile_comesTo rfl rfl call
  have plain := (call.isConverted_iff rfl rfl).mp converted
  exact Bool.false_ne_true plain.simple

end SourceCapture
