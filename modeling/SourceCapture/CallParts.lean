/-
Calls as they are written: the callee with its receiver, the arguments in parentheses, the
lambdas behind them and the type arguments.
-/

import SourceCapture.Header

namespace SourceCapture

/-- A part of a call after its callee. -/
inductive CallPiece where
  | value (argument : WrittenArgument)
  | lambda (literal : Tree)
  | typeArguments (list : Tree)

namespace CallPiece

/-- The node that the piece is about. -/
def tree : CallPiece → Tree
  | .value argument => argument.value
  | .lambda literal => literal
  | .typeArguments list => list

mutual

/-- The pieces that a node after the callee stands for. -/
def listOfTree : Tree → List CallPiece
  | .node kind isNamed span field children =>
    let tree := Tree.node kind isNamed span field children
    if kind = "value_arguments" then (WrittenArgument.listOfTree tree).map .value
    else if kind = "annotated_lambda" then
      ((tree.find? ["lambda_literal"]).map CallPiece.lambda).toList
    else if kind = "lambda_literal" then [.lambda tree]
    else if kind = "type_arguments" then [.typeArguments tree]
    else if kind = "call_suffix" then listAmong children
    else []

/-- The pieces that the named ones of some nodes stand for. -/
def listAmong : List Tree → List CallPiece
  | [] => []
  | first :: rest => (if first.isNamed then listOfTree first else []) ++ listAmong rest

end

mutual

theorem sizeOf_le_of_mem_listOfTree : ∀ {tree : Tree} {piece : CallPiece},
    piece ∈ listOfTree tree → sizeOf piece.tree ≤ sizeOf tree
  | .node kind isNamed span field children, piece, member => by
    unfold listOfTree at member
    dsimp only at member
    split at member
    · simp only [List.mem_map] at member
      obtain ⟨argument, argumentMember, rfl⟩ := member
      exact Nat.le_of_lt (WrittenArgument.sizeOf_lt_of_mem_listOfTree argumentMember)
    · split at member
      · simp only [Option.mem_toList, Option.map_eq_some_iff] at member
        obtain ⟨literal, found, rfl⟩ := member
        exact Tree.sizeOf_find?_le found
      · split at member
        · simp only [List.mem_singleton] at member
          simp [member, CallPiece.tree]
        · split at member
          · simp only [List.mem_singleton] at member
            simp [member, CallPiece.tree]
          · split at member
            · have smaller := sizeOf_lt_of_mem_listAmong member
              simp only [Tree.node.sizeOf_spec]
              omega
            · simp at member

theorem sizeOf_lt_of_mem_listAmong : ∀ {trees : List Tree} {piece : CallPiece},
    piece ∈ listAmong trees → sizeOf piece.tree < sizeOf trees
  | [], piece, member => by simp [listAmong] at member
  | first :: rest, piece, member => by
    simp only [listAmong, List.mem_append] at member
    simp only [List.cons.sizeOf_spec]
    rcases member with member | member
    · split at member
      · have smaller := sizeOf_le_of_mem_listOfTree member
        omega
      · simp at member
    · have smaller := sizeOf_lt_of_mem_listAmong member
      omega

end

end CallPiece

/-! ### Whole calls -/

/-- Where an argument lands in the parameter list of the function. -/
inductive ArgumentSlot where
  | position (index : Nat)
  | named (name : String)
  | last
  deriving Repr, DecidableEq

/-- A call. -/
structure CallParts where
  callee : Tree
  pieces : List CallPiece

namespace CallParts

/-- The parts of a call, the first of its named children being the callee. -/
def ofTree? (tree : Tree) : Option CallParts :=
  match tree.namedChildren with
  | [] => none
  | callee :: rest => some ⟨callee, rest.flatMap CallPiece.listOfTree⟩

/-- The arguments in parentheses. -/
def values (parts : CallParts) : List WrittenArgument :=
  parts.pieces.filterMap fun
    | .value argument => some argument
    | _ => none

/-- The lambdas behind the parentheses. -/
def lambdas (parts : CallParts) : List Tree :=
  parts.pieces.filterMap fun
    | .lambda literal => some literal
    | _ => none

/-- The type arguments, the last list if there are several. -/
def typeArguments? (parts : CallParts) : Option Tree :=
  (parts.pieces.filterMap fun
    | .typeArguments list => some list
    | _ => none).getLast?

/-- The number of arguments, lambdas included. -/
def argumentCount (parts : CallParts) : Nat := parts.values.length + parts.lambdas.length

/-- The slot of the argument at a position in parentheses. -/
def slotOf (content : List Char) (index : Nat) (argument : WrittenArgument) : ArgumentSlot :=
  match argument.name? with
  | some name => .named (Name.unquote (name.trimmedText content))
  | none => .position index

/-- All arguments with their slots, lambdas behind the parentheses last. -/
def arguments (content : List Char) (parts : CallParts) : List (Tree × ArgumentSlot) :=
  (parts.values.zipIdx.map fun entry => (entry.1.value, slotOf content entry.2 entry.1)) ++
    parts.lambdas.map (·, .last)

/-- The identifier at the end of a path, plain or after its dot. -/
def lastIdentifier? (path : Tree) : Option Tree :=
  path.namedChildren.getLast?.bind fun last =>
    if last.isIdentifier then some last
    else if last.kind = "navigation_suffix" then last.children.find? Tree.isIdentifier
    else none

/-- Whether the callee is a path. -/
def isPath (parts : CallParts) : Bool := parts.callee.kind = "navigation_expression"

/-- The simple name of the function, if the callee ends in one. -/
def name? (content : List Char) (parts : CallParts) : Option String :=
  if parts.callee.isIdentifier then some (parts.callee.identifierName content)
  else if parts.isPath then (lastIdentifier? parts.callee).map (Tree.identifierName content)
  else none

/-- The receiver. A callee that is neither a name nor a path is one itself. -/
def receiver? (parts : CallParts) : Option Tree :=
  if parts.callee.isIdentifier then none
  else if parts.isPath then
    match parts.callee.namedChildren with
    | first :: _ :: _ => some first
    | _ => none
  else some parts.callee

/-- The lambda that is the only argument of a call, behind the parentheses or in them without
a name. -/
def onlyLambda? (parts : CallParts) : Option Tree :=
  match parts.values, parts.lambdas with
  | [], [literal] => some literal
  | [⟨none, value⟩], [] => if value.kind = "lambda_literal" then some value else none
  | _, _ => none

/-! ### The parts are smaller than the call -/

theorem sizeOf_lt_of_mem_pieces {tree : Tree} {parts : CallParts} {piece : CallPiece}
    (read : ofTree? tree = some parts) (member : piece ∈ parts.pieces) :
    sizeOf piece.tree < sizeOf tree := by
  unfold ofTree? at read
  split at read
  case h_1 => cases read
  case h_2 callee rest same =>
    cases read
    simp only [List.mem_flatMap] at member
    obtain ⟨node, nodeMember, pieceMember⟩ := member
    have inside : node ∈ tree.namedChildren := by simp [same, nodeMember]
    exact Nat.lt_of_le_of_lt (CallPiece.sizeOf_le_of_mem_listOfTree pieceMember)
      (Tree.sizeOf_lt_of_mem_namedChildren inside)

theorem sizeOf_callee_lt {tree : Tree} {parts : CallParts} (read : ofTree? tree = some parts) :
    sizeOf parts.callee < sizeOf tree := by
  unfold ofTree? at read
  split at read
  case h_1 => cases read
  case h_2 callee rest same =>
    cases read
    exact Tree.sizeOf_lt_of_mem_namedChildren (by simp [same])

theorem sizeOf_lt_of_mem_values {tree : Tree} {parts : CallParts} {argument : WrittenArgument}
    (read : ofTree? tree = some parts) (member : argument ∈ parts.values) :
    sizeOf argument.value < sizeOf tree := by
  simp only [values, List.mem_filterMap] at member
  obtain ⟨piece, pieceMember, same⟩ := member
  split at same
  · cases same
    exact sizeOf_lt_of_mem_pieces read pieceMember
  · cases same

theorem sizeOf_lt_of_mem_lambdas {tree literal : Tree} {parts : CallParts}
    (read : ofTree? tree = some parts) (member : literal ∈ parts.lambdas) :
    sizeOf literal < sizeOf tree := by
  simp only [lambdas, List.mem_filterMap] at member
  obtain ⟨piece, pieceMember, same⟩ := member
  split at same
  · cases same
    exact sizeOf_lt_of_mem_pieces read pieceMember
  · cases same

theorem sizeOf_lt_of_mem_arguments {content : List Char} {tree : Tree} {parts : CallParts}
    {argument : Tree × ArgumentSlot} (read : ofTree? tree = some parts)
    (member : argument ∈ parts.arguments content) : sizeOf argument.1 < sizeOf tree := by
  simp only [arguments, List.mem_append, List.mem_map] at member
  rcases member with ⟨entry, entryMember, rfl⟩ | ⟨literal, literalMember, rfl⟩
  · exact sizeOf_lt_of_mem_values read (List.fst_mem_of_mem_zipIdx entryMember)
  · exact sizeOf_lt_of_mem_lambdas read literalMember

theorem sizeOf_lt_of_receiver? {tree receiver : Tree} {parts : CallParts}
    (read : ofTree? tree = some parts) (found : parts.receiver? = some receiver) :
    sizeOf receiver < sizeOf tree := by
  have calleeSmaller := sizeOf_callee_lt read
  unfold receiver? at found
  split at found
  · cases found
  · split at found
    · split at found
      case h_1 first second rest same =>
        cases found
        have inside := Tree.sizeOf_lt_of_mem_namedChildren
          (show receiver ∈ parts.callee.namedChildren by simp [same])
        omega
      case h_2 => cases found
    · cases found
      exact calleeSmaller

theorem sizeOf_lt_of_onlyLambda? {tree literal : Tree} {parts : CallParts}
    (read : ofTree? tree = some parts) (found : parts.onlyLambda? = some literal) :
    sizeOf literal < sizeOf tree := by
  unfold onlyLambda? at found
  split at found
  case h_1 lambda _ same =>
    cases found
    exact sizeOf_lt_of_mem_lambdas read (by simp [same])
  case h_2 value same _ =>
    split at found
    · cases found
      have member : (⟨none, literal⟩ : WrittenArgument) ∈ parts.values := by simp [same]
      exact sizeOf_lt_of_mem_values read member
    · cases found
  case h_3 => cases found

end CallParts

end SourceCapture
