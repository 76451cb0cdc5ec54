/-
The capture pass over one file. Two things are captured: a lambda that is converted to a
capturable interface, whose text is that between its braces and for which a fragment may be
emitted, and a declaration with exactly one annotation that asks for its source, whose text
is what follows that annotation. The pass meets them in preorder and ends at the first
failure.
-/

import SourceCapture.Emitter
import SourceCapture.Import
import SourceCapture.Source

namespace SourceCapture

/-- What was captured. -/
inductive CaptureKind where
  | block
  | declaration
  deriving Repr, DecidableEq, Inhabited

namespace CaptureKind

/-- The kind for a reader. -/
def label : CaptureKind → String
  | .block => "block"
  | .declaration => "declaration"

end CaptureKind

/-- One captured block or declaration. -/
structure Capture where
  kind : CaptureKind
  /-- The interface of a block, or the declaration. -/
  subject : String
  source : Source
  imports : List String := []
  converters : Option Converters := none
  parameterTypes : List String := []
  fragment : Option Fragment := none
  deriving Repr, DecidableEq

/-- A result that needs neither files nor an emitter. -/
def liftExcept {Result : Type} : Except CaptureError Result → EmitM Result
  | .ok result => pure result
  | .error error => throw error

namespace Capture

/-- What is known of a block before anything is emitted for it. -/
structure Block where
  request : FragmentRequest
  location : Location
  deriving Repr, DecidableEq

/-- Reads a converted lambda off its file: converters, imports, text, location and types. -/
def readBlock (document : Document) (span : Span) (type : TypeRef) (converters : Converters)
    (operand : Expr) : Except CaptureError Block := do
  let excerpt ← document.excerpt (← document.body span)
  let location ← document.location excerpt.trimmed
  return {
    request := {
      text := String.ofList excerpt.text
      imports := importsOf operand
      converters := converters
      parameterTypes := type.arguments.map TypeRef.display
      location := s!"{document.fileName}:{location.start.line}" }
    location := location }

/-- The capture of a block with the fragment that was emitted for it, if any. -/
def ofBlock (owner : ClassHeader) (block : Block) (fragment : Option Fragment) : Capture where
  kind := .block
  subject := owner.fqn
  source := ⟨block.location, block.request.text, (fragment.map (·.artifact)).getD ""⟩
  imports := block.request.imports
  converters := some block.request.converters
  parameterTypes := block.request.parameterTypes
  fragment := fragment

/-- Captures a lambda converted to a capturable interface. One without a place is passed
over once its converters are known to be constants. -/
def block? (document : Document) (span : Option Span) (type : TypeRef) (owner : ClassHeader)
    (operand : Expr) : EmitM (Option Capture) := do
  let converters ← liftExcept (Converters.ofInterface document owner)
  match span with
  | none => return none
  | some span =>
    let block ← liftExcept (readBlock document span type converters operand)
    return some (ofBlock owner block (← Emission.emit? block.request))

/-- Captures a declaration that asks for it with exactly one annotation. One whose place or
whose annotation's place is not known is passed over. -/
def declaration? (document : Document) (declaration : Declaration) :
    Except CaptureError (Option Capture) :=
  match declaration.annotations.filter (·.marks .captureSource) with
  | [note] =>
    match note.span, declaration.span with
    | some annotated, some declared => do
      let excerpt ← document.excerpt ⟨annotated.stop, declared.stop⟩
      let location ← document.location excerpt.trimmed
      return some {
        kind := .declaration
        subject := declaration.fqn
        source := ⟨location, String.ofList excerpt.text, ""⟩ }
    | _, _ => .ok none
  | _ => .ok none

/-- What the pass takes of one item. -/
def ofItem? (document : Document) : Item → EmitM (Option Capture)
  | .declaration declaration => liftExcept (declaration? document declaration)
  | .expression (.conversion span type owner operand) =>
    if owner.isCapturable then block? document span type owner operand else return none
  | .expression _ => return none

/-- What is done for an item: a declaration is looked at, the block of a conversion is read, or
nothing is captured. -/
theorem ofItem?_cases (document : Document) (item : Item) :
    (∃ declaration, item = .declaration declaration ∧
      ofItem? document item = liftExcept (declaration? document declaration)) ∨
    (∃ span type owner operand, item = .expression (.conversion span type owner operand) ∧
      ofItem? document item = block? document span type owner operand) ∨
    ofItem? document item = pure none := by
  cases item with
  | declaration declaration => exact .inl ⟨declaration, rfl, rfl⟩
  | expression expr =>
    cases expr with
    | conversion span type owner operand =>
      rw [ofItem?]
      split
      · exact .inr (.inl ⟨span, type, owner, operand, rfl, rfl⟩)
      · exact .inr (.inr rfl)
    | call | lambda | declaration | group => exact .inr (.inr rfl)

/-- Adds what an item yields to the captures taken so far. -/
def record (document : Document) (item : Item) : StateT (List Capture) EmitM Unit := do
  match ← ofItem? document item with
  | some capture => modify (· ++ [capture])
  | none => return

end Capture

/-- The captures of a file in preorder, or the first failure. -/
def capturesOf (document : Document) (file : SourceFile) : EmitM (List Capture) := do
  let (_, captures) ← (file.walk (Capture.record document)).run []
  return captures

end SourceCapture
