/-
The capture pass as a fold. What may be captured in a file are its declarations and its
conversions to interfaces, in preorder. Each of them is attempted once, in the state that the
attempts before it have left, until one fails: that failure is the result, and nothing is done
after it. It makes no difference whether the walk through the file ends there, or goes on to the
end of the file with the failure noted.
-/

import SourceCapture.Proofs.Captures.Attempts

namespace SourceCapture

/-! ### What may be captured -/

/-- Something in a file that may be captured. -/
inductive Candidate where
  | declaration (declaration : Declaration)
  | conversion (span : Option Span) (type : TypeRef) (owner : ClassHeader) (operand : Expr)

/-- The candidate that an item is, if it is one. -/
def Item.candidate? : Item → Option Candidate
  | .declaration declared => some (.declaration declared)
  | .expression (.conversion span type owner operand) => some (.conversion span type owner operand)
  | .expression _ => none

/-- The declarations and the conversions of a file in preorder. -/
def SourceFile.candidates (file : SourceFile) : List Candidate :=
  file.items.filterMap Item.candidate?

/-- The attempt to capture a candidate. A conversion is passed over if nothing is captured of its
interface. -/
def Candidate.attempt (document : Document) : Candidate → EmitM (Option Capture)
  | .declaration declared => liftExcept (Capture.declaration? document declared)
  | .conversion span type owner operand =>
    if owner.isCapturable then Capture.block? document span type owner operand else pure none

/-! ### The pass with a note of its failure -/

/-- How far the pass over a file has come. -/
structure Pass where
  captures : List Capture
  /-- The failure that was noted. -/
  failure? : Option CaptureError
  emission : Emission

namespace Pass

/-- The start of a pass. -/
def start (emission : Emission) : Pass := ⟨[], none, emission⟩

/-- What comes out of a pass that ends here. -/
def outcome (pass : Pass) : Except CaptureError (List Capture) × Emission :=
  match pass.failure? with
  | none => (.ok pass.captures, pass.emission)
  | some error => (.error error, pass.emission)

/-- Attempts a candidate, unless an attempt has failed. -/
def attempt (document : Document) (pass : Pass) (candidate : Candidate) : Pass :=
  match pass.failure? with
  | some _ => pass
  | none =>
    match (candidate.attempt document).run pass.emission with
    | (.ok found, after) => ⟨pass.captures ++ found.toList, none, after⟩
    | (.error error, after) => ⟨pass.captures, some error, after⟩

/-- Comes to an item. Other items than candidates are passed over. -/
def meet (document : Document) (pass : Pass) (item : Item) : Pass :=
  match item.candidate? with
  | some candidate => pass.attempt document candidate
  | none => pass

variable {document : Document} {pass : Pass} {candidate : Candidate} {found : Option Capture}
  {error : CaptureError} {after : Emission}

theorem attempt_of_failed (failed : pass.failure? = some error) (candidate : Candidate) :
    pass.attempt document candidate = pass := by
  rw [attempt, failed]

theorem attempt_of_ok (going : pass.failure? = none)
    (ran : (candidate.attempt document).run pass.emission = (.ok found, after)) :
    pass.attempt document candidate = ⟨pass.captures ++ found.toList, none, after⟩ := by
  rw [attempt, going]
  dsimp only
  rw [ran]

theorem attempt_of_error (going : pass.failure? = none)
    (ran : (candidate.attempt document).run pass.emission = (.error error, after)) :
    pass.attempt document candidate = ⟨pass.captures, some error, after⟩ := by
  rw [attempt, going]
  dsimp only
  rw [ran]

theorem foldl_attempt_of_failed (failed : pass.failure? = some error)
    (candidates : List Candidate) : candidates.foldl (attempt document) pass = pass := by
  induction candidates with
  | nil => rfl
  | cons candidate rest inductionHypothesis =>
    rw [List.foldl_cons, attempt_of_failed failed, inductionHypothesis]

theorem foldl_meet (document : Document) (items : List Item) (pass : Pass) :
    items.foldl (meet document) pass =
      (items.filterMap Item.candidate?).foldl (attempt document) pass := by
  rw [List.foldl_filterMap]
  congr 1
  funext pass item
  rw [meet]
  cases item.candidate? with
  | none => rfl
  | some candidate => rfl

/-! ### The pass as a visitor -/

mutual

/-- Visits a declaration and, unless an attempt had failed before, everything inside it. -/
def visitDeclaration (document : Document) (pass : Pass) : Declaration → Pass
  | .classLike header span members initializers =>
    match pass.failure? with
    | some _ => pass
    | none =>
      let pass := pass.attempt document
        (.declaration (.classLike header span members initializers))
      (pass.visitDeclarations document members).visitExprs document initializers
  | .function name fqn annotations receiver parameters span body =>
    match pass.failure? with
    | some _ => pass
    | none =>
      let pass := pass.attempt document
        (.declaration (.function name fqn annotations receiver parameters span body))
      pass.visitExprs document body
  | .property name fqn annotations span body =>
    match pass.failure? with
    | some _ => pass
    | none =>
      let pass := pass.attempt document (.declaration (.property name fqn annotations span body))
      pass.visitExprs document body

/-- Visits declarations one after the other. -/
def visitDeclarations (document : Document) (pass : Pass) : List Declaration → Pass
  | [] => pass
  | first :: rest => (pass.visitDeclaration document first).visitDeclarations document rest

/-- Visits an expression. Only a conversion looks at the note. -/
def visitExpr (document : Document) (pass : Pass) : Expr → Pass
  | .call _ _ receiver arguments =>
    (pass.visitReceiver document receiver).visitExprs document arguments
  | .conversion span type owner operand =>
    match pass.failure? with
    | some _ => pass
    | none => (pass.attempt document (.conversion span type owner operand)).visitExpr document operand
  | .lambda _ body => pass.visitExprs document body
  | .declaration declaration => pass.visitDeclaration document declaration
  | .group _ children => pass.visitExprs document children

/-- Visits a receiver, if there is one. -/
def visitReceiver (document : Document) (pass : Pass) : Option Expr → Pass
  | none => pass
  | some receiver => pass.visitExpr document receiver

/-- Visits expressions one after the other. -/
def visitExprs (document : Document) (pass : Pass) : List Expr → Pass
  | [] => pass
  | first :: rest => (pass.visitExpr document first).visitExprs document rest

end

/-- Visits everything in a source file, with the note of a failure as the only thing that holds
it up. -/
def visitFile (document : Document) (pass : Pass) (file : SourceFile) : Pass :=
  (pass.visitDeclarations document file.declarations).visitExprs document file.statements

theorem foldl_meet_of_failed (failed : pass.failure? = some error) (items : List Item) :
    items.foldl (meet document) pass = pass := by
  rw [foldl_meet, foldl_attempt_of_failed failed]

/-- A visit that looks at the note first is the fold over an item and what is inside it. -/
theorem visit_eq_foldl_meet {item : Item} (taken : item.candidate? = some candidate)
    (inside : List Item) (visit : Pass → Pass)
    (visits : ∀ pass, visit pass = inside.foldl (meet document) pass) (pass : Pass) :
    (match pass.failure? with
      | some _ => pass
      | none => visit (pass.attempt document candidate)) =
      (item :: inside).foldl (meet document) pass := by
  cases going : pass.failure? with
  | some error => rw [foldl_meet_of_failed going]
  | none =>
    dsimp only
    rw [visits, List.foldl_cons, meet, taken]

mutual

theorem visitDeclaration_eq (document : Document) (declaration : Declaration) (pass : Pass) :
    pass.visitDeclaration document declaration =
      declaration.items.foldl (meet document) pass := by
  cases declaration with
  | classLike header span members initializers =>
    rw [visitDeclaration, Declaration.items]
    refine visit_eq_foldl_meet rfl _
      (fun pass => (pass.visitDeclarations document members).visitExprs document initializers)
      (fun pass => ?_) pass
    rw [List.foldl_append, visitDeclarations_eq document members,
      visitExprs_eq document initializers]
  | function name fqn annotations receiver parameters span body =>
    rw [visitDeclaration, Declaration.items]
    exact visit_eq_foldl_meet rfl _ _ (visitExprs_eq document body) pass
  | property name fqn annotations span body =>
    rw [visitDeclaration, Declaration.items]
    exact visit_eq_foldl_meet rfl _ _ (visitExprs_eq document body) pass

theorem visitDeclarations_eq (document : Document) (declarations : List Declaration)
    (pass : Pass) : pass.visitDeclarations document declarations =
      (itemsOfDeclarations declarations).foldl (meet document) pass := by
  cases declarations with
  | nil => rfl
  | cons first rest =>
    rw [visitDeclarations, itemsOfDeclarations, List.foldl_append,
      visitDeclaration_eq document first, visitDeclarations_eq document rest]

theorem visitExpr_eq (document : Document) (expr : Expr) (pass : Pass) :
    pass.visitExpr document expr = expr.items.foldl (meet document) pass := by
  cases expr with
  | call span callee receiver arguments =>
    rw [visitExpr, Expr.items, List.foldl_cons, List.foldl_append,
      visitReceiver_eq document receiver, visitExprs_eq document arguments]
    rfl
  | conversion span type owner operand =>
    rw [visitExpr, Expr.items]
    exact visit_eq_foldl_meet rfl _ _ (visitExpr_eq document operand) pass
  | lambda span body =>
    rw [visitExpr, Expr.items, List.foldl_cons, visitExprs_eq document body]
    rfl
  | declaration declared =>
    rw [visitExpr, Expr.items, List.foldl_cons, visitDeclaration_eq document declared]
    rfl
  | group span children =>
    rw [visitExpr, Expr.items, List.foldl_cons, visitExprs_eq document children]
    rfl

theorem visitReceiver_eq (document : Document) (receiver : Option Expr) (pass : Pass) :
    pass.visitReceiver document receiver =
      (itemsOfReceiver receiver).foldl (meet document) pass := by
  cases receiver with
  | none => rfl
  | some receiver => rw [visitReceiver, itemsOfReceiver, visitExpr_eq document receiver]

theorem visitExprs_eq (document : Document) (exprs : List Expr) (pass : Pass) :
    pass.visitExprs document exprs = (itemsOfExprs exprs).foldl (meet document) pass := by
  cases exprs with
  | nil => rfl
  | cons first rest =>
    rw [visitExprs, itemsOfExprs, List.foldl_append, visitExpr_eq document first,
      visitExprs_eq document rest]

end

theorem visitFile_eq (document : Document) (file : SourceFile) (pass : Pass) :
    pass.visitFile document file = file.candidates.foldl (attempt document) pass := by
  rw [visitFile, visitDeclarations_eq, visitExprs_eq, ← List.foldl_append, foldl_meet]
  rfl

/-! ### The pass against the fold -/

theorem ofItem?_eq (document : Document) (item : Item) :
    Capture.ofItem? document item =
      match item.candidate? with
      | some candidate => candidate.attempt document
      | none => pure none := by
  cases item with
  | declaration declaration => rfl
  | expression expr => cases expr <;> rfl

theorem meet_eq (going : pass.failure? = none) (item : Item) :
    pass.meet document item =
      match (Capture.ofItem? document item).run pass.emission with
      | (.ok found, after) => ⟨pass.captures ++ found.toList, none, after⟩
      | (.error error, after) => ⟨pass.captures, some error, after⟩ := by
  rw [meet, ofItem?_eq]
  cases item.candidate? with
  | none =>
    obtain ⟨captures, failure?, emission⟩ := pass
    cases going
    show Pass.mk captures none emission = ⟨captures ++ [], none, emission⟩
    rw [List.append_nil]
  | some candidate =>
    dsimp only
    rw [attempt, going]

/-- From where a pass has come, the attempts that are left yield what the fold over them
yields. -/
theorem outcome_foldl_meet (going : pass.failure? = none) (items : List Item) :
    ((fun found => pass.captures ++ found.reduceOption) <$>
        items.mapM (Capture.ofItem? document)).run pass.emission =
      (items.foldl (meet document) pass).outcome := by
  induction items generalizing pass with
  | nil =>
    rw [List.mapM_nil, map_pure, List.reduceOption_nil, List.append_nil, List.foldl_nil, outcome,
      going]
    rfl
  | cons item rest inductionHypothesis =>
    rw [List.mapM_cons, map_bind, Work.run_bind, List.foldl_cons, meet_eq going]
    generalize (Capture.ofItem? document item).run pass.emission = result
    obtain ⟨outcome, after⟩ := result
    cases outcome with
    | error error =>
      dsimp only
      rw [foldl_meet, foldl_attempt_of_failed rfl]
      rfl
    | ok found =>
      dsimp only
      rw [← inductionHypothesis rfl, bind_pure_comp, Functor.map_map]
      dsimp only
      have appended : ∀ others : List (Option Capture),
          pass.captures ++ (found :: others).reduceOption =
            pass.captures ++ found.toList ++ others.reduceOption := fun others => by
        cases found with
        | none => rw [List.reduceOption_cons_of_none, Option.toList_none, List.append_nil]
        | some capture =>
          rw [List.reduceOption_cons_of_some, Option.toList_some, List.append_assoc]
          rfl
      simp only [appended]

/-- A pass has failed with what one attempt failed with. Whatever came before that attempt has
succeeded, and nothing was done after it. -/
theorem failure?_foldl_attempt (going : pass.failure? = none) (candidates : List Candidate) :
    (candidates.foldl (attempt document) pass).failure? = some error ↔
      ∃ before failing later, candidates = before ++ failing :: later ∧
        (before.foldl (attempt document) pass).failure? = none ∧
        (failing.attempt document).run (before.foldl (attempt document) pass).emission =
          (.error error, (candidates.foldl (attempt document) pass).emission) ∧
        (candidates.foldl (attempt document) pass).captures =
          (before.foldl (attempt document) pass).captures := by
  constructor
  · intro failed
    induction candidates generalizing pass with
    | nil =>
      rw [List.foldl_nil, going] at failed
      cases failed
    | cons candidate rest inductionHypothesis =>
      obtain ⟨⟨failure | found, after⟩, ran⟩ :
          ∃ result, (candidate.attempt document).run pass.emission = result := ⟨_, rfl⟩
      · rw [List.foldl_cons, attempt_of_error going ran, foldl_attempt_of_failed rfl] at failed ⊢
        cases failed
        exact ⟨[], candidate, rest, rfl, going, ran, rfl⟩
      · have further : (pass.attempt document candidate).failure? = none := by
          rw [attempt_of_ok going ran]
        obtain ⟨before, failing, later, rfl, still, raised, kept⟩ :=
          inductionHypothesis further failed
        exact ⟨candidate :: before, failing, later, rfl, still, raised, kept⟩
  · rintro ⟨before, failing, later, rfl, still, failed, -⟩
    rw [List.foldl_append, List.foldl_cons, attempt_of_error still failed,
      foldl_attempt_of_failed rfl]

end Pass

/-- The captures of a file are those that the attempts at its declarations and conversions yield,
one after the other in preorder, or the error of the first attempt that fails. Nothing is done
after that attempt, also if the rest of the file is visited with the failure noted. -/
theorem capturesOf_inOrder (document : Document) (file : SourceFile) (emission : Emission) :
    let start := Pass.start emission
    let ended := file.candidates.foldl (Pass.attempt document) start
    (capturesOf document file).run emission = ended.outcome ∧
      start.visitFile document file = ended ∧
        ∀ error, ended.failure? = some error ↔
          ∃ before failing later, file.candidates = before ++ failing :: later ∧
            (before.foldl (Pass.attempt document) start).failure? = none ∧
            (failing.attempt document).run (before.foldl (Pass.attempt document) start).emission =
              (.error error, ended.emission) ∧
            ended.captures = (before.foldl (Pass.attempt document) start).captures := by
  intro start ended
  refine ⟨?_, Pass.visitFile_eq document file start, fun error => ?_⟩
  · show _ = (file.candidates.foldl (Pass.attempt document) start).outcome
    rw [SourceFile.candidates, ← Pass.foldl_meet, ← Pass.outcome_foldl_meet rfl, capturesOf_eq]
    rfl
  · exact Pass.failure?_foldl_attempt rfl file.candidates

end SourceCapture
