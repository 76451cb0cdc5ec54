/-
A span is a range of byte offsets into a text. Nothing forces its two ends into
order: a reversed span is a value like any other, it only covers no bytes, and
the operations that cut a text at a span refuse it.
-/

namespace SourceCapture

/-- The bytes from `start` up to, and without, `stop`. -/
structure Span where
  start : Nat := 0
  stop : Nat := 0
  deriving Repr, DecidableEq, Inhabited

namespace Span

/-- The number of bytes covered, zero for a reversed span. -/
def length (span : Span) : Nat := span.stop - span.start

/-- A span that covers no bytes. -/
def isEmpty (span : Span) : Bool := span.stop ≤ span.start

theorem isEmpty_iff_length_eq_zero (span : Span) : span.isEmpty ↔ span.length = 0 := by
  simp only [isEmpty, length, decide_eq_true_eq]
  omega

end Span

end SourceCapture
