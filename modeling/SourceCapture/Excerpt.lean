/-
Cutting a captured range out of a text. An excerpt is the text of the range without its
common indentation and without white space at its ends, together with the range that is
left when the white space at its ends is taken off. The body of a block is what stands
between its outermost braces.
-/

import SourceCapture.Span
import SourceCapture.Text.Blank
import SourceCapture.Text.Bytes
import SourceCapture.Text.Indent

namespace SourceCapture

/-- A span that does not fit the text it is meant for, which takes `length` bytes. -/
structure SpanError where
  start : Nat
  stop : Nat
  length : Nat
  deriving Repr, DecidableEq

namespace SpanError

/-- The wording of the error. -/
def message (error : SpanError) : String :=
  s!"span {error.start}..{error.stop} is out of bounds for a file of {error.length} bytes"

/-- The error of a span in a text. -/
def ofSpan (content : List Char) (span : Span) : SpanError :=
  ⟨span.start, span.stop, Text.byteLength content⟩

end SpanError

/-- The normalized text of a range, and the range without white space at its ends. -/
structure Excerpt where
  text : List Char
  trimmed : Span
  deriving Repr, DecidableEq

namespace Excerpt

/-- The text as it is stored: no common indentation, no white space at the ends. -/
def normalize (text : List Char) : List Char := Text.trim (Text.trimIndent text)

/-- The span that a slice covers without the white space at its ends, when the slice starts
at `start`. A slice of white space leaves the empty span at its start. -/
def trimmedSpan (start : Nat) (slice : List Char) : Span :=
  let ended := Text.trimEnd slice
  let stop := start + Text.byteLength ended
  ⟨stop - Text.byteLength (Text.trimStart ended), stop⟩

/-- The excerpt of a range of a text. -/
def ofSpan (content : List Char) (span : Span) : Except SpanError Excerpt :=
  match Text.slice? content span with
  | some slice => .ok ⟨normalize slice, trimmedSpan span.start slice⟩
  | none => .error (.ofSpan content span)

end Excerpt

/-! ### The range between braces -/

/-- The span between the first opening and the last closing brace of a range. The end moves
back to just after the last closing brace, then the start moves forward to the first
opening brace; where both braces are left, they are taken off. A range without such a pair
leaves an empty span. -/
def bodySpan (content : List Char) (span : Span) : Except SpanError Span :=
  if span.stop < span.start || Text.byteLength content < span.stop then
    .error (.ofSpan content span)
  else
    let inside := (Text.charsFrom 0 content).filter fun entry =>
      span.start ≤ entry.1 && entry.1 < span.stop
    let closed := (inside.reverse.dropWhile (·.2 != '}')).reverse
    let stop := match closed.getLast? with
      | some (offset, _) => offset + 1
      | none => span.start
    let start := match closed.dropWhile (·.2 != '{') with
      | (offset, _) :: _ => offset
      | [] => stop
    if start + 1 < stop then .ok ⟨start + 1, stop - 1⟩ else .ok ⟨start, stop⟩

end SourceCapture
