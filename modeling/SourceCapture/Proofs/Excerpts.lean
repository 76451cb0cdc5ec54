/-
Cutting at spans that fit their text. Neither taking an excerpt nor looking for the braces of
a block nor turning the ends into positions can go wrong there, and the spans that come out
fit the text again.
-/

import SourceCapture.CaptureError
import SourceCapture.Proofs.Braces

namespace SourceCapture

namespace Excerpt

/-- The part of a slice without white space at its ends splits the text as well. -/
theorem splits_trimmedSpan {content left middle right head core tail : List Char} {span : Span}
    (splits : Text.Splits content span left middle right)
    (trims : Text.Trims middle head core tail) :
    Text.Splits content (trimmedSpan span.start middle) (left ++ head) core (tail ++ right) := by
  have bytes : Text.byteLength (Text.trimEnd middle) =
      Text.byteLength head + Text.byteLength core := by
    rw [trims.trimEnd_eq, Text.byteLength_append]
  refine ⟨?_, ?_, ?_⟩
  · rw [splits.split, trims.split, List.append_assoc, List.append_assoc, List.append_assoc]
  · rw [trimmedSpan, trims.trimStart_trimEnd, Text.byteLength_append, splits.start]
    dsimp only
    omega
  · rw [trimmedSpan, Text.byteLength_append, splits.start]
    dsimp only
    omega

/-- The excerpt of a span that fits the text has a range that fits it too. -/
theorem exists_ofSpan {content : List Char} {span : Span} (fits : span.Fits content) :
    ∃ excerpt, ofSpan content span = .ok excerpt ∧ excerpt.trimmed.Fits content := by
  obtain ⟨left, middle, right, splits⟩ := Text.exists_splits_of_fits fits
  obtain ⟨head, core, tail, trims⟩ := Text.exists_trims middle
  exact ⟨⟨normalize middle, trimmedSpan span.start middle⟩, by rw [ofSpan, splits.slice?],
    (splits_trimmedSpan splits trims).fits⟩

end Excerpt

/-- The range between the braces of a span that fits the text fits it too. -/
theorem exists_bodySpan {content : List Char} {span : Span} (fits : span.Fits content) :
    ∃ inner, bodySpan content span = .ok inner ∧ inner.Fits content := by
  obtain ⟨inner, found, body⟩ :=
    exists_hasBody fits.ordered (Text.le_byteLength_of_isBoundary fits.stop)
  exact ⟨inner, found, body.fits fits.start⟩

/-! ### Documents -/

namespace Document

variable (document : Document) {span : Span}

theorem exists_position {offset : Nat} (boundary : Text.isBoundary document.content offset = true) :
    ∃ position, document.position offset = .ok position := by
  rw [position, if_pos boundary]
  exact ⟨_, rfl⟩

/-- Where both ends of a range have a position, its location is checked by these alone. -/
theorem location_of_positions {start stop : Position}
    (atStart : document.position span.start = .ok start)
    (atStop : document.position span.stop = .ok stop) :
    document.location span =
      (Location.ofParts document.relativePath start stop).mapError (.location document.path) := by
  rw [location, atStart, atStop]
  rfl

theorem exists_excerpt (fits : span.Fits document.content) :
    ∃ excerpt, document.excerpt span = .ok excerpt ∧ excerpt.trimmed.Fits document.content := by
  obtain ⟨excerpt, same, trimmed⟩ := Excerpt.exists_ofSpan fits
  exact ⟨excerpt, by rw [Document.excerpt, same, Except.mapError], trimmed⟩

theorem exists_body (fits : span.Fits document.content) :
    ∃ inner, document.body span = .ok inner ∧ inner.Fits document.content := by
  obtain ⟨inner, same, innerFits⟩ := exists_bodySpan fits
  exact ⟨inner, by rw [body, same, Except.mapError], innerFits⟩

end Document

end SourceCapture
