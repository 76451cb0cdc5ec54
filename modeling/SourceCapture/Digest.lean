/-
Fragments are named by their content, so that equal texts share one file and a rerun finds
the files of the run before.
-/

import SourceCapture.Digest.Radix
import SourceCapture.Digest.Sha256

namespace SourceCapture

/-- The name of a fragment: the SHA-256 digest of its text, in signed radix 32. -/
def fragmentHash (text : String) : String :=
  String.ofList (Radix.encode (Sha256.digest text.toUTF8.toList))

end SourceCapture
