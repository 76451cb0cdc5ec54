import SourceCapture.Main
import SourceCapture.Proofs.Annotations.Arguments
import SourceCapture.Proofs.Annotations.Converters
import SourceCapture.Proofs.Captures.Attached
import SourceCapture.Proofs.Captures.Blocks
import SourceCapture.Proofs.Captures.InOrder
import SourceCapture.Proofs.Captures.RefusedArguments
import SourceCapture.Proofs.Captures.SecondRun
import SourceCapture.Proofs.Captures.Totals
import SourceCapture.Proofs.Captures.WithoutFragments
import SourceCapture.Proofs.Constants.Complete
import SourceCapture.Proofs.Constants.Expressions
import SourceCapture.Proofs.Files.Exclusions
import SourceCapture.Proofs.Files.RelativePaths
import SourceCapture.Proofs.Fragments.Directory
import SourceCapture.Proofs.Fragments.Units
import SourceCapture.Proofs.Headers.Functions
import SourceCapture.Proofs.Headers.Parameters
import SourceCapture.Proofs.Headers.QuotedNames
import SourceCapture.Proofs.Headers.Supertypes
import SourceCapture.Proofs.Imports
import SourceCapture.Proofs.Loading
import SourceCapture.Proofs.LocationGrammar
import SourceCapture.Proofs.Lowering.Comments
import SourceCapture.Proofs.Lowering.InterfaceCalls
import SourceCapture.Proofs.Lowering.NamedClasses
import SourceCapture.Proofs.Lowering.Nesting
import SourceCapture.Proofs.Lowering.Overloads
import SourceCapture.Proofs.Lowering.ReorderedArguments
import SourceCapture.Proofs.Offsets
import SourceCapture.Proofs.Text.Balanced
import SourceCapture.Proofs.Text.LineEnds
import SourceCapture.Proofs.Text.StoredText
import SourceCapture.Proofs.Types.Displayed
import SourceCapture.Proofs.Types.Meaning
import SourceCapture.Text.Utf8
