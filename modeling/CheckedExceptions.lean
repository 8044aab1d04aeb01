import CheckedExceptions.Main
import CheckedExceptions.Proofs.Accounting
import CheckedExceptions.Proofs.Exempt
import CheckedExceptions.Proofs.Frames
import CheckedExceptions.Proofs.Independent
import CheckedExceptions.Proofs.Reported
import CheckedExceptions.Proofs.Syntax.RoundTrip
import CheckedExceptions.Proofs.Typing.AnyOrder
import CheckedExceptions.Proofs.Typing.CatchAll
import CheckedExceptions.Proofs.Typing.Lexical
import CheckedExceptions.Proofs.Typing.Nearest
import CheckedExceptions.Proofs.Undecided
import CheckedExceptions.Proofs.Typing.Escapes
import CheckedExceptions.Proofs.Extraction
import CheckedExceptions.Proofs.Syntax.Outlines
import CheckedExceptions.Proofs.Syntax.Placement
import CheckedExceptions.Proofs.Typing.SourceOrder
