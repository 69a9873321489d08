import Sexp.Batch
import Sexp.Expr.Display
import Sexp.Expr.Json
import Sexp.Session
import Sexp.Token.Json
import Sexp.Proofs.Completion
import Sexp.Proofs.Partition
import Sexp.Proofs.Rereading
import Sexp.Proofs.Resumption
import Sexp.Proofs.Separation
import Sexp.Proofs.Appending
import Sexp.Proofs.Sources
import Sexp.Proofs.Lookup
import Sexp.Proofs.Places
import Sexp.Proofs.DecimalReading
import Sexp.Proofs.JsonPart
import Sexp.Proofs.JsonText
import Sexp.Proofs.JsonRoundTrip
import Sexp.Proofs.Stream
import Sexp.Proofs.Recoding
import Sexp.Proofs.Pool
import Sexp.Proofs.Rendering
import Sexp.Proofs.LiteralGrammar
import Sexp.Proofs.NumberLexeme
import Sexp.Proofs.NumberText
import Sexp.Proofs.Worth
import Sexp.Proofs.BareNumeral
import Sexp.Proofs.Unquoting
import Sexp.Proofs.DisplayLength
import Sexp.Proofs.TokenJson
import Sexp.Proofs.NumberMessage
import Sexp.Proofs.Progress
