import Lisp.Main
import Lisp.Symbol.Table
import Lisp.Proofs.Evaluation.Frames
import Lisp.Proofs.Evaluation.Depth
import Lisp.Proofs.Evaluation.Repeat
import Lisp.Proofs.Reader.RoundTrip
import Lisp.Proofs.Repl.Dialogue
import Lisp.Proofs.Reader.Depth
import Lisp.Proofs.Heap.WellFormed
import Lisp.Proofs.Evaluation.Log
import Lisp.Proofs.Value.Equality
import Lisp.Proofs.Symbol.Interning
import Lisp.Proofs.Error
import Lisp.Proofs.Evaluation.Origin
import Lisp.Proofs.Evaluation.Context
import Lisp.Proofs.Reader.Progress
import Lisp.Proofs.Evaluation.Nesting
import Lisp.Proofs.Heap.Scope
import Lisp.Proofs.Heap.Listing
import Lisp.Proofs.Evaluation.Composition
import Lisp.Proofs.Repl.Unfinished
import Lisp.Proofs.Operator.Arithmetic
import Lisp.Proofs.Operator.Division
import Lisp.Proofs.Heap.Parameters
import Lisp.Proofs.Evaluation.Choice
import Lisp.Proofs.Reader.CaseFolding
import Lisp.Proofs.Evaluation.DirectCall
import Lisp.Proofs.Reader.Location
import Lisp.Proofs.Repl.Listing
import Lisp.Proofs.Token.Requests
