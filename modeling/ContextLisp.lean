import ContextLisp.Layout
import ContextLisp.Proofs.Comparison
import ContextLisp.Proofs.Evaluation.Termination
import ContextLisp.Proofs.Reading.FirstForm
import ContextLisp.Proofs.Session.Blame
import ContextLisp.Proofs.Session.Failures
import ContextLisp.Proofs.Session.PrintedFunctions
import ContextLisp.Proofs.Session.Reachable
import ContextLisp.Proofs.Session.RootNames
import ContextLisp.Proofs.Session.Sequence
import ContextLisp.Proofs.Shadowing
import ContextLisp.Session
import ContextLisp.Proofs.Layout.Bounded
import ContextLisp.Proofs.Layout.ReadBack
import ContextLisp.Proofs.Layout.OneLine
import ContextLisp.Proofs.Layout.Lines
import ContextLisp.Proofs.Layout.Colours
import ContextLisp.Proofs.Session.FirstOrder
import ContextLisp.Proofs.Reading.Descent
import ContextLisp.Proofs.Reading.Streams
