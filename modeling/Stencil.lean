import Stencil.Fault.Plan
import Stencil.Scenario
import Stencil.Session.Run
import Stencil.Proofs.Loan.Counting
import Stencil.Proofs.Run
import Stencil.Proofs.Render.Conduct
import Stencil.Proofs.Render.AtWork
import Stencil.Proofs.Loan.Sound
import Stencil.Proofs.Render.Reclaim
import Stencil.Proofs.Scope.Copy
import Stencil.Proofs.Render.Handover
import Stencil.Proofs.Value.Copying
import Stencil.Proofs.Value.Copy
import Stencil.Proofs.Scope.Faithful
import Stencil.Proofs.Value.Drift
import Stencil.Proofs.Render.Respect
import Stencil.Proofs.Render.Position
import Stencil.Proofs.Render.OnLoan
import Stencil.Proofs.Render.Isolation
import Stencil.Proofs.Handle.Service
import Stencil.Proofs.Scope.Evolve
import Stencil.Proofs.Render.Errand
import Stencil.Proofs.Render.Tame
import Stencil.Proofs.Render.Fit
import Stencil.Proofs.Render.Discipline
import Stencil.Proofs.Render.Alike
import Stencil.Proofs.Render.Unreached
import Stencil.Proofs.Value.Mirror
import Stencil.Proofs.Value.Reading
import Stencil.Proofs.Value.Filtering
import Stencil.Proofs.Value.Tracking
import Stencil.Proofs.Scope.Mirror
import Stencil.Proofs.Render.Recipe
import Stencil.Proofs.Value.Plain
import Stencil.Proofs.Render.Echo
import Stencil.Proofs.Render.Chorus
import Stencil.Proofs.Render.Following
import Stencil.Proofs.Render.Unseen
import Stencil.Proofs.Tree.RoundTrip
import Stencil.Proofs.Source.Layout
import Stencil.Proofs.Source.Written
import Stencil.Proofs.Tree.Refused
import Stencil.Proofs.Render.Wrapped
import Stencil.Proofs.Render.Lenient
import Stencil.Proofs.Tree.Bounds
import Stencil.Proofs.Render.Bookkeeping
import Stencil.Proofs.Scope.Renumber
import Stencil.Proofs.Render.Truthful
import Stencil.Proofs.Render.Snapshot
import Stencil.Proofs.Value.Settle
import Stencil.Proofs.Handle.Retrieval
import Stencil.Proofs.Handle.Asking
import Stencil.Proofs.Handle.Waiting
import Stencil.Proofs.Handle.Locks
import Stencil.Proofs.Tree.Dotted
import Stencil.Proofs.Value.Segment
import Stencil.Proofs.Render.Forgiven
import Stencil.Proofs.Render.Quoted
import Stencil.Proofs.Scope.Views
import Stencil.Proofs.Scope.Balance
import Stencil.Proofs.Scope.Calls
import Stencil.Proofs.Source.Caret
import Stencil.Proofs.Fault.Snippet
