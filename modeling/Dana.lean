import Dana.Main
import Dana.Proofs.Agreement
import Dana.Proofs.Blame
import Dana.Proofs.Internal
import Dana.Proofs.Locality
import Dana.Proofs.RoundTrip
import Dana.Proofs.Origin
import Dana.Proofs.Wrapping
import Dana.Proofs.Jump
import Dana.Proofs.WellFormed
import Dana.Proofs.Parallel
import Dana.Proofs.Rewriting
import Dana.Proofs.Simulation
import Dana.Proofs.Erasure
import Dana.Proofs.Passing
import Dana.Proofs.Transient
import Dana.Proofs.Arguments
import Dana.Proofs.Layout
import Dana.Proofs.Output
import Dana.Proofs.Replay
import Dana.Proofs.Journal
import Dana.Proofs.Grouping
import Dana.Proofs.Indices
import Dana.Proofs.Enclosing
import Dana.Proofs.Declaring
import Dana.Proofs.ByteOrder
import Dana.Proofs.Reordering
import Dana.Proofs.TypeText
