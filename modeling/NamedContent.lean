import NamedContent.Config.Toml
import NamedContent.Flow.Interleaving
import NamedContent.Interest.Wire
import NamedContent.Object.Display
import NamedContent.Session.Basic
import NamedContent.Proofs.Name.Versions
import NamedContent.Proofs.Stream.Segmentation
import NamedContent.Proofs.Stream.Assembly
import NamedContent.Proofs.Interest.Selection
import NamedContent.Proofs.Flow.NoLostAnswer
import NamedContent.Proofs.Stream.History
import NamedContent.Proofs.Node.Parts
import NamedContent.Proofs.Forwarder.Carrying
import NamedContent.Proofs.Node.Offering
import NamedContent.Proofs.Node.Publishing
import NamedContent.Proofs.Object.Operations
import NamedContent.Proofs.Object.Sharing
import NamedContent.Proofs.Action
import NamedContent.Proofs.Face.Calls
import NamedContent.Proofs.Stream.Respecting
import NamedContent.Proofs.Node.Agreement
import NamedContent.Proofs.Node.CutShort
import NamedContent.Proofs.Object.FailedSave
import NamedContent.Proofs.Action.Keeping
import NamedContent.Proofs.Stream.Recording
import NamedContent.Proofs.Stream.Termination
import NamedContent.Proofs.Node.Namespaces
import NamedContent.Proofs.Node.Minting
import NamedContent.Proofs.Object.Atomicity
import NamedContent.Proofs.Object.Growth
import NamedContent.Proofs.Forwarder.Deliveries
import NamedContent.Proofs.Flow.Traces
import NamedContent.Proofs.Flow.Ledger
import NamedContent.Proofs.Flow.Bookkeeping
import NamedContent.Proofs.Flow.Balance
import NamedContent.Proofs.Forwarder.Registrations
import NamedContent.Proofs.Flow.Loss
import NamedContent.Proofs.Flow.Copies
import NamedContent.Proofs.Flow.Standing
import NamedContent.Proofs.Node.Controllers
import NamedContent.Proofs.Forwarder.Turns
import NamedContent.Proofs.Forwarder.Waiting
import NamedContent.Proofs.Forwarder.Subscriptions
import NamedContent.Proofs.Forwarder.Storing
import NamedContent.Proofs.Cbor.Reading
import NamedContent.Proofs.Content.Wire
import NamedContent.Proofs.Interest.Wire
import NamedContent.Proofs.Signing.Coverage
import NamedContent.Proofs.Name.Minting
import NamedContent.Proofs.Node.Holding
import NamedContent.Proofs.Action.Ensuring
import NamedContent.Proofs.Stream.Naming
import NamedContent.Proofs.Stream.Steps
import NamedContent.Proofs.Stream.Course
import NamedContent.Proofs.Stream.Integrity
import NamedContent.Proofs.Stream.Answers
import NamedContent.Proofs.Object.NewVersions
import NamedContent.Proofs.Flow.Buffer
import NamedContent.Proofs.Node.Untroubled
import NamedContent.Proofs.Object.Saves
import NamedContent.Proofs.Object.Outcomes
import NamedContent.Proofs.Object.Coherence
import NamedContent.Proofs.Object.LocalFailures
import NamedContent.Proofs.Object.BoundNames
import NamedContent.Proofs.Flow.Fitting
import NamedContent.Proofs.Flow.Held
import NamedContent.Proofs.Face.Attempts
import NamedContent.Proofs.Node.Passing
import NamedContent.Proofs.Node.Rescheduling
import NamedContent.Proofs.Node.Retrying
import NamedContent.Proofs.Name.Escaping
import NamedContent.Proofs.Name.Uri
import NamedContent.Proofs.Name.SegmentIndices
import NamedContent.Proofs.Name.Layers
import NamedContent.Proofs.Stream.VersionOrder
import NamedContent.Proofs.Stream.Numbering
import NamedContent.Proofs.Time.Conversion
