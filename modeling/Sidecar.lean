import Sidecar.Proofs.Config.Precedence
import Sidecar.Proofs.Encoder.Polling
import Sidecar.Proofs.Fetching.Framing
import Sidecar.Proofs.Protocol.Order
import Sidecar.Proofs.Transport.Cutting
import Sidecar.Proofs.Queue.Reading
import Sidecar.Proofs.Queue.Slots
import Sidecar.Proofs.Resource.Growing
import Sidecar.Proofs.Resource.RoundTrip
import Sidecar.Proofs.Session.Backpressure
import Sidecar.Proofs.Session.Handover
import Sidecar.Proofs.Session.Independence
import Sidecar.Proofs.Session.Secrecy
import Sidecar.Proofs.Sharing.Announcing
import Sidecar.Proofs.Splitting.Encoding
import Sidecar.Proofs.Splitting.Grouping
import Sidecar.Proofs.Splitting.Readahead
import Sidecar.Proofs.Splitting.Refusal
import Sidecar.Proofs.Splitting.Truncation
import Sidecar.Proofs.Submission.Batches
import Sidecar.Proofs.Wire.Layout
