import PackRpc.Binary.Arithmetic
import PackRpc.Binary.Numeral
import PackRpc.Descriptor.Parsing
import PackRpc.Static.Conversion
import PackRpc.Value.Text
import PackRpc.Json.Argument
import PackRpc.Command.Exit
import PackRpc.Command.Line
import PackRpc.Command.Output
import PackRpc.Command.Run
import PackRpc.Kvs.Service
import PackRpc.Loopback.Peer
import PackRpc.Loopback.Direct
import PackRpc.Loopback.Streams
import PackRpc.Main
import PackRpc.Proofs.Packed.Marker
import PackRpc.Proofs.Packed.Measure
import PackRpc.Proofs.Packed.Reader
import PackRpc.Proofs.Packed.Spelling
import PackRpc.Proofs.Packed.RoundTrip
import PackRpc.Proofs.Packed.Buffer
import PackRpc.Proofs.Packed.Narrowing
import PackRpc.Proofs.Descriptor.RoundTrip
import PackRpc.Proofs.Message.Carriage
import PackRpc.Proofs.Stream.Reader
import PackRpc.Proofs.Stream.Writer
import PackRpc.Proofs.Server.Connection
import PackRpc.Proofs.Transport.Session
import PackRpc.Proofs.Client.Line
import PackRpc.Proofs.Stream.Transcript
import PackRpc.Proofs.Transport.Dialogue
import PackRpc.Proofs.Descriptor.Stability
import PackRpc.Proofs.Binary.Exact
import PackRpc.Proofs.Static.Typing
import PackRpc.Proofs.Static.Carriage
import PackRpc.Proofs.Static.Recovery
import PackRpc.Proofs.Static.Acceptance
import PackRpc.Proofs.Static.RoundTrip
import PackRpc.Proofs.Client.Static
import PackRpc.Proofs.Stream.Overrun
import PackRpc.Proofs.Stream.Exchange
import PackRpc.Proofs.Server.Traffic
import PackRpc.Proofs.Kvs.Machine
import PackRpc.Proofs.Kvs.Refinement
import PackRpc.Proofs.Client.Invocation
import PackRpc.Proofs.Descriptor.Grammar
import PackRpc.Proofs.Descriptor.Printing
import PackRpc.Proofs.Descriptor.Naming
import PackRpc.Proofs.Transport.Framing
import PackRpc.Proofs.OrderedMap
import PackRpc.Proofs.Text.Integer
import PackRpc.Proofs.Json.Rendering
import PackRpc.Proofs.Json.Parsing
import PackRpc.Proofs.Json.Untyped
import PackRpc.Proofs.Json.Argument
import PackRpc.Proofs.Json.Feedback
import PackRpc.Proofs.Packed.Survey
import PackRpc.Proofs.Descriptor.Culprit
import PackRpc.Proofs.Stream.Frames
import PackRpc.Proofs.Stream.Refusal
import PackRpc.Proofs.Packed.Minimal
import PackRpc.Proofs.Binary.Number
import PackRpc.Proofs.Value.Equivalence
import PackRpc.Proofs.Descriptor.Legible
import PackRpc.Proofs.Json.Members
import PackRpc.Proofs.Message.Envelope
import PackRpc.Proofs.Message.Outcome
import PackRpc.Proofs.Transport.Deadline
import PackRpc.Proofs.Json.Forms
import PackRpc.Proofs.Descriptor.Offsets
import PackRpc.Proofs.Descriptor.Cursor
import PackRpc.Proofs.Packed.Gauge
