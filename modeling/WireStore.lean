import WireStore.Bytes
import WireStore.Text.Ascii
import WireStore.Text.Token
import WireStore.Text.Numeral
import WireStore.Text.Utf8
import WireStore.Fault
import WireStore.Error
import WireStore.Key
import WireStore.Stream.Source
import WireStore.Stream.Source.Lemmas
import WireStore.Frame.Limits
import WireStore.Frame.Line
import WireStore.Frame.Payload
import WireStore.Frame.Header
import WireStore.Stream.Writer
import WireStore.Stream.Sink
import WireStore.Stream.Buffered
import WireStore.Frame.Request
import WireStore.Frame.Reply
import WireStore.Frame.Incoming
import WireStore.Allocator
import WireStore.Store
import WireStore.Store.Lemmas
import WireStore.Server.Execution
import WireStore.Client.Verb
import WireStore.Client.Instruction
import WireStore.Address
import WireStore.Server.Config
import WireStore.Stream.Reader
import WireStore.Server.Serving
import WireStore.Server.Connection
import WireStore.Server.Listener
import WireStore.Client.Network
import WireStore.Client.Session
import WireStore.Client.Shell
import WireStore.Loopback.Scripted
import WireStore.Loopback.Served
import WireStore.CommandLine.Argument
import WireStore.CommandLine.Reading
import WireStore.CommandLine.Client
import WireStore.CommandLine.Server
import WireStore.CommandLine.Version
import WireStore.Client.Frontend
import WireStore.Client.Demand
import WireStore.Main
import WireStore.Proofs.Stream.Signals
import WireStore.Proofs.Stream.Chunking
import WireStore.Proofs.Frame.Memory
import WireStore.Proofs.Frame.Stages
import WireStore.Proofs.Frame.Opening
import WireStore.Proofs.Store.Bindings
import WireStore.Proofs.Stream.Sinks
import WireStore.Proofs.Stream.Buffered
import WireStore.Proofs.Text.Written
import WireStore.Proofs.Server.Transcript
import WireStore.Proofs.Frame.Requests
import WireStore.Proofs.Frame.Replies
import WireStore.Proofs.Server.Requests
import WireStore.Proofs.Loopback.Served
import WireStore.Proofs.Client.Refinement
import WireStore.Proofs.Text.Utf8
import WireStore.Proofs.Stream.Taking
import WireStore.Proofs.Frame.Extent
import WireStore.Proofs.Frame.RoundTrip
import WireStore.Proofs.Server.Turns
import WireStore.Proofs.Text.Tokens
import WireStore.Proofs.Frame.Headers
import WireStore.Proofs.Frame.Framing
import WireStore.Proofs.Server.Answers
import WireStore.Proofs.Server.Delivery
import WireStore.Proofs.Client.UserLines
import WireStore.Proofs.Client.Calls
import WireStore.Proofs.Server.Arrivals
import WireStore.Proofs.Server.Callers
import WireStore.Proofs.Server.Boundaries
import WireStore.Proofs.Server.Interleaving
import WireStore.Proofs.Server.Legibility
import WireStore.Proofs.Store.Keys
import WireStore.Proofs.Store.History
import WireStore.Proofs.Frame.Values
import WireStore.Proofs.Client.Alignment
import WireStore.Proofs.Client.Connections
import WireStore.Proofs.Client.Lines
import WireStore.Proofs.Client.Frontends
import WireStore.Proofs.Text.Validity
import WireStore.Proofs.Text.Decimal
import WireStore.Proofs.Frame.Grammar
import WireStore.Proofs.Client.TypedValues
import WireStore.Proofs.Server.Pieces
import WireStore.Proofs.Server.Served
import WireStore.Proofs.Server.Shutdown
import WireStore.Proofs.Stream.Messages
import WireStore.Proofs.Store.Accounts
import WireStore.Proofs.Client.Deeds
import WireStore.Proofs.Client.Answers
import WireStore.Proofs.Frame.LineLimit
import WireStore.Proofs.Frame.Progress
import WireStore.Proofs.Server.Loop
import WireStore.Proofs.Client.ErrorReplies
