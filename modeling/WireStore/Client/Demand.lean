import WireStore.Client.Shell

/-!
# What a line asks of the network

A line asks at most one thing of the network: to dial a host, or to exchange
one request for a reply. `Session.demand` names it without doing it, so that a
program can see to it first and hand what came of it to the session: a
`Recording` answers a session with what was seen.
-/

namespace WireStore

/-- What carrying out a line takes. -/
inductive Demand where
  | nothing
  | dial (host : String) (port : UInt16)
  /-- These bytes are to be sent, and a reply to be awaited. -/
  | exchange (bytes : Bytes)
  deriving DecidableEq, Repr

namespace Session

variable {ν : Type}

/-- What a line asks of the network. -/
def demand (session : Session ν) (line : Bytes) : Demand :=
  match Instruction.parse line with
  | .ok (some (.connect host port)) => if session.isConnected then .nothing else .dial host port
  | .ok (some (.request content)) =>
    if session.isConnected then .exchange content.encode else .nothing
  | _ => .nothing

end Session

/-- What the network was seen to do. -/
structure Recording where
  /-- The hosts a name stood for. -/
  hosts : List Host := []
  /-- The address that accepted a connection. -/
  reached : Option Address := none
  /-- What came back for what was sent. -/
  answer : Except Fault Source := .ok .ended

instance : Network Recording where
  lookUp recording _ := recording.hosts
  dial recording address :=
    (if recording.reached = some address then some .ended else none, recording)
  send recording _ := (recording.answer, recording)
  hangUp recording := recording

namespace Reply

/-- Holds of bytes that begin with everything a reply consists of, or with
something that can become none, so that there is nothing to wait for. -/
def isSettled (alloc : Allocator) (limits : Limits) (source : Source) (awaiting : Fault) : Bool :=
  match (read alloc limits (source ++ .fault awaiting .ended)).1 with
  | .error (.io reason) => reason ≠ awaiting
  | _ => true

end Reply

end WireStore
