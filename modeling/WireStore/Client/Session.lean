import WireStore.Client.Network
import WireStore.Frame.Reply
import WireStore.Frame.Request

/-!
# Sessions

A session is a client's view of at most one connection. A request is sent and
its reply awaited; after a transport error the connection is given up, while an
error that leaves the stream between two replies keeps it.
-/

namespace WireStore

/-- An open connection. -/
structure Link where
  peer : Address
  /-- What has arrived and has not been read. -/
  incoming : Source

/-- What a client has written for its peer: a flush sends it. -/
structure Outgoing (ν : Type) where
  network : ν
  /-- What has been written and not been sent. -/
  pending : Bytes := []
  /-- What has arrived with what was sent. -/
  arrived : Source := .ended

/-- A client's view of at most one connection. -/
structure Session (ν : Type) where
  network : ν
  limits : Limits := {}
  alloc : Allocator := .unlimited
  link : Option Link := none

instance {ν : Type} [Network ν] : Writer (Outgoing ν) where
  writeAll outgoing bytes := (.ok (), { outgoing with pending := outgoing.pending ++ bytes })
  flush outgoing :=
    match Network.send outgoing.network outgoing.pending with
    | (.ok arrived, network) => (.ok (), ⟨network, [], outgoing.arrived ++ arrived⟩)
    | (.error reason, network) => (.error reason, { outgoing with network })

namespace Session

variable {ν : Type} [Network ν]

def isConnected (session : Session ν) : Bool := session.link.isSome

/-- The address of the connected server. -/
def peer? (session : Session ν) : Option Address := session.link.map Link.peer

/-- Dials addresses until one answers. -/
def dialFirst : ν → List Address → Option Link × ν
  | network, [] => (none, network)
  | network, address :: others =>
    match Network.dial network address with
    | (some incoming, after) => (some ⟨address, incoming⟩, after)
    | (none, after) => dialFirst after others

/-- Opens a connection to the first address of a host that answers. -/
def connect (session : Session ν) (host : String) (port : UInt16) :
    Except Error Address × Session ν :=
  if session.isConnected then (.error .alreadyConnected, session)
  else
    let addresses := (Network.lookUp session.network host).map fun host => ⟨host, port⟩
    match dialFirst session.network addresses with
    | (some link, network) => (.ok link.peer, { session with network, link := some link })
    | (none, network) => (.error .connectFailed, { session with network })

/-- Gives the connection up; says whether there was one. -/
def disconnect (session : Session ν) : Bool × Session ν :=
  match session.link with
  | none => (false, session)
  | some _ =>
    (true, { session with network := Network.hangUp session.network, link := none })

/-- A client cannot tell a broken stream from a closed one. -/
def readError : Error → Error
  | .io _ => .connectionClosed
  | other => other

/-- Reports an error; gives the connection up if it can carry no other reply. -/
def fail (session : Session ν) (link : Link) (reason : Error) : Except Error Reply × Session ν :=
  if reason.isTransport then
    (.error reason, { session with network := Network.hangUp session.network, link := none })
  else (.error reason, { session with link := some link })

/-- Reads the reply that is due. -/
def receive (session : Session ν) (link : Link) : Except Error Reply × Session ν :=
  match Reply.read session.alloc session.limits link.incoming with
  | (.ok reply, rest) => (.ok reply, { session with link := some { link with incoming := rest } })
  | (.error reason, rest) => session.fail { link with incoming := rest } (readError reason)

/-- A fault in writing a request means that it was not sent. -/
def sendError : Error → Error
  | .io reason => .sendFailed reason
  | other => other

/-- Sends a request and awaits its reply. -/
def request (session : Session ν) (content : Request) : Except Error Reply × Session ν :=
  match session.link with
  | none => (.error .notConnected, session)
  | some link =>
    match content.write { network := session.network : Outgoing ν } with
    | (.ok (), outgoing) =>
      { session with network := outgoing.network }.receive
        { link with incoming := link.incoming ++ outgoing.arrived }
    | (.error reason, outgoing) =>
      { session with network := outgoing.network }.fail link (sendError reason)

/-! Each request that is written is sent at once, and whole. -/

theorem write_outgoing_of_sent {content : Request} {network after : ν} {arrived : Source}
    (sent : Network.send network content.encode = (.ok arrived, after)) :
    content.write { network : Outgoing ν } = (.ok (), { network := after, arrived }) := by
  have flushed : Writer.flush { network, pending := content.encode : Outgoing ν } =
      (.ok (), { network := after, arrived }) := by
    simp only [Writer.flush, sent]
    rfl
  have written : Writer.send { network : Outgoing ν } content.encode = _ :=
    (Writer.send_of_written rfl).trans flushed
  rw [Request.write, Writer.deliver_eq, written]
  rfl

theorem write_outgoing_of_fault {content : Request} {network after : ν} {reason : Fault}
    (failed : Network.send network content.encode = (.error reason, after)) :
    content.write { network : Outgoing ν } =
      (.error (.io reason), { network := after, pending := content.encode }) := by
  have flushed : Writer.flush { network, pending := content.encode : Outgoing ν } =
      (.error reason, { network := after, pending := content.encode }) := by
    simp only [Writer.flush, failed]
  have written : Writer.send { network : Outgoing ν } content.encode = _ :=
    (Writer.send_of_written rfl).trans flushed
  rw [Request.write, Writer.deliver_eq, written]
  rfl

variable {session : Session ν} {link : Link} {content : Request} {network : ν}

theorem request_of_sent {arrived : Source} (session : Session ν)
    (linked : session.link = some link)
    (sent : Network.send session.network content.encode = (.ok arrived, network)) :
    session.request content =
      { session with network }.receive { link with incoming := link.incoming ++ arrived } := by
  unfold request
  rw [linked]
  simp only [write_outgoing_of_sent sent]

theorem request_of_unsent {reason : Fault} (session : Session ν)
    (linked : session.link = some link)
    (failed : Network.send session.network content.encode = (.error reason, network)) :
    session.request content =
      (.error (.sendFailed reason),
        { session with network := Network.hangUp network, link := none }) := by
  unfold request
  rw [linked]
  simp only [write_outgoing_of_fault failed]
  rfl

end Session

end WireStore
