import WireStore.Client.Network
import WireStore.Server.Listener

/-!
# A server within reach

A client and a listener on one host, nothing between them: what the client
sends arrives at once, the listener makes every move it can, and the replies it
has written are what arrives at the client.
-/

namespace WireStore

/-- A listener at an address, as one client sees it. -/
structure ServedPeer where
  address : Address
  listener : Listener
  /-- The number under which the listener knows the client. -/
  caller : Option Nat := none
  /-- How many replies have arrived on the open connection. -/
  delivered : Nat := 0

namespace ServedPeer

/-- The replies on a connection beyond those delivered. -/
def fresh (peer : ServedPeer) (caller : Nat) : List Reply :=
  let replies := ((peer.listener.connection? caller).map Connection.replies).getD []
  (replies.take (replies.length - peer.delivered)).reverse

/-- Hands over the replies that have not been delivered. -/
def deliver (peer : ServedPeer) (caller : Nat) : Source × ServedPeer :=
  let replies := peer.fresh caller
  (.ofBytes (replies.map Reply.encode).flatten,
    { peer with delivered := peer.delivered + replies.length })

instance : Network ServedPeer where
  lookUp _ := Network.numbered
  dial peer address :=
    if address = peer.address then
      let caller := peer.listener.callers.length
      let peer := { peer with
        listener := peer.listener.react .call
        caller := some caller
        delivered := 0 }
      let (arrived, peer) := peer.deliver caller
      (some arrived, peer)
    else (none, peer)
  send peer bytes :=
    match peer.caller with
    | none => (.error ⟨.notConnected, "no connection is open"⟩, peer)
    | some caller =>
      let (arrived, peer) :=
        { peer with listener := peer.listener.react (.send caller bytes) }.deliver caller
      (.ok arrived, peer)
  hangUp peer :=
    match peer.caller with
    | none => peer
    | some caller =>
      { peer with listener := peer.listener.react (.hangUp caller), caller := none }

end ServedPeer

end WireStore
