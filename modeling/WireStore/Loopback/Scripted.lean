import WireStore.Client.Network

/-!
# Peers that follow a script

A scripted peer accepts every connection to its address and treats each as the
next script says. Either it sends some bytes at once, ends its sending side and
takes in whatever it is sent; or it closes the connection, after which its host
still takes in as much as fits into a window before it refuses.
-/

namespace WireStore

/-- How a peer treats one connection. -/
inductive Script where
  | sends (bytes : Bytes)
  | closes
  deriving DecidableEq, Repr

/-- A peer with the scripts it has yet to follow and what it has been sent. -/
structure ScriptedPeer where
  address : Address
  scripts : List Script
  /-- How the open connection is treated. -/
  current : Script := .sends []
  /-- What each connection was sent, latest first. -/
  received : List Bytes := []
  /-- How much the host of a closed connection takes in. -/
  window : Nat := 0

namespace ScriptedPeer

/-- What was received on each connection, in the order in which they were accepted. -/
def log (peer : ScriptedPeer) : List Bytes := peer.received.reverse

/-- Accepts a connection; those beyond the scripts are treated like an empty one. -/
def accept (peer : ScriptedPeer) : ScriptedPeer :=
  { peer with
    scripts := peer.scripts.tail
    current := peer.scripts.head?.getD (.sends [])
    received := [] :: peer.received }

/-- Notes what was received on the latest connection. -/
def note (peer : ScriptedPeer) (bytes : Bytes) : ScriptedPeer :=
  { peer with received := peer.received.modify 0 (· ++ bytes) }

instance : Network ScriptedPeer where
  lookUp _ := Network.numbered
  dial peer address :=
    if address = peer.address then
      let peer := peer.accept
      match peer.current with
      | .sends bytes => (some (.ofBytes bytes), peer)
      | .closes => (some .ended, peer)
    else (none, peer)
  send peer bytes :=
    match peer.current with
    | .sends _ => (.ok .ended, peer.note bytes)
    | .closes =>
      if bytes.length ≤ peer.window then (.ok .ended, peer)
      else (.error ⟨.brokenPipe, "the peer has closed the connection"⟩, peer)
  hangUp peer := peer

end ScriptedPeer

end WireStore
