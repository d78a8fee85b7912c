import WireStore.Address
import WireStore.Stream.Source

/-!
# What a client sees of the network

A client can look a host up, open a connection, send on it and hang up. What
comes back is a source of bytes: some may arrive as soon as a connection is
open, more with everything that is sent. Nothing else is assumed, so every
statement about a client holds for peers that answer anything, stop anywhere,
or refuse to be sent to.
-/

namespace WireStore

/-- The network as one client uses it, with at most one connection open. -/
class Network (ν : Type) where
  /-- The numbered hosts that a name stands for. -/
  lookUp : ν → String → List Host
  /-- Opens a connection; gives what arrives on it unasked, or nothing if it is refused. -/
  dial : ν → Address → Option Source × ν
  /-- Sends on the open connection; gives what arrives then. -/
  send : ν → Bytes → Except Fault Source × ν
  /-- Ends the open connection. -/
  hangUp : ν → ν

namespace Network

/-- Looks a host up by its number only. -/
def numbered (name : String) : List Host :=
  (Host.parse? name).toList

end Network

/-- A network on which nobody can be reached. -/
structure Unreachable where

instance : Network Unreachable where
  lookUp _ := Network.numbered
  dial network _ := (none, network)
  send network _ := (.error ⟨.notConnected, "no connection is open"⟩, network)
  hangUp network := network

end WireStore
