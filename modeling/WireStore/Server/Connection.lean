import WireStore.Server.Serving

/-!
# A connection under way

While a client is still sending, the server holds the bytes that do not yet
make up a frame. `receive` answers every frame that has become complete;
`close` does what is left to do once the client has ended its side. Where the
bytes were cut on their way makes no difference to the replies.
-/

namespace WireStore

/-- A connection between two arrivals of bytes. -/
structure Connection where
  /-- Bytes that arrived and belong to no complete frame. -/
  pending : Bytes := []
  /-- The replies written so far, latest first. -/
  replies : List Reply := []
  deriving Repr

namespace Connection

/-- Stands at the end of the bytes that have arrived: more may come. -/
def awaiting : Fault := ⟨.wouldBlock, "no more bytes yet"⟩

/-- The bytes that have arrived so far. -/
def arrived (bytes : Bytes) : Source := .chunk bytes (.fault awaiting .ended)

/-- The bytes of all replies written, in order. -/
def output (connection : Connection) : Bytes :=
  (connection.replies.reverse.map Reply.encode).flatten

/-- Answers one frame after another until none is complete. Gives the replies,
latest first, what is left of the source, and the store. -/
def answerAll (alloc : Allocator) (limits : Limits) (store : Store) (source : Source)
    (replies : List Reply) : List Reply × Source × Store :=
  match _ : Move.next alloc limits store source with
  | (.stop _ _, _) => (replies, source, store)
  | (.answer reply changed, rest) => answerAll alloc limits changed rest (reply :: replies)
termination_by source.size
decreasing_by exact Move.size_next_lt ‹_›

/-- Answers the complete frames among the pending bytes. -/
def advance (alloc : Allocator) (limits : Limits) (store : Store) (connection : Connection) :
    Connection × Store :=
  let (replies, rest, changed) :=
    answerAll alloc limits store (arrived connection.pending) connection.replies
  (⟨rest.bytes, replies⟩, changed)

/-- Takes bytes in and answers what they complete. -/
def receive (alloc : Allocator) (limits : Limits) (store : Store) (connection : Connection)
    (bytes : Bytes) : Connection × Store :=
  advance alloc limits store { connection with pending := connection.pending ++ bytes }

/-- Ends a connection whose client sends no more: a frame cut short is dropped,
and one cut short inside its payload is still answered. -/
def close (alloc : Allocator) (limits : Limits) (store : Store) (connection : Connection) :
    Connection :=
  match (Move.next alloc limits store (.ofBytes connection.pending)).1 with
  | .stop (some farewell) _ => ⟨[], farewell :: connection.replies⟩
  | _ => ⟨[], connection.replies⟩

end Connection

end WireStore
