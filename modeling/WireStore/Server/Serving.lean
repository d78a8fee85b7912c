import WireStore.Frame.Incoming
import WireStore.Server.Execution
import WireStore.Stream.Buffered

/-!
# Serving one connection

A server reads a frame, acts on it, answers it, and only then reads the next.
`Move.after` says what follows from what was read; `handle` repeats it until the
client is done, is gone, or has broken the stream. Replies go out through a
buffer, which is flushed behind each of them; `serve` puts it before the sink of
a connection and closes it at the end. What has been applied to the store stays
applied, however the connection ends.
-/

namespace WireStore

/-- What a server does about what it found where a request was due. -/
inductive Move where
  /-- Answers, and goes on from this store. -/
  | answer (reply : Reply) (store : Store)
  /-- Ends the connection, perhaps after a last reply that need not arrive. -/
  | stop (farewell : Option Reply) (result : Except Error Unit)

namespace Move

/-- A stream cut off inside a payload is reported to the client, which may only
have ended its sending side. -/
def afterError : Error → Move
  | .prematureEnd expected received =>
    let reason := Error.prematureEnd expected received
    .stop (some (.ofError reason)) (.error reason)
  | reason => .stop none (if reason.isDeparture then .ok () else .error reason)

/-- The move that follows on reading a frame. -/
def after (alloc : Allocator) (store : Store) : Except Error Incoming → Move
  | .ok (.request content) =>
    let (reply, changed) := store.execute alloc content
    .answer reply changed
  | .ok (.rejected reason) => .answer (.ofError reason) store
  | .ok .ended => .stop none (.ok ())
  | .error reason => afterError reason

/-- Only a frame that was there is answered. -/
theorem present_of_answer {alloc : Allocator} {store changed : Store} {reply : Reply}
    {found : Except Error Incoming} (answered : after alloc store found = .answer reply changed) :
    ∃ incoming, found = .ok incoming ∧ incoming ≠ .ended := by
  cases found with
  | error reason => cases reason <;> simp [after, afterError] at answered
  | ok incoming =>
    refine ⟨incoming, rfl, ?_⟩
    rintro rfl
    simp [after] at answered

/-- Reads a frame and decides what to do about it. -/
def next (alloc : Allocator) (limits : Limits) (store : Store) (source : Source) : Move × Source :=
  let (found, rest) := Incoming.read alloc limits source
  (after alloc store found, rest)

/-- Every answer uses bytes up. -/
theorem size_next_lt {alloc : Allocator} {limits : Limits} {store changed : Store}
    {source rest : Source} {reply : Reply}
    (answered : next alloc limits store source = (.answer reply changed, rest)) :
    rest.size < source.size := by
  obtain ⟨move, left⟩ := Prod.mk.inj answered
  obtain ⟨incoming, found, present⟩ := present_of_answer move
  exact Incoming.size_read_lt present (Prod.ext found left)

end Move

/-- How a server came to the end of a connection, its replies still in their buffer. -/
structure Handled where
  result : Except Error Unit
  store : Store
  out : Buffered

/-- How serving a connection came out. -/
structure Served where
  result : Except Error Unit
  store : Store
  sink : Sink

/-- The connection is given up, and its buffer with it. -/
def Handled.close (handled : Handled) : Served :=
  ⟨handled.result, handled.store, handled.out.close⟩

/-- Writes a last reply, whatever becomes of it. -/
def sendFarewell (out : Buffered) : Option Reply → Buffered
  | none => out
  | some reply => (reply.write out).2

/-- Answers frames until there are no more, or one cannot be answered. -/
def handle (alloc : Allocator) (limits : Limits) (store : Store) (source : Source)
    (out : Buffered) : Handled :=
  match _ : Move.next alloc limits store source with
  | (.stop farewell result, _) => ⟨result, store, sendFarewell out farewell⟩
  | (.answer reply changed, rest) =>
    match reply.write out with
    | (.ok (), after) => handle alloc limits changed rest after
    | (.error reason, after) =>
      ⟨if reason.isDeparture then .ok () else .error reason, changed, after⟩
termination_by source.size
decreasing_by exact Move.size_next_lt ‹_›

/-- Serves one connection to its end. -/
def serve (alloc : Allocator) (limits : Limits) (store : Store) (source : Source) (sink : Sink) :
    Served :=
  (handle alloc limits store source sink.buffered).close

end WireStore
