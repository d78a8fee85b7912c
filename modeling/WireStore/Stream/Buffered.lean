import WireStore.Stream.Sink

/-!
# Sinks behind a buffer

A buffer holds bytes back until they no longer fit into it, or until a flush
asks for them; bytes that would not fit into an empty buffer go past it. What
cannot be written out stays in the buffer, and closing it offers that to the
sink once more, whatever becomes of it.
-/

namespace WireStore

/-- A sink and what has yet to go out to it. -/
structure Buffered where
  sink : Sink := {}
  /-- What is held back, the oldest first. -/
  pending : Bytes := []
  /-- How much can be held back. -/
  capacity : Nat := 8192
  deriving Repr

/-- Puts an empty buffer before a sink. -/
def Sink.buffered (sink : Sink) : Buffered := { sink }

namespace Buffered

/-- Writes out what is held back. -/
def drain (out : Buffered) : Except Fault Unit × Buffered :=
  let (result, left, sink) := out.sink.drain .nothingDrained out.pending
  (result, { out with sink, pending := left })

/-- Holds bytes back. -/
def hold (out : Buffered) (bytes : Bytes) : Buffered :=
  { out with pending := out.pending ++ bytes }

/-- How much more can be held back. -/
def spare (out : Buffered) : Nat := out.capacity - out.pending.length

/-- Holds bytes back for which there is room now, or else writes them past the
buffer. -/
def place (out : Buffered) (bytes : Bytes) : Except Fault Unit × Buffered :=
  if bytes.length < out.capacity then (.ok (), out.hold bytes)
  else
    let (result, sink) := out.sink.writeAll bytes
    (result, { out with sink })

/-- Takes bytes over. Where they would not fit behind what is held back, that is
written out first. -/
def writeAll (out : Buffered) (bytes : Bytes) : Except Fault Unit × Buffered :=
  if bytes.length < out.spare then (.ok (), out.hold bytes)
  else if bytes.length = out.spare then out.place bytes
  else
    match out.drain with
    | (.ok (), drained) => drained.place bytes
    | (.error reason, after) => (.error reason, after)

/-- Writes out what is held back, and flushes the sink. -/
def flush (out : Buffered) : Except Fault Unit × Buffered :=
  match out.drain with
  | (.ok (), drained) =>
    let (result, sink) := drained.sink.flush
    (result, { drained with sink })
  | (.error reason, after) => (.error reason, after)

/-- Gives the buffer up: what is held back is written out as far as that goes. -/
def close (out : Buffered) : Sink := out.drain.2.sink

instance : Writer Buffered where
  writeAll := writeAll
  flush := flush

end Buffered

end WireStore
