import WireStore.Bytes
import WireStore.Error

/-!
# Writers

A writer is given bytes and may hold them back; a flush asks it to pass on all
that it holds. A message is written in one way only: all of its bytes, and then
one flush.
-/

namespace WireStore

/-- Where bytes can be written. -/
class Writer (ω : Type) where
  /-- Hands over all bytes, or raises a fault. -/
  writeAll : ω → Bytes → Except Fault Unit × ω
  /-- Passes on what is held back. -/
  flush : ω → Except Fault Unit × ω

namespace Writer

variable {ω : Type} [Writer ω]

/-- Writes all bytes and then flushes. -/
def send (writer : ω) (bytes : Bytes) : Except Fault Unit × ω :=
  match writeAll writer bytes with
  | (.ok (), after) => flush after
  | (.error reason, after) => (.error reason, after)

/-- Sends a message; a fault of the writer is reported as one of the stream. -/
def deliver (writer : ω) (message : Bytes) : Except Error Unit × ω :=
  match send writer message with
  | (.ok (), after) => (.ok (), after)
  | (.error reason, after) => (.error (.io reason), after)

variable {writer after : ω} {bytes : Bytes}

theorem send_of_written (written : writeAll writer bytes = (.ok (), after)) :
    send writer bytes = flush after := by
  unfold send
  rw [written]

theorem send_of_fault {reason : Fault} (failed : writeAll writer bytes = (.error reason, after)) :
    send writer bytes = (.error reason, after) := by
  unfold send
  rw [failed]

theorem deliver_eq (writer : ω) (message : Bytes) :
    deliver writer message = ((send writer message).1.mapError .io, (send writer message).2) := by
  unfold deliver
  rcases send writer message with ⟨_ | _, after⟩ <;> rfl

end Writer

end WireStore
