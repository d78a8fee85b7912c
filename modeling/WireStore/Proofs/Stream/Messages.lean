import WireStore.Frame.Reply
import WireStore.Frame.Request
import WireStore.Proofs.Stream.Sinks

/-!
# Messages on a sink

A message reaches a sink in as many portions as the sink likes. If the sink takes all of it, one
flush follows; if not, the sink has taken as much as it had room for, and no flush is asked for.
`Delivered` says so of a message that was written, and `write_delivers` that requests and replies
are written in no other way.

What happens at a sink is read off its log, so that a flush between two portions would be seen.
-/

namespace WireStore

namespace Sink

variable {sink mid after : Sink} {bytes front back : Bytes}

/-! ## Portions without a flush -/

/-- Holds where `after` is what `sink` became by taking some bytes in portions, while no flush was
asked for. -/
def Receives (sink : Sink) (bytes : Bytes) (after : Sink) : Prop :=
  ∃ portions : List Bytes, portions.flatten = bytes ∧
    after.log = (portions.map Event.took).reverse ++ sink.log

namespace Receives

theorem of_log_eq (same : after.log = sink.log) : sink.Receives [] after :=
  ⟨[], rfl, same⟩

theorem trans (first : sink.Receives front mid) (second : mid.Receives back after) :
    sink.Receives (front ++ back) after := by
  obtain ⟨early, rfl, before⟩ := first
  obtain ⟨late, rfl, behind⟩ := second
  refine ⟨early ++ late, List.flatten_append, ?_⟩
  rw [behind, before, List.map_append, List.reverse_append, List.append_assoc]

theorem written (receives : sink.Receives bytes after) :
    after.written = sink.written ++ bytes := by
  obtain ⟨portions, rfl, log⟩ := receives
  have taken : (portions.map Event.took).filterMap Event.taken? = portions := by
    rw [List.filterMap_map]
    exact List.filterMap_some
  rw [Sink.written, Sink.portions, log, List.filterMap_append, List.filterMap_reverse, taken,
    List.reverse_append, List.reverse_reverse, List.flatten_append]
  rfl

theorem flushes (receives : sink.Receives bytes after) : after.flushes = sink.flushes := by
  obtain ⟨portions, -, log⟩ := receives
  have none : (portions.map Event.took).reverse.count .flush = 0 := by
    apply List.count_eq_zero.mpr
    simp
  rw [Sink.flushes, log, List.count_append, none, Nat.zero_add]
  rfl

end Receives

theorem receives_take (sink : Sink) (bytes : Bytes) : sink.Receives bytes (sink.take bytes) :=
  ⟨[bytes], List.flatten_singleton, rfl⟩

theorem exists_receives_answer (sink : Sink) (bytes : Bytes) :
    ∃ front, sink.Receives front (sink.answer bytes).2 := by
  have reopened : sink.reopen.log = sink.log := by
    unfold reopen
    split <;> rfl
  unfold answer
  split
  · split
    · exact ⟨[], .of_log_eq reopened⟩
    · exact ⟨[], .of_log_eq reopened⟩
  · exact ⟨_, sink.receives_take _⟩

theorem exists_receives_attempt (sink : Sink) (bytes : Bytes) :
    ∃ front, sink.Receives front (sink.attempt bytes).2 := by
  unfold attempt
  split
  next => exact sink.exists_receives_answer bytes
  next later _ => exact ⟨[], .of_log_eq rfl⟩
  next later _ => exact exists_receives_answer { sink with interruptions := later } bytes

theorem exists_receives_drain (stuck : Fault) (sink : Sink) (bytes : Bytes) :
    ∃ front, sink.Receives front (sink.drain stuck bytes).2.2 := by
  have attempted (sink : Sink) {bytes : Bytes} {attempt : Attempt} {after : Sink}
      (result : sink.attempt bytes = (attempt, after)) : ∃ front, sink.Receives front after := by
    simpa only [result] using sink.exists_receives_attempt bytes
  fun_induction Sink.drain stuck sink bytes with
  | case1 sink bytes empty => exact ⟨[], .of_log_eq rfl⟩
  | case2 sink bytes filled after retried ih =>
    obtain ⟨front, first⟩ := attempted sink retried
    obtain ⟨back, others⟩ := ih
    exact ⟨front ++ back, first.trans others⟩
  | case3 sink bytes filled reason after refused => exact attempted sink refused
  | case4 sink bytes filled after nothing => exact attempted sink nothing
  | case5 sink bytes filled count after taken ih =>
    obtain ⟨front, first⟩ := attempted sink taken
    obtain ⟨back, others⟩ := ih
    exact ⟨front ++ back, first.trans others⟩

/-- However a write comes out, no flush is a part of it. -/
theorem receives_writeAll (sink : Sink) (bytes : Bytes) :
    sink.Receives (bytes.within sink.capacity) (sink.writeAll bytes).2 := by
  obtain ⟨front, receives⟩ := sink.exists_receives_drain .nothingWritten bytes
  obtain ⟨after, got, -, drained⟩ := sink.drain_eq .nothingWritten bytes
  unfold writeAll
  rw [drained] at receives ⊢
  -- Both say what has been written since, so they speak of the same bytes.
  have same : front = bytes.within sink.capacity :=
    List.append_cancel_left (receives.written.symm.trans got.written)
  exact same ▸ receives

/-! ## Messages -/

/-- What becomes of a message of which a sink accepted this much. -/
structure Delivered (sink : Sink) (message accepted : Bytes) (result : Except Error Unit)
    (after : Sink) : Prop where
  isFront : accepted <+: message
  written : after.written = sink.written ++ accepted
  succeeds_iff : result = .ok () ↔ accepted = message ∧ sink.flushFault = none
  /-- Once all is taken only the flush can fail. -/
  whole : accepted = message →
    result = sink.flushFault.elim (.ok ()) fun reason => .error (.io reason)
  /-- Less is taken only for want of room. -/
  cut : accepted ≠ message →
    sink.room = some accepted.length ∧
      result = .error (.io (sink.refusal.reason .nothingWritten))
  flushes : after.flushes = sink.flushes + if accepted = message then 1 else 0
  /-- The flush comes last. -/
  log : ∃ portions : List Bytes, portions.flatten = accepted ∧
    after.log =
      (if accepted = message then [.flush] else []) ++ (portions.map Event.took).reverse ++ sink.log

theorem mapError_eq_ok_iff {result : Except Fault Unit} :
    result.mapError Error.io = .ok () ↔ result = .ok () := by
  cases result with
  | ok => exact ⟨fun _ => rfl, fun _ => rfl⟩
  | error reason =>
    constructor
    · intro same
      cases same
    · intro same
      cases same

/-- What is left out of a message did not fit. -/
theorem room_of_cut {message : Bytes} (portion : sink.portion ≠ some 0)
    (cut : message.within sink.capacity ≠ message) :
    sink.room = some (message.within sink.capacity).length := by
  rw [capacity, if_neg portion] at cut ⊢
  cases limited : sink.room with
  | none => simp [limited, Bytes.within] at cut
  | some limit =>
    rw [limited] at cut
    have short : limit ≤ message.length := by
      apply Nat.le_of_not_le
      intro fits
      exact cut (List.take_of_length_le fits)
    rw [Bytes.within, List.length_take_of_le short]

theorem delivered_of_send (portion : sink.portion ≠ some 0) (message : Bytes) :
    sink.Delivered message (message.within sink.capacity) ((sink.send message).1.mapError .io)
      (sink.send message).2 := by
  have isFront := Bytes.within_prefix sink.capacity message
  have receives := sink.receives_writeAll message
  obtain ⟨after, got, -, wrote⟩ := sink.writeAll_eq message
  rw [wrote] at receives
  have written := receives.written
  have unflushed := receives.flushes
  obtain ⟨portions, taken, log⟩ := receives
  by_cases all : message.within sink.capacity = message
  · rw [if_pos all] at wrote
    have sent : sink.send message = (sink.flushFault.elim (.ok ()) .error, after.afterFlush) := by
      rw [send, Writer.send_of_written wrote, ← got.flushFault]
      exact after.flush_eq
    rw [all] at taken written ⊢
    rw [sent]
    refine ⟨List.prefix_rfl, written, ?_, fun _ => ?_, fun cut => absurd rfl cut, ?_, portions,
      taken, ?_⟩
    · rw [mapError_eq_ok_iff]
      cases sink.flushFault <;> simp
    · cases sink.flushFault <;> rfl
    · rw [if_pos rfl, ← unflushed]
      exact List.count_cons_self
    · rw [if_pos rfl, List.append_assoc, ← log]
      rfl
  · rw [if_neg all, lastFault_eq portion] at wrote
    have sent : sink.send message = _ := Writer.send_of_fault wrote
    rw [sent]
    refine ⟨isFront, written, ?_, fun same => absurd same all, fun _ => ?_, ?_, portions, taken, ?_⟩
    · rw [mapError_eq_ok_iff]
      simp [all]
    · exact ⟨room_of_cut portion all, rfl⟩
    · rw [if_neg all, unflushed, Nat.add_zero]
    · rw [if_neg all, List.nil_append, log]

/-- A text that is sent on a reliable sink arrives in portions, and is flushed behind the last of
them. -/
theorem Reliable.log_send {sink : Sink} (reliable : sink.Reliable) (text : Bytes) :
    ∃ portions : List Bytes, portions.flatten = text ∧
      (sink.send text).2.log = .flush :: ((portions.map Event.took).reverse ++ sink.log) := by
  have delivered := delivered_of_send reliable.portion text
  rw [reliable.endless, Bytes.within] at delivered
  obtain ⟨portions, taken, log⟩ := delivered.log
  rw [if_pos rfl] at log
  exact ⟨portions, taken, log⟩

/-- However a sink behaves that takes at least one byte at a time, and whichever attempts it
interrupts: a request or a reply that is written succeeds exactly if all of it is accepted and the
flush goes well. What is accepted is a front of it, the whole unless there is less room; the flush
is asked for once, behind the whole, and not otherwise; and what is reported is raised by the sink,
or that it accepted nothing. -/
theorem write_delivers {sink : Sink} (portion : sink.portion ≠ some 0) :
    (∀ request : Request, ∃ accepted,
      sink.Delivered request.encode accepted (request.write sink).1 (request.write sink).2) ∧
    ∀ reply : Reply, ∃ accepted,
      sink.Delivered reply.encode accepted (reply.write sink).1 (reply.write sink).2 := by
  constructor
  · intro request
    rw [Request.write, Writer.deliver_eq]
    exact ⟨_, delivered_of_send portion request.encode⟩
  · intro reply
    rw [Reply.write, Writer.deliver_eq]
    exact ⟨_, delivered_of_send portion reply.encode⟩

/-- A sink with room for nine bytes, three at a time, on which no flush goes well. It is interrupted
twice before it takes a byte, once between its first two portions, and once more before the third:
a request is cut short, and a reply arrives whole. -/
theorem write_delivers_of_narrow_sink :
    let full : Fault := ⟨.storageFull, "no space left"⟩
    let lost : Fault := ⟨.other, "the flush failed"⟩
    let sink : Sink :=
      { portion := some 3, room := some 9, refusal := .fault full, flushFault := some lost,
        interruptions := [true, true, false, true, false, true] }
    let request : Request := .create 7 (Utf8.encode "hello")
    let reply : Reply := .value (Utf8.encode "wide")
    sink.portion ≠ some 0 ∧
      sink.Delivered request.encode (Utf8.encode "CREATE 7 ") (.error (.io full))
        (request.write sink).2 ∧
      sink.Delivered reply.encode (Utf8.encode "OK 4\nwide") (.error (.io lost))
        (reply.write sink).2 := by
  intro full lost sink request reply
  have portion : sink.portion ≠ some 0 := by decide
  obtain ⟨requests, replies⟩ := write_delivers portion
  refine ⟨portion, ?_, ?_⟩
  · obtain ⟨accepted, delivered⟩ := requests request
    obtain rfl : Utf8.encode "CREATE 7 " = accepted := by
      have written : (request.write sink).2.written = Utf8.encode "CREATE 7 " := by decide +kernel
      exact written.symm.trans delivered.written
    have result : (request.write sink).1 = .error (.io full) :=
      (delivered.cut (by decide +kernel)).2
    exact result ▸ delivered
  · obtain ⟨accepted, delivered⟩ := replies reply
    obtain rfl : Utf8.encode "OK 4\nwide" = accepted := by
      have written : (reply.write sink).2.written = Utf8.encode "OK 4\nwide" := by decide +kernel
      exact written.symm.trans delivered.written
    have result : (reply.write sink).1 = .error (.io lost) := delivered.whole (by decide +kernel)
    exact result ▸ delivered

end Sink

end WireStore
