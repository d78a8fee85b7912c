import WireStore.Frame.Reply
import WireStore.Proofs.Stream.Sinks
import WireStore.Stream.Buffered

/-!
# Messages through a buffer

A message written through an empty buffer reaches the sink in one of two ways: a short one is held
back until the flush, a long one goes past the buffer. Either way the sink takes as much of it as it
has room for (`send_buffered`). Where all is taken and the flush goes well, nothing is held back
any more, so the next message finds the buffer empty again; where not, closing the buffer may bring
more of the message to the sink, but nothing else.

Replies are written one after another up to the first that fails (`Writes`).
-/

namespace WireStore

variable {sink mid after : Sink} {out : Buffered} {bytes message : Bytes} {reply : Reply}
  {replies : List Reply} {failure : Error}

/-- What closing a buffer brings to the sink is a front of what was held back. -/
theorem Buffered.written_close (out : Buffered) :
    ∃ part, part <+: out.pending ∧ out.close.written = out.sink.written ++ part := by
  obtain ⟨after, got, -, drained⟩ := out.sink.drain_eq .nothingDrained out.pending
  refine ⟨out.pending.within out.sink.capacity, Bytes.within_prefix .., ?_⟩
  rw [← got.written, close, drain, drained]

namespace Sink

/-! ## A buffer that holds nothing back -/

@[simp]
theorem close_buffered (sink : Sink) : sink.buffered.close = sink := by
  simp [Buffered.close, Buffered.drain, buffered]

theorem flush_buffered (sink : Sink) :
    sink.buffered.flush = (sink.flush.1, sink.flush.2.buffered) := by
  simp [Buffered.flush, Buffered.drain, buffered]

/-- What is raised where a sink that was given a message through a buffer takes nothing of it. -/
def stuck (sink : Sink) (message : Bytes) : Fault :=
  if message.length < sink.buffered.capacity then .nothingDrained else .nothingWritten

theorem writeAll_buffered_of_short (short : message.length < sink.buffered.capacity) :
    sink.buffered.writeAll message = (.ok (), { sink.buffered with pending := message }) := by
  have fits : message.length < sink.buffered.spare := short
  simp only [Buffered.writeAll, fits, if_true]
  rfl

theorem writeAll_buffered_of_long (long : ¬message.length < sink.buffered.capacity) :
    sink.buffered.writeAll message =
      ((sink.writeAll message).1, (sink.writeAll message).2.buffered) := by
  have past : ¬message.length < sink.buffered.spare := long
  have placed : sink.buffered.place message =
      ((sink.writeAll message).1, (sink.writeAll message).2.buffered) := by
    simp only [Buffered.place, long, if_false]
    rfl
  have drained : sink.buffered.drain = (.ok (), sink.buffered) := by
    simp [Buffered.drain, buffered]
  simp only [Buffered.writeAll, past, if_false, drained, placed, ite_self]

/-! ## One message -/

/-- Holds where a sink got as much of a message through a buffer as it has room for, and what the
buffer still holds back, if anything, is next. -/
structure Passed (sink : Sink) (message : Bytes) (after : Sink) (left : Bytes) : Prop where
  got : sink.Got (message.within sink.capacity) after
  isFront : message.within sink.capacity ++ left <+: message
  whole : message.within sink.capacity = message → sink.Took message after ∧ left = []

theorem Passed.of_took (all : message.within sink.capacity = message)
    (took : sink.Took message after) : sink.Passed message after [] where
  got := all.symm ▸ took.toGot
  isFront := by simp [all]
  whole _ := ⟨took, rfl⟩

/-- How sending a message through an empty buffer comes out. -/
def sent (sink : Sink) (message : Bytes) : Except Fault Unit :=
  if message.within sink.capacity = message then sink.flushFault.elim (.ok ()) .error
  else .error (sink.lastFault (sink.stuck message))

/-- A short message is offered to the sink by the flush. -/
theorem send_buffered_of_short (short : message.length < sink.buffered.capacity) :
    ∃ after left, sink.Passed message after left ∧
      Writer.send sink.buffered message =
        (sink.sent message, { after.buffered with pending := left }) := by
  obtain ⟨after, got, took, drained⟩ := sink.drain_eq .nothingDrained message
  have held : Writer.send sink.buffered message =
      Buffered.flush { sink.buffered with pending := message } :=
    Writer.send_of_written (writeAll_buffered_of_short short)
  rw [held, sent, stuck, if_pos short]
  unfold Buffered.flush Buffered.drain
  simp only [buffered, drained]
  by_cases all : message.within sink.capacity = message
  · refine ⟨after.afterFlush, [], .of_took all (took all).flushed, ?_⟩
    simp only [all, if_true, (took all).flush, List.drop_length]
  · have parts := List.prefix_iff_eq_append.mp (Bytes.within_prefix sink.capacity message)
    refine ⟨after, message.drop (message.within sink.capacity).length,
      ⟨got, ⟨[], (List.append_nil _).trans parts⟩, fun whole => absurd whole all⟩, ?_⟩
    simp only [all, if_false]

/-- A long message goes past the buffer. -/
theorem send_buffered_of_long (long : ¬message.length < sink.buffered.capacity) :
    ∃ after left, sink.Passed message after left ∧
      Writer.send sink.buffered message =
        (sink.sent message, { after.buffered with pending := left }) := by
  obtain ⟨after, got, took, wrote⟩ := sink.writeAll_eq message
  have passed : Writer.writeAll sink.buffered message = _ := writeAll_buffered_of_long long
  rw [wrote] at passed
  rw [sent, stuck, if_neg long]
  by_cases all : message.within sink.capacity = message
  · rw [if_pos all] at passed
    refine ⟨after.afterFlush, [], .of_took all (took all).flushed, ?_⟩
    have flushed := after.flush_buffered
    rw [(took all).flush] at flushed
    rw [Writer.send_of_written passed, if_pos all]
    exact flushed
  · rw [if_neg all] at passed
    have isFront := Bytes.within_prefix sink.capacity message
    rw [← List.append_nil (message.within sink.capacity)] at isFront
    refine ⟨after, [], ⟨got, isFront, fun whole => absurd whole all⟩, ?_⟩
    rw [Writer.send_of_fault passed, if_neg all]
    rfl

/-- However long a message is, the sink gets as much of it as it has room for. -/
theorem send_buffered (sink : Sink) (message : Bytes) :
    ∃ after left, sink.Passed message after left ∧
      Writer.send sink.buffered message =
        (sink.sent message, { after.buffered with pending := left }) := by
  by_cases short : message.length < sink.buffered.capacity
  · exact send_buffered_of_short short
  · exact send_buffered_of_long short

/-! ## Replies -/

theorem write_buffered (sink : Sink) (reply : Reply) :
    ∃ after left, sink.Passed reply.encode after left ∧
      reply.write sink.buffered =
        ((sink.sent reply.encode).mapError .io, { after.buffered with pending := left }) := by
  obtain ⟨after, left, passed, sent⟩ := sink.send_buffered reply.encode
  refine ⟨after, left, passed, ?_⟩
  rw [Reply.write, Writer.deliver_eq, sent]

/-- A message is sent if there is room for it and no fault at the flush. -/
theorem sent_eq_ok_iff : sink.sent message = .ok () ↔
    message.within sink.capacity = message ∧ sink.flushFault = none := by
  unfold sent
  split
  next all => cases sink.flushFault <;> simp [all]
  next short => simp [short]

/-- After a reply that was written nothing is held back. -/
theorem took_of_write (written : reply.write sink.buffered = (.ok (), out)) :
    ∃ after, out = after.buffered ∧ sink.Took reply.encode after := by
  obtain ⟨after, left, passed, wrote⟩ := sink.write_buffered reply
  obtain ⟨success, rfl⟩ := Prod.mk.inj (wrote.symm.trans written)
  cases sent : sink.sent reply.encode with
  | error reason =>
    rw [sent] at success
    cases success
  | ok =>
    obtain ⟨took, rfl⟩ := passed.whole (sent_eq_ok_iff.mp sent).1
    exact ⟨after, rfl, took⟩

/-- Whatever a reply fails for, the sink raised it; and what has arrived, also once the buffer is
closed, is a front of the reply. -/
theorem failure_of_write (failed : reply.write sink.buffered = (.error failure, out)) :
    ∃ reason front, failure = .io reason ∧ front <+: reply.encode ∧
      out.close.written = sink.written ++ front := by
  obtain ⟨after, left, passed, wrote⟩ := sink.write_buffered reply
  obtain ⟨same, rfl⟩ := Prod.mk.inj (wrote.symm.trans failed)
  cases sent : sink.sent reply.encode with
  | ok =>
    rw [sent] at same
    cases same
  | error reason =>
    rw [sent] at same
    obtain rfl := Except.error.inj same
    obtain ⟨part, isPart, closed⟩ := Buffered.written_close { after.buffered with pending := left }
    refine ⟨reason, reply.encode.within sink.capacity ++ part, rfl, ?_, ?_⟩
    · exact ((List.prefix_append_right_inj _).mpr isPart).trans passed.isFront
    · rw [closed, ← List.append_assoc, ← passed.got.written]
      rfl

end Sink

namespace Buffered

/-- Replies are written one after another, each of them whole. -/
inductive Writes : Buffered → List Reply → Buffered → Prop
  | nil (out : Buffered) : Writes out [] out
  | cons {out mid after : Buffered} {reply : Reply} {replies : List Reply}
    (written : reply.write out = (.ok (), mid)) (others : Writes mid replies after) :
    Writes out (reply :: replies) after

theorem writes_cons_iff {after : Buffered} : out.Writes (reply :: replies) after ↔
    ∃ mid, reply.write out = (.ok (), mid) ∧ mid.Writes replies after := by
  constructor
  · intro writes
    cases writes with
    | cons written others => exact ⟨_, written, others⟩
  · rintro ⟨mid, written, others⟩
    exact .cons written others

end Buffered

namespace Sink

/-- Replies that are written have reached the sink, and nothing is held back. -/
theorem took_of_writes (writes : sink.buffered.Writes replies out) :
    ∃ after, out = after.buffered ∧ sink.Took (replies.flatMap Reply.encode) after := by
  induction replies generalizing sink with
  | nil =>
    cases writes
    exact ⟨sink, rfl, Took.refl sink⟩
  | cons reply replies ih =>
    obtain ⟨_, written, others⟩ := Buffered.writes_cons_iff.mp writes
    obtain ⟨mid, rfl, first⟩ := took_of_write written
    obtain ⟨after, rfl, later⟩ := ih others
    exact ⟨after, rfl, first.trans later⟩

/-- A reply is written where there is room for it and no fault at the flush. -/
theorem exists_write (flushed : sink.flushFault = none)
    (fits : ∀ room, sink.capacity = some room → reply.encode.length ≤ room) :
    ∃ after : Sink, reply.write sink.buffered = (.ok (), after.buffered) ∧
      sink.Took reply.encode after := by
  have all : reply.encode.within sink.capacity = reply.encode := by
    cases limited : sink.capacity with
    | none => rfl
    | some room => exact List.take_of_length_le (fits room limited)
  obtain ⟨after, left, passed, wrote⟩ := sink.write_buffered reply
  rw [sent_eq_ok_iff.mpr ⟨all, flushed⟩] at wrote
  obtain ⟨took, rfl⟩ := passed.whole all
  exact ⟨after, wrote, took⟩

/-- Replies that fit into a sink are written. -/
theorem exists_writes (replies : List Reply) (flushed : sink.flushFault = none)
    (fits : ∀ room, sink.capacity = some room → (replies.flatMap Reply.encode).length ≤ room) :
    ∃ after, sink.buffered.Writes replies after := by
  induction replies generalizing sink with
  | nil => exact ⟨_, .nil _⟩
  | cons reply replies ih =>
    simp only [List.flatMap_cons, List.length_append] at fits
    obtain ⟨mid, wrote, took⟩ := exists_write flushed fun room limited =>
      Nat.le_trans (Nat.le_add_right ..) (fits room limited)
    obtain ⟨after, others⟩ := @ih mid (took.flushFault.trans flushed) (by
      intro room limited
      rw [took.capacity] at limited
      obtain ⟨whole, here, rfl⟩ := Option.map_eq_some_iff.mp limited
      have := fits whole here
      omega)
    exact ⟨after, .cons wrote others⟩

/-- A reply can fail at each of its bytes, behind any others: a sink that has room for those and a
part of it fails at that place. -/
theorem fails_within {count : Nat} (reply : Reply) (replies : List Reply)
    (portion : sink.portion ≠ some 0) (flushed : sink.flushFault = none)
    (room : sink.room = some ((replies.flatMap Reply.encode).length + count))
    (short : count < reply.encode.length) :
    ∃ mid broken, sink.buffered.Writes replies mid ∧
      reply.write mid = (.error (.io (sink.refusal.reason (sink.stuck reply.encode))), broken) ∧
      broken.sink.written =
        sink.written ++ (replies.flatMap Reply.encode ++ reply.encode.take count) := by
  have limited : sink.capacity = some ((replies.flatMap Reply.encode).length + count) := by
    rw [capacity, if_neg portion, room]
  obtain ⟨_, writes⟩ := exists_writes replies flushed (by
    intro room same
    have := Option.some.inj (limited.symm.trans same)
    omega)
  obtain ⟨mid, rfl, took⟩ := took_of_writes writes
  obtain ⟨after, left, passed, wrote⟩ := mid.write_buffered reply
  have here : mid.capacity = some count := by
    rw [took.capacity, limited]
    simp
  have part : reply.encode.within mid.capacity ≠ reply.encode := by
    intro all
    have length := congrArg List.length all
    simp only [here, Bytes.within, List.length_take] at length
    omega
  have raised : mid.sent reply.encode = .error (sink.refusal.reason (sink.stuck reply.encode)) := by
    rw [sent, if_neg part, took.lastFault portion, lastFault_eq portion]
    rfl
  have got := passed.got
  rw [here] at got
  rw [raised] at wrote
  exact ⟨_, _, writes, wrote, (took.toGot.trans got).written⟩

theorem Reliable.fits (reliable : sink.Reliable) {count : Nat} :
    ∀ room, sink.capacity = some room → count ≤ room := by
  intro room limited
  rw [reliable.endless] at limited
  cases limited

/-- A reply written on a reliable sink arrives. -/
theorem Reliable.write (reliable : sink.Reliable) (reply : Reply) :
    ∃ after : Sink, reply.write sink.buffered = (.ok (), after.buffered) ∧ after.Reliable ∧
      after.written = sink.written ++ reply.encode := by
  obtain ⟨after, wrote, took⟩ := exists_write reliable.flushed reliable.fits
  exact ⟨after, wrote, took.reliable reliable, took.written⟩

theorem Reliable.writes (reliable : sink.Reliable) (replies : List Reply) :
    ∃ after, sink.buffered.Writes replies after :=
  exists_writes replies reliable.flushed reliable.fits

end Sink

end WireStore
