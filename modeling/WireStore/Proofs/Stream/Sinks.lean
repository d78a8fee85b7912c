import WireStore.Stream.Sink

/-!
# What a sink takes

However small the portions of a sink are and wherever it interrupts, what it takes of the bytes it
is given is a front of them, as far as its capacity goes. `drain_eq` says so, and what is left over;
`writeAll_eq` says how a write comes out that offers the bytes until they are all taken.

A reliable sink has room without end, takes at least one byte at a time and can be flushed, so
whatever is sent on it arrives.
-/

namespace WireStore

/-- What is raised where a sink has no room, if to be given nothing of one's bytes is the fault
`stuck`. -/
def Refusal.reason (stuck : Fault) : Refusal → Fault
  | .nothing => stuck
  | .fault reason => reason

namespace Bytes

variable {bytes : Bytes} {bound : Option Nat} {count : Nat}

@[simp]
theorem within_nil (bound : Option Nat) : within bound [] = [] := by
  cases bound <;> simp [within]

@[simp]
theorem within_zero (bytes : Bytes) : within (some 0) bytes = [] := by
  simp [within]

theorem within_prefix (bound : Option Nat) (bytes : Bytes) : within bound bytes <+: bytes := by
  cases bound with
  | none => exact List.prefix_rfl
  | some bound => exact List.take_prefix bound bytes

theorem within_ne_nil (some_allowed : bound ≠ some 0) (someLeft : bytes ≠ []) :
    within bound bytes ≠ [] := by
  cases bound with
  | none => exact someLeft
  | some bound =>
    have positive : bound ≠ 0 := fun zero => some_allowed (congrArg some zero)
    simp [within, positive, someLeft]

/-- What is taken in two goes is what may be taken at once. -/
theorem take_append_within (count : Nat) (bytes : Bytes)
    (fits : ∀ room, bound = some room → count ≤ room) :
    bytes.take count ++ within (bound.map (· - count)) (bytes.drop count) = within bound bytes := by
  cases bound with
  | none => exact List.take_append_drop count bytes
  | some room =>
    have all : count + (room - count) = room := by
      have := fits room rfl
      omega
    simp only [within, Option.map_some]
    rw [← List.take_add, all]

/-- All may be taken at once if all may be taken in two goes. -/
theorem within_eq_self_iff (fits : ∀ room, bound = some room → count ≤ room) :
    within bound bytes = bytes ↔
      within (bound.map (· - count)) (bytes.drop count) = bytes.drop count := by
  have whole := take_append_within count bytes fits
  have parts := List.take_append_drop count bytes
  constructor
  · intro all
    exact List.append_cancel_left (whole.trans (all.trans parts.symm))
  · intro all
    rw [← whole, all, parts]

end Bytes

namespace Sink

variable {sink mid after : Sink} {bytes front back : Bytes} {stuck : Fault}

@[simp]
theorem written_take (sink : Sink) (bytes : Bytes) :
    (sink.take bytes).written = sink.written ++ bytes := by
  simp [written, take, Event.taken?]

/-- A flush takes no bytes. -/
@[simp]
theorem written_afterFlush (sink : Sink) : sink.afterFlush.written = sink.written := rfl

/-- How many more bytes a sink takes: none if it takes none at a time. -/
def capacity (sink : Sink) : Option Nat :=
  if sink.portion = some 0 then some 0 else sink.room

/-- What is raised where a sink takes no more. -/
def lastFault (stuck : Fault) (sink : Sink) : Fault :=
  if sink.room = some 0 then sink.refusal.reason stuck
  else if sink.portion = some 0 then stuck
  else sink.refusal.reason stuck

theorem lastFault_eq (portion : sink.portion ≠ some 0) (stuck : Fault) :
    sink.lastFault stuck = sink.refusal.reason stuck := by
  simp only [lastFault, portion, if_false, ite_self]

/-- Holds where `after` is what `sink` became by taking these bytes, whether or not it refused
others. -/
structure Got (sink : Sink) (bytes : Bytes) (after : Sink) : Prop where
  written : after.written = sink.written ++ bytes
  portion : after.portion = sink.portion
  refusal : after.refusal = sink.refusal
  flushFault : after.flushFault = sink.flushFault

/-- Holds where `after` is what `sink` became by taking these bytes and refusing none. -/
structure Took (sink : Sink) (bytes : Bytes) (after : Sink) : Prop
    extends Got sink bytes after where
  room : after.room = sink.room.map (· - bytes.length)
  reopenings : after.reopenings = sink.reopenings

theorem Got.trans (first : sink.Got front mid) (second : mid.Got back after) :
    sink.Got (front ++ back) after where
  written := by rw [second.written, first.written, List.append_assoc]
  portion := second.portion.trans first.portion
  refusal := second.refusal.trans first.refusal
  flushFault := second.flushFault.trans first.flushFault

namespace Took

theorem of_room_eq (got : sink.Got [] after) (room : after.room = sink.room)
    (reopenings : after.reopenings = sink.reopenings) : sink.Took [] after := by
  refine ⟨got, ?_, reopenings⟩
  rw [room]
  cases sink.room <;> rfl

theorem refl (sink : Sink) : sink.Took [] sink :=
  of_room_eq ⟨(List.append_nil _).symm, rfl, rfl, rfl⟩ rfl rfl

theorem trans (first : sink.Took front mid) (second : mid.Took back after) :
    sink.Took (front ++ back) after where
  toGot := first.toGot.trans second.toGot
  room := by
    rw [second.room, first.room, Option.map_map, List.length_append]
    congr 1
    funext room
    exact Nat.sub_sub ..
  reopenings := second.reopenings.trans first.reopenings

theorem capacity (took : sink.Took bytes after) :
    after.capacity = sink.capacity.map (· - bytes.length) := by
  unfold Sink.capacity
  rw [took.portion, took.room]
  split
  · exact congrArg some (Nat.zero_sub _).symm
  · rfl

theorem capacity_of_nil (took : sink.Took [] after) : after.capacity = sink.capacity := by
  rw [took.capacity]
  cases sink.capacity <;> rfl

/-- As long as a sink takes at least a byte at a time it stops as it always would. -/
theorem lastFault (took : sink.Took bytes after) (portion : sink.portion ≠ some 0) :
    after.lastFault stuck = sink.lastFault stuck := by
  rw [lastFault_eq portion, lastFault_eq (took.portion ▸ portion), took.refusal]

theorem lastFault_of_nil (took : sink.Took [] after) :
    after.lastFault stuck = sink.lastFault stuck := by
  have room : after.room = sink.room := by
    rw [took.room]
    cases sink.room <;> rfl
  simp only [Sink.lastFault, room, took.portion, took.refusal]

end Took

theorem took_take (sink : Sink) (bytes : Bytes) : sink.Took bytes (sink.take bytes) :=
  ⟨⟨written_take sink bytes, rfl, rfl, rfl⟩, rfl, rfl⟩

theorem got_reopen (sink : Sink) : sink.Got [] sink.reopen := by
  unfold reopen
  split <;> exact ⟨(List.append_nil _).symm, rfl, rfl, rfl⟩

/-! ## One attempt -/

/-- A sink that takes bytes takes a front of them, and no more than it has room for. -/
theorem accepted_eq_take (sink : Sink) (someLeft : bytes ≠ []) (roomy : sink.room ≠ some 0)
    (portion : sink.portion ≠ some 0) :
    ∃ count, sink.accepted bytes = bytes.take (count + 1) ∧ count + 1 ≤ bytes.length ∧
      ∀ capacity, sink.capacity = some capacity → count + 1 ≤ capacity := by
  have isFront : sink.accepted bytes <+: bytes :=
    (Bytes.within_prefix sink.room _).trans (Bytes.within_prefix sink.portion bytes)
  have filled : sink.accepted bytes ≠ [] :=
    Bytes.within_ne_nil roomy (Bytes.within_ne_nil portion someLeft)
  obtain ⟨count, length⟩ : ∃ count, (sink.accepted bytes).length = count + 1 :=
    Nat.exists_eq_succ_of_ne_zero fun zero => filled (List.eq_nil_of_length_eq_zero zero)
  refine ⟨count, ?_, length ▸ isFront.length_le, ?_⟩
  · rw [← length]
    exact List.prefix_iff_eq_take.mp isFront
  · intro room limited
    rw [capacity, if_neg portion] at limited
    rw [← length, accepted, limited]
    exact List.length_take_le ..

/-- What the outcome of an attempt tells of a sink: it was interrupted, or took a front of the
bytes, or is at its end for now. -/
def Tells (stuck : Fault) (sink : Sink) (bytes : Bytes) (after : Sink) : Attempt → Prop
  | .interrupted => sink.Took [] after
  | .took 0 => sink.Got [] after ∧ sink.capacity = some 0 ∧ sink.lastFault stuck = stuck
  | .refused reason => sink.Got [] after ∧ sink.capacity = some 0 ∧ sink.lastFault stuck = reason
  | .took (count + 1) =>
    sink.Took (bytes.take (count + 1)) after ∧ sink.portion ≠ some 0 ∧
      count + 1 ≤ bytes.length ∧ ∀ capacity, sink.capacity = some capacity → count + 1 ≤ capacity

theorem answer_tells {attempt : Attempt} (stuck : Fault) (someLeft : bytes ≠ [])
    (answered : sink.answer bytes = (attempt, after)) : sink.Tells stuck bytes after attempt := by
  unfold Sink.answer at answered
  split at answered
  next full =>
    have atEnd : sink.capacity = some 0 := by simp [capacity, full]
    split at answered
    next nothing =>
      obtain ⟨rfl, rfl⟩ := Prod.mk.inj answered
      refine ⟨sink.got_reopen, atEnd, ?_⟩
      simp only [lastFault, full, nothing, Refusal.reason, if_true]
    next reason fault =>
      obtain ⟨rfl, rfl⟩ := Prod.mk.inj answered
      refine ⟨sink.got_reopen, atEnd, ?_⟩
      simp only [lastFault, full, fault, Refusal.reason, if_true]
  next roomy =>
    obtain ⟨rfl, rfl⟩ := Prod.mk.inj answered
    by_cases nothing : sink.portion = some 0
    · have empty : sink.accepted bytes = [] := by
        simp only [accepted, nothing, Bytes.within_zero, Bytes.within_nil]
      rw [empty]
      refine ⟨(sink.took_take []).toGot, by simp [capacity, nothing], ?_⟩
      simp only [lastFault, roomy, nothing, if_true, if_false]
    · obtain ⟨count, front, enough, fits⟩ := sink.accepted_eq_take someLeft roomy nothing
      rw [front, List.length_take_of_le enough]
      exact ⟨sink.took_take _, nothing, enough, fits⟩

/-- What a sink tells after it has taken nothing it would have told before. -/
theorem Tells.of_nothing {attempt : Attempt} (nothing : sink.Took [] mid)
    (tells : mid.Tells stuck bytes after attempt) : sink.Tells stuck bytes after attempt := by
  have capacity := nothing.capacity_of_nil
  have last : mid.lastFault stuck = sink.lastFault stuck := nothing.lastFault_of_nil
  cases attempt with
  | interrupted => exact nothing.trans tells
  | refused reason =>
    obtain ⟨got, atEnd, fault⟩ := tells
    exact ⟨nothing.toGot.trans got, capacity ▸ atEnd, last ▸ fault⟩
  | took count =>
    cases count with
    | zero =>
      obtain ⟨got, atEnd, fault⟩ := tells
      exact ⟨nothing.toGot.trans got, capacity ▸ atEnd, last ▸ fault⟩
    | succ count =>
      obtain ⟨took, portion, enough, fits⟩ := tells
      exact ⟨nothing.trans took, nothing.portion ▸ portion, enough, capacity ▸ fits⟩

theorem attempt_tells {attempt : Attempt} (stuck : Fault) (someLeft : bytes ≠ [])
    (attempted : sink.attempt bytes = (attempt, after)) : sink.Tells stuck bytes after attempt := by
  have scheduled (later : List Bool) : sink.Took [] { sink with interruptions := later } :=
    .of_room_eq ⟨(List.append_nil _).symm, rfl, rfl, rfl⟩ rfl rfl
  unfold Sink.attempt at attempted
  split at attempted
  next => exact answer_tells stuck someLeft attempted
  next later _ =>
    obtain ⟨rfl, rfl⟩ := Prod.mk.inj attempted
    exact scheduled later
  next later _ => exact (answer_tells stuck someLeft attempted).of_nothing (scheduled later)

/-! ## Whole writes -/

/-- All attempts together take as much as one may hope for, and leave the rest. -/
theorem drain_eq (stuck : Fault) (sink : Sink) (bytes : Bytes) :
    ∃ after, sink.Got (bytes.within sink.capacity) after ∧
      (bytes.within sink.capacity = bytes → sink.Took bytes after) ∧
      sink.drain stuck bytes =
        (if bytes.within sink.capacity = bytes then .ok () else .error (sink.lastFault stuck),
          bytes.drop (bytes.within sink.capacity).length, after) := by
  fun_induction Sink.drain stuck sink bytes with
  | case1 sink bytes empty =>
    obtain rfl := List.isEmpty_iff.mp empty
    rw [Bytes.within_nil, if_pos rfl]
    exact ⟨sink, (Took.refl sink).toGot, fun _ => Took.refl sink, rfl⟩
  | case2 sink bytes filled after retried ih =>
    -- An interruption took nothing, so the next attempt finds what this one would have.
    have took : sink.Took [] after := attempt_tells stuck (by simpa using filled) retried
    obtain ⟨last, got, all, drained⟩ := ih
    rw [took.capacity_of_nil, took.lastFault_of_nil] at *
    exact ⟨last, took.toGot.trans got, fun whole => took.trans (all whole), drained⟩
  | case3 sink bytes filled reason after refused =>
    have someLeft : bytes ≠ [] := by simpa using filled
    obtain ⟨got, atEnd, fault⟩ := attempt_tells stuck someLeft refused
    rw [atEnd, Bytes.within_zero, if_neg someLeft.symm, fault]
    exact ⟨after, got, fun none => absurd none.symm someLeft, rfl⟩
  | case4 sink bytes filled after nothing =>
    have someLeft : bytes ≠ [] := by simpa using filled
    obtain ⟨got, atEnd, fault⟩ := attempt_tells stuck someLeft nothing
    rw [atEnd, Bytes.within_zero, if_neg someLeft.symm, fault]
    exact ⟨after, got, fun none => absurd none.symm someLeft, rfl⟩
  | case5 sink bytes filled count after attempted ih =>
    -- What this attempt took and what the later ones take is what fits in all.
    obtain ⟨took, portion, enough, fits⟩ := attempt_tells stuck (by simpa using filled) attempted
    obtain ⟨last, got, all, drained⟩ := ih
    have whole := Bytes.take_append_within (count + 1) bytes fits
    have left := took.capacity
    rw [List.length_take_of_le enough] at left
    rw [left] at got all drained
    refine ⟨last, whole ▸ took.toGot.trans got, fun here => ?_, ?_⟩
    · have rest := took.trans (all ((Bytes.within_eq_self_iff fits).mp here))
      rwa [List.take_append_drop] at rest
    · rw [drained, took.lastFault portion, List.drop_drop, ← whole, List.length_append,
        List.length_take_of_le enough]
      simp only [whole, Bytes.within_eq_self_iff fits]

/-- Bytes are written if all of them are taken. -/
theorem writeAll_eq (sink : Sink) (bytes : Bytes) :
    ∃ after, sink.Got (bytes.within sink.capacity) after ∧
      (bytes.within sink.capacity = bytes → sink.Took bytes after) ∧
      sink.writeAll bytes =
        (if bytes.within sink.capacity = bytes then .ok ()
          else .error (sink.lastFault .nothingWritten), after) := by
  obtain ⟨after, got, all, drained⟩ := sink.drain_eq .nothingWritten bytes
  refine ⟨after, got, all, ?_⟩
  unfold writeAll
  rw [drained]

/-- A flush goes well unless the sink raises a fault at it. -/
theorem flush_eq (sink : Sink) :
    sink.flush = (sink.flushFault.elim (.ok ()) .error, sink.afterFlush) := by
  unfold flush
  cases sink.flushFault <;> rfl

theorem Took.flush (took : sink.Took bytes after) :
    after.flush = (sink.flushFault.elim (.ok ()) .error, after.afterFlush) := by
  rw [flush_eq, took.flushFault]

theorem Took.flushed (took : sink.Took bytes after) : sink.Took bytes after.afterFlush :=
  ⟨⟨took.written, took.portion, took.refusal, took.flushFault⟩, took.room, took.reopenings⟩

/-! ## Sinks that take everything -/

/-- Holds of sinks that never refuse. -/
structure Reliable (sink : Sink) : Prop where
  room : sink.room = none
  portion : sink.portion ≠ some 0
  flushed : sink.flushFault = none

theorem Took.reliable (took : sink.Took bytes after) (reliable : sink.Reliable) :
    after.Reliable where
  room := by
    rw [took.room, reliable.room]
    rfl
  portion := by
    rw [took.portion]
    exact reliable.portion
  flushed := took.flushFault.trans reliable.flushed

theorem Reliable.endless (reliable : sink.Reliable) : sink.capacity = none := by
  rw [capacity, if_neg reliable.portion, reliable.room]

/-- Whatever is written on a reliable sink arrives. -/
theorem Reliable.writeAll (reliable : sink.Reliable) (bytes : Bytes) :
    ∃ after, sink.writeAll bytes = (.ok (), after) ∧ after.Reliable ∧
      after.written = sink.written ++ bytes := by
  obtain ⟨after, -, all, wrote⟩ := sink.writeAll_eq bytes
  rw [reliable.endless, Bytes.within] at all wrote
  rw [if_pos rfl] at wrote
  have took := all rfl
  exact ⟨after, wrote, took.reliable reliable, took.written⟩

theorem Reliable.flush (reliable : sink.Reliable) :
    ∃ after, sink.flush = (.ok (), after) ∧ after.Reliable ∧ after.written = sink.written := by
  refine ⟨sink.afterFlush, ?_, ⟨reliable.room, reliable.portion, reliable.flushed⟩, rfl⟩
  rw [flush_eq, reliable.flushed]
  rfl

theorem Reliable.send (reliable : sink.Reliable) (bytes : Bytes) :
    ∃ after, sink.send bytes = (.ok (), after) ∧ after.Reliable ∧
      after.written = sink.written ++ bytes := by
  obtain ⟨mid, wrote, sound, written⟩ := reliable.writeAll bytes
  obtain ⟨after, flushed, last, same⟩ := sound.flush
  exact ⟨after, (Writer.send_of_written wrote).trans flushed, last, same.trans written⟩

end Sink

end WireStore
