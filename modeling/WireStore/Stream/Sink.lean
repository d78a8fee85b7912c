import WireStore.Stream.Writer

/-!
# Sinks of bytes

A sink takes bytes, in portions of its own choosing, until it has taken as many
as it has room for; then it refuses, and may have room again later. Any attempt
may be interrupted before it takes a byte. Whatever was taken before a refusal
stays taken, so what a reader of the sink sees is always a prefix of what was
sent.
-/

namespace WireStore

/-- How a sink answers once it has no room. -/
inductive Refusal where
  /-- It takes nothing and says so. -/
  | nothing
  /-- It raises a fault that is no interruption. -/
  | fault (reason : Fault)
  deriving DecidableEq, Repr

/-- What happens at a sink. -/
inductive Sink.Event where
  /-- These bytes were taken at once. -/
  | took (bytes : Bytes)
  /-- A flush was asked for, with or without success. -/
  | flush
  deriving DecidableEq, Repr

/-- A sink: how it will answer, and what has happened at it. -/
structure Sink where
  /-- The most bytes taken at once. -/
  portion : Option Nat := none
  /-- How many more bytes will be taken. -/
  room : Option Nat := none
  refusal : Refusal := .nothing
  /-- How much room there is again after each of the next refusals. -/
  reopenings : List Nat := []
  /-- Whether each of the next attempts to write is interrupted; those beyond the list are not. -/
  interruptions : List Bool := []
  /-- What every flush raises. -/
  flushFault : Option Fault := none
  /-- What has happened, the latest first. -/
  log : List Sink.Event := []
  deriving Repr

/-- What one attempt to write came to. -/
inductive Attempt where
  | interrupted
  | refused (reason : Fault)
  /-- This many bytes from the front were taken. -/
  | took (count : Nat)

namespace Sink

/-- The bytes that were taken, if any were. -/
def Event.taken? : Event → Option Bytes
  | took bytes => some bytes
  | flush => none

/-- What has been taken, latest portion first. -/
@[simp]
def portions (sink : Sink) : List Bytes :=
  sink.log.filterMap Event.taken?

/-- How often a flush was asked for. -/
def flushes (sink : Sink) : Nat :=
  sink.log.count .flush

/-- Everything taken, in order. -/
def written (sink : Sink) : Bytes :=
  sink.portions.reverse.flatten

/-- The bytes that one attempt to write takes. -/
def accepted (sink : Sink) (bytes : Bytes) : Bytes :=
  (bytes.within sink.portion).within sink.room

/-- The sink after it took some bytes. -/
def take (sink : Sink) (bytes : Bytes) : Sink :=
  { sink with
    room := sink.room.map (· - bytes.length)
    log := .took bytes :: sink.log }

/-- The sink after it refused. -/
def reopen (sink : Sink) : Sink :=
  match sink.reopenings with
  | [] => sink
  | room :: later => { sink with room := some room, reopenings := later }

/-- What an attempt comes to that is not interrupted. -/
def answer (sink : Sink) (bytes : Bytes) : Attempt × Sink :=
  if sink.room = some 0 then
    match sink.refusal with
    | .nothing => (.took 0, sink.reopen)
    | .fault reason => (.refused reason, sink.reopen)
  else
    let front := sink.accepted bytes
    (.took front.length, sink.take front)

@[simp]
theorem interruptions_answer (sink : Sink) (bytes : Bytes) :
    (sink.answer bytes).2.interruptions = sink.interruptions := by
  unfold answer reopen
  repeat' split
  all_goals rfl

/-- One attempt to write some bytes. -/
def attempt (sink : Sink) (bytes : Bytes) : Attempt × Sink :=
  match sink.interruptions with
  | [] => sink.answer bytes
  | true :: later => (.interrupted, { sink with interruptions := later })
  | false :: later => { sink with interruptions := later }.answer bytes

theorem answer_ne_interrupted (sink : Sink) (bytes : Bytes) :
    (sink.answer bytes).1 ≠ .interrupted := by
  unfold answer
  repeat' split
  all_goals exact Attempt.noConfusion

theorem interruptions_attempt_lt {sink after : Sink} {bytes : Bytes}
    (retried : sink.attempt bytes = (.interrupted, after)) :
    after.interruptions.length < sink.interruptions.length := by
  unfold attempt at retried
  split at retried
  next => exact absurd (congrArg Prod.fst retried) (answer_ne_interrupted sink bytes)
  next scheduled =>
    obtain rfl := (Prod.mk.inj retried).2
    rw [scheduled]
    exact Nat.lt_succ_self _
  next => exact absurd (congrArg Prod.fst retried) (answer_ne_interrupted _ bytes)

theorem interruptions_attempt_le (sink : Sink) (bytes : Bytes) :
    (sink.attempt bytes).2.interruptions.length ≤ sink.interruptions.length := by
  unfold attempt
  split <;> simp [*]

/-- Offers bytes until all of them are taken, again after every interruption.
Gives the bytes left over; to take nothing of them is the fault `stuck`. -/
def drain (stuck : Fault) (sink : Sink) (bytes : Bytes) : Except Fault Unit × Bytes × Sink :=
  if bytes.isEmpty then (.ok (), [], sink)
  else
    match result : sink.attempt bytes with
    | (.interrupted, after) => after.drain stuck bytes
    | (.refused reason, after) => (.error reason, bytes, after)
    | (.took 0, after) => (.error stuck, bytes, after)
    | (.took (count + 1), after) => after.drain stuck (bytes.drop (count + 1))
termination_by bytes.length + sink.interruptions.length
decreasing_by
  · have fewer := interruptions_attempt_lt result
    omega
  · have kept := interruptions_attempt_le sink bytes
    have some_left : bytes.length ≠ 0 := by simpa using ‹¬bytes.isEmpty = true›
    simp only [result] at kept
    simp only [List.length_drop]
    omega

@[simp]
theorem drain_nil (stuck : Fault) (sink : Sink) : sink.drain stuck [] = (.ok (), [], sink) := by
  rw [drain]
  rfl

/-- Writes all bytes, in as many attempts as it takes. -/
def writeAll (sink : Sink) (bytes : Bytes) : Except Fault Unit × Sink :=
  let (result, _, after) := sink.drain .nothingWritten bytes
  (result, after)

/-- The sink after a flush was asked for. -/
def afterFlush (sink : Sink) : Sink :=
  { sink with log := .flush :: sink.log }

/-- One flush, noted whether or not it succeeds. -/
def flush (sink : Sink) : Except Fault Unit × Sink :=
  match sink.flushFault with
  | none => (.ok (), sink.afterFlush)
  | some reason => (.error reason, sink.afterFlush)

instance : Writer Sink where
  writeAll := writeAll
  flush := flush

/-- Writes all bytes and then flushes. -/
def send (sink : Sink) (bytes : Bytes) : Except Fault Unit × Sink :=
  Writer.send sink bytes

end Sink

end WireStore
