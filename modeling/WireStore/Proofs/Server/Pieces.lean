import WireStore.Proofs.Frame.Extent
import WireStore.Proofs.Server.Arrivals
import WireStore.Proofs.Stream.Chunking

/-!
# A stream served in pieces

A server that answers has read a frame and nothing behind it, so it does not matter to the answer
what has arrived by then. A connection on which bytes arrive in pieces is therefore at every moment
where serving the whole stream comes by (`Resumes`), and once its client has ended, it has come to
what serving the whole stream comes to (`Resumes.close`). Nothing is asked of the memory here:
a value that is refused for want of it is refused in the same place either way.
-/

namespace WireStore

variable {alloc : Allocator} {limits : Limits} {store changed before : Store}
  {source rest : Source} {bytes : Bytes} {reply : Reply} {replies : List Reply}
  {connection : Connection}

namespace Move

theorem takes_of_answer
    (answered : next alloc limits store source = (.answer reply changed, rest)) :
    ∃ front, source.signals = Signal.octets front ++ rest.signals ∧
      Reader.Takes (next alloc limits store) front (.answer reply changed) := by
  obtain ⟨move, left⟩ := Prod.mk.inj answered
  obtain ⟨incoming, found, present⟩ := present_of_answer move
  have read : Incoming.read alloc limits source = (.ok incoming, rest) := Prod.ext found left
  obtain ⟨front, consumed, size, -, taken⟩ := Incoming.read_determined read present
  rw [found] at move
  refine ⟨front, consumed, (taken alloc rfl).restate fun other behind here => ?_⟩
  have alike : Incoming.read alloc limits other = (.ok incoming, behind) := here
  simp only [next, alike, move]

/-- What a server does next depends on what its source signals. -/
theorem next_congr (alloc : Allocator) (limits : Limits) (store : Store) {first second : Source}
    (same : first.signals = second.signals) :
    (next alloc limits store first).1 = (next alloc limits store second).1 := by
  obtain ⟨found, -⟩ := Incoming.read_respectsSignals alloc limits first second same
  simp only [next, found]

end Move

namespace Connection

/-- Holds of a connection on which these bytes have come, if serving a stream that begins with them
comes by where the connection is: the same store, the same replies, and its pending bytes next. -/
def Resumes (alloc : Allocator) (limits : Limits) (before : Store) (bytes : Bytes)
    (connection : Connection) (store : Store) : Prop :=
  ∀ more source sink, source.signals = Signal.octets bytes ++ more → sink.Reliable →
    ∃ rest after,
      serve alloc limits before source sink = serve alloc limits store rest after ∧
      rest.signals = Signal.octets connection.pending ++ more ∧ after.Reliable ∧
      after.written = sink.written ++ connection.output

/-- Holds of bytes in which a server finds no frame to answer. -/
def Incomplete (alloc : Allocator) (limits : Limits) (store : Store) (bytes : Bytes) : Prop :=
  ∀ source reply changed rest,
    source.signals = Signal.octets bytes ++ (Ending.broken awaiting []).signals →
    Move.next alloc limits store source ≠ (.answer reply changed, rest)

theorem resumes_fresh (alloc : Allocator) (limits : Limits) (store : Store) (bytes : Bytes) :
    Resumes alloc limits store bytes ⟨bytes, []⟩ store := by
  intro more source sink same reliable
  exact ⟨source, sink, rfl, same, reliable, (List.append_nil _).symm⟩

theorem Resumes.arrive (resumes : Resumes alloc limits before bytes connection store)
    (more : Bytes) :
    Resumes alloc limits before (bytes ++ more)
      { connection with pending := connection.pending ++ more } store := by
  intro later source sink same reliable
  rw [Signal.octets_append, List.append_assoc] at same
  obtain ⟨rest, after, goesOn, left, sound, written⟩ := resumes _ source sink same reliable
  refine ⟨rest, after, goesOn, ?_, sound, written⟩
  rw [left, Signal.octets_append, List.append_assoc]

theorem output_concat (pending rest : Bytes) (reply : Reply) (replies : List Reply) :
    output ⟨rest, reply :: replies⟩ = output ⟨pending, replies⟩ ++ reply.encode := by
  simp [output]

/-- A frame that is answered from the pending bytes is answered so in the stream. -/
theorem Resumes.answer (resumes : Resumes alloc limits before bytes connection store)
    (same : source.signals =
      Signal.octets connection.pending ++ (Ending.broken awaiting []).signals)
    (answered : Move.next alloc limits store source = (.answer reply changed, rest)) :
    Resumes alloc limits before bytes ⟨rest.bytes, reply :: connection.replies⟩ changed ∧
      rest.signals = Signal.octets rest.bytes ++ (Ending.broken awaiting []).signals := by
  obtain ⟨front, consumed, taken⟩ := Move.takes_of_answer answered
  have pending : connection.pending = front ++ rest.bytes :=
    (bytes_of_arrived same).symm.trans (Source.bytes_of_signals consumed)
  constructor
  · intro more stream sink arrives reliable
    obtain ⟨there, after, goesOn, left, sound, written⟩ := resumes more stream sink arrives reliable
    rw [pending, Signal.octets_append, List.append_assoc] at left
    obtain ⟨behind, next, signals⟩ := taken there _ left
    obtain ⟨last, wrote, lastSound, all⟩ := sound.write reply
    refine ⟨behind, last, ?_, signals, lastSound, ?_⟩
    · rw [goesOn, serve_of_answer next wrote]
    · rw [all, written, List.append_assoc,
        output_concat connection.pending rest.bytes reply connection.replies]
  · rw [pending, Signal.octets_append, List.append_assoc, consumed] at same
    exact List.append_cancel_left same

theorem answerAll_of_stop {farewell : Option Reply} {result : Except Error Unit}
    (next : Move.next alloc limits store source = (.stop farewell result, rest)) :
    answerAll alloc limits store source replies = (replies, source, store) := by
  rw [answerAll]
  split
  · rfl
  next next' => cases next.symm.trans next'

theorem incomplete_of_stop {farewell : Option Reply} {result : Except Error Unit}
    (same : source.signals = Signal.octets bytes ++ (Ending.broken awaiting []).signals)
    (stops : Move.next alloc limits store source = (.stop farewell result, rest)) :
    Incomplete alloc limits store bytes := by
  intro other reply changed left alike answered
  have moved := Move.next_congr alloc limits store (same.trans alike.symm)
  rw [stops, answered] at moved
  exact nomatch moved

/-- Answering whatever is complete keeps up with the stream and leaves no frame to answer. -/
theorem Resumes.answerAll (resumes : Resumes alloc limits before bytes connection store)
    (same : source.signals =
      Signal.octets connection.pending ++ (Ending.broken awaiting []).signals) :
    ∃ replies rest changed,
      Connection.answerAll alloc limits store source connection.replies =
        (replies, rest, changed) ∧
      Resumes alloc limits before bytes ⟨rest.bytes, replies⟩ changed ∧
      Incomplete alloc limits changed rest.bytes := by
  -- Each answer uses up bytes of the source, so the answers come to an end.
  induction size : source.size using Nat.strongRecOn generalizing connection store source with
  | _ size ih =>
    subst size
    rcases next : Move.next alloc limits store source with ⟨_ | _, rest⟩
    next reply changed =>
      obtain ⟨later, signals⟩ := resumes.answer same next
      rw [answerAll_of_answer next]
      exact ih rest.size (Move.size_next_lt next) later signals rfl
    next farewell result =>
      have own : source.bytes = connection.pending := bytes_of_arrived same
      rw [answerAll_of_stop next]
      refine ⟨_, _, _, rfl, ?_, ?_⟩
      · rw [own]
        exact resumes
      · rw [own]
        exact incomplete_of_stop same next

theorem Resumes.advance (resumes : Resumes alloc limits before bytes connection store) :
    let advanced := Connection.advance alloc limits store connection
    Resumes alloc limits before bytes advanced.1 advanced.2 ∧
      Incomplete alloc limits advanced.2 advanced.1.pending := by
  obtain ⟨replies, rest, changed, answered, later, incomplete⟩ :=
    resumes.answerAll (signals_arrived connection.pending)
  simp only [Connection.advance, answered]
  exact ⟨later, incomplete⟩

/-- Once the client has ended, a connection has come to what serving its stream comes to. -/
theorem Resumes.close (resumes : Resumes alloc limits before bytes connection store)
    (incomplete : Incomplete alloc limits store connection.pending) :
    let served := serve alloc limits before (.ofBytes bytes) {}
    served.store = store ∧
      served.sink.written = (Connection.close alloc limits store connection).output := by
  have reliable : Sink.Reliable {} := ⟨rfl, by decide, rfl⟩
  obtain ⟨rest, after, goesOn, left, sound, written⟩ :=
    resumes [] (.ofBytes bytes) {} rfl reliable
  have alike : (Source.ofBytes connection.pending).signals = rest.signals := left.symm
  have moved := Move.next_congr alloc limits store alike
  rw [goesOn]
  rcases next : Move.next alloc limits store rest with ⟨_ | _, behind⟩
  next reply changed =>
    -- A frame that is complete at the end was complete before it.
    obtain ⟨front, consumed, taken⟩ := Move.takes_of_answer next
    rw [left] at consumed
    have waiting : (arrived connection.pending).signals =
        Signal.octets front ++ (behind.signals ++ (Ending.broken awaiting []).signals) := by
      rw [signals_arrived, ← List.append_assoc, ← consumed, List.append_nil]
    obtain ⟨last, answered, -⟩ := taken _ _ waiting
    exact absurd answered (incomplete _ _ _ _ (signals_arrived _))
  next farewell result =>
    rw [next] at moved
    rw [serve_of_stop next]
    refine ⟨rfl, ?_⟩
    unfold Connection.close
    rw [moved]
    rw [written_sendFarewell sound, written]
    cases farewell with
    | none => exact List.append_nil _
    | some reply =>
      rw [output_concat connection.pending [] reply connection.replies]
      exact congrArg _ (List.append_nil _)

end Connection

end WireStore
