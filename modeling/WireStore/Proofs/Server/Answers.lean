import WireStore.Proofs.Frame.Framing
import WireStore.Proofs.Stream.Buffered
import WireStore.Server.Serving

/-!
# Answers to frames

What a server does on a connection is said by the frames that its client sent: each is answered on
the store that the ones before it left. `Store.answers` says so for a row of frames, for this very
store, and `Move.next_answer` that one move of a server does it for the first frame of its source.
-/

namespace WireStore

variable {alloc : Allocator} {limits : Limits} {store changed : Store} {source rest : Source}
  {out after : Buffered} {sink : Sink} {bytes left : Bytes} {outcome : Except Error Request}
  {reply : Reply} {more : List Signal}

namespace Store

/-- The answer to a frame, and the store after it: a request is carried out, a refusal is
reported. -/
def answer (alloc : Allocator) (store : Store) : Except Error Request → Reply × Store
  | .ok request => store.execute alloc request
  | .error reason => (.ofError reason, store)

/-- The answers to frames one after another, and the store after them. -/
def answers (alloc : Allocator) (store : Store) :
    List (Except Error Request) → List Reply × Store
  | [] => ([], store)
  | outcome :: others =>
    let (reply, changed) := store.answer alloc outcome
    let (replies, last) := changed.answers alloc others
    (reply :: replies, last)

theorem answers_cons (alloc : Allocator) (store : Store) (outcome : Except Error Request)
    (others : List (Except Error Request)) :
    store.answers alloc (outcome :: others) =
      ((store.answer alloc outcome).1 :: ((store.answer alloc outcome).2.answers alloc others).1,
        ((store.answer alloc outcome).2.answers alloc others).2) := rfl

theorem answers_append (alloc : Allocator) (store : Store)
    (first second : List (Except Error Request)) :
    store.answers alloc (first ++ second) =
      ((store.answers alloc first).1 ++ ((store.answers alloc first).2.answers alloc second).1,
        ((store.answers alloc first).2.answers alloc second).2) := by
  induction first generalizing store with
  | nil => rfl
  | cons outcome others ih =>
    rw [List.cons_append, answers_cons, ih, answers_cons]
    rfl

@[simp]
theorem length_answers (alloc : Allocator) (store : Store)
    (outcomes : List (Except Error Request)) :
    (store.answers alloc outcomes).1.length = outcomes.length := by
  induction outcomes generalizing store with
  | nil => rfl
  | cons outcome others ih =>
    rw [answers_cons, List.length_cons, ih, List.length_cons]

end Store

/-- A server answers the first frame of its source, whatever follows it, and goes on behind it. -/
theorem Move.next_answer (store : Store) (granted : Opening.Granted alloc outcome)
    (found : Opening.of limits bytes = .frame outcome left)
    (same : source.signals = Signal.octets bytes ++ more) :
    ∃ rest,
      Move.next alloc limits store source =
        (.answer (store.answer alloc outcome).1 (store.answer alloc outcome).2, rest) ∧
      rest.signals = Signal.octets left ++ more := by
  obtain ⟨rest, read, behind⟩ := Incoming.read_of_frame granted found same
  refine ⟨rest, ?_, behind⟩
  unfold Move.next
  rw [read]
  cases outcome <;> rfl

/-! ## The equations of a server -/

theorem handle_of_stop {farewell : Option Reply} {result : Except Error Unit}
    (next : Move.next alloc limits store source = (.stop farewell result, rest)) :
    handle alloc limits store source out = ⟨result, store, sendFarewell out farewell⟩ := by
  rw [handle]
  split
  next next' =>
    obtain ⟨⟨rfl, rfl⟩, -⟩ := by simpa using next.symm.trans next'
    rfl
  next next' => cases next.symm.trans next'

theorem handle_of_answer
    (next : Move.next alloc limits store source = (.answer reply changed, rest))
    (written : reply.write out = (.ok (), after)) :
    handle alloc limits store source out = handle alloc limits changed rest after := by
  rw [handle]
  split
  next next' => cases next.symm.trans next'
  next next' =>
    obtain ⟨⟨rfl, rfl⟩, rfl⟩ := by simpa using next.symm.trans next'
    rw [written]

/-- A reply that cannot be written ends a connection; what it answers stays done. -/
theorem handle_of_failure {reason : Error}
    (next : Move.next alloc limits store source = (.answer reply changed, rest))
    (failed : reply.write out = (.error reason, after)) :
    handle alloc limits store source out =
      ⟨if reason.isDeparture then .ok () else .error reason, changed, after⟩ := by
  rw [handle]
  split
  next next' => cases next.symm.trans next'
  next next' =>
    obtain ⟨⟨rfl, rfl⟩, rfl⟩ := by simpa using next.symm.trans next'
    rw [failed]

theorem serve_of_stop {farewell : Option Reply} {result : Except Error Unit}
    (next : Move.next alloc limits store source = (.stop farewell result, rest)) :
    serve alloc limits store source sink =
      ⟨result, store, (sendFarewell sink.buffered farewell).close⟩ := by
  rw [serve, handle_of_stop next, Handled.close]

/-- A server that has written a reply goes on as one that has just begun. -/
theorem serve_of_answer {after : Sink}
    (next : Move.next alloc limits store source = (.answer reply changed, rest))
    (written : reply.write sink.buffered = (.ok (), after.buffered)) :
    serve alloc limits store source sink = serve alloc limits changed rest after := by
  rw [serve, handle_of_answer next written, serve]

/-- A farewell arrives on a sink that takes everything. -/
theorem written_sendFarewell (reliable : sink.Reliable) (farewell : Option Reply) :
    (sendFarewell sink.buffered farewell).close.written =
      sink.written ++ farewell.toList.flatMap Reply.encode := by
  cases farewell with
  | none => simp [sendFarewell]
  | some reply =>
    obtain ⟨after, written, -, all⟩ := reliable.write reply
    simp [sendFarewell, written, all]

end WireStore
