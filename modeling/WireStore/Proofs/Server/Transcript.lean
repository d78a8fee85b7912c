import Mathlib.Algebra.Group.Nat.Defs
import WireStore.Proofs.Server.Answers
import WireStore.Proofs.Store.Bindings

/-!
# What serving a connection comes to

The conversation of a client and a server, said without streams: the bytes of
the client are cut into frames one after another, each frame is answered on the
bindings that those before it left, and what is left in the end, together with
the way the bytes came to their end, decides how the connection ends.

Serving a connection comes to exactly this, for all bytes, cut and delivered in
any way, and for every end. The induction is on the frames; what carries it is
that after each answer the source is left with the signals of what follows the
frame, and the store with the bindings after it.
-/

namespace WireStore

/-- How the bytes of a client come to their end. -/
inductive Ending where
  /-- The client closes its side. -/
  | closed
  /-- The source raises a fault, and then whatever it may. -/
  | broken (reason : Fault) (later : List Signal)

namespace Ending

/-- What is signalled after the last byte. -/
def signals : Ending → List Signal
  | .closed => []
  | .broken reason later => .fault reason :: later

/-- The reply with which a server parts from a client that closed its side and left these
bytes, which are less than a frame. -/
def farewell (limits : Limits) (left : Bytes) : Ending → Option Reply
  | .closed =>
    match Opening.of limits left with
    | .partialPayload _ _ => some (.error "premature EOF on value")
    | _ => none
  | .broken _ _ => none

/-- How serving ends where these bytes were left, which are less than a frame. -/
def result (limits : Limits) (left : Bytes) : Ending → Except Error Unit
  | .closed =>
    match Opening.of limits left with
    | .partialPayload expected received => .error (.prematureEnd expected received)
    | _ => if left = [] then .ok () else .error (.io .brokenLine)
  | .broken reason _ => if reason.kind.isDeparture then .ok () else .error (.io reason)

end Ending

namespace Bindings

/-- The answer to a frame: a request is carried out, a refusal is reported. -/
def answer (bindings : Bindings) : Except Error Request → Reply × Bindings
  | .ok request => bindings.execute request
  | .error reason => (.error reason.message, bindings)

end Bindings

/-- The replies to the frames at the beginning of some bytes, the bindings after them, and the
bytes left, which are less than a frame. -/
def converse (limits : Limits) (bindings : Bindings) (bytes : Bytes) :
    List Reply × Bindings × Bytes :=
  match _ : Opening.of limits bytes with
  | .frame outcome rest =>
    let (reply, changed) := bindings.answer outcome
    let (replies, last, left) := converse limits changed rest
    (reply :: replies, last, left)
  | _ => ([], bindings, bytes)
termination_by bytes.length
decreasing_by exact Opening.length_rest_lt ‹_›

/-- Everything that comes of serving a connection. -/
structure Transcript where
  replies : List Reply
  bindings : Bindings
  result : Except Error Unit

namespace Transcript

/-- What comes of a connection on which these bytes arrive. -/
def of (limits : Limits) (bindings : Bindings) (bytes : Bytes) (ending : Ending) : Transcript :=
  let (replies, last, left) := converse limits bindings bytes
  { replies := replies ++ (ending.farewell limits left).toList
    bindings := last
    result := ending.result limits left }

/-- The bytes of all replies. -/
def output (transcript : Transcript) : Bytes := transcript.replies.flatMap Reply.encode

end Transcript

variable {alloc : Allocator} {limits : Limits} {store changed : Store} {source rest : Source}
  {sink : Sink} {bytes left : Bytes} {bindings : Bindings} {ending : Ending}
  {outcome : Except Error Request} {more : List Signal}

/-! ## The equations of the definitions -/

theorem converse_of_frame (found : Opening.of limits bytes = .frame outcome left) :
    converse limits bindings bytes =
      ((bindings.answer outcome).1 :: (converse limits (bindings.answer outcome).2 left).1,
        (converse limits (bindings.answer outcome).2 left).2) := by
  rw [converse]
  split
  next outcome' left' found' =>
    obtain ⟨rfl, rfl⟩ := Opening.frame.inj (found.symm.trans found')
    rfl
  next partly => exact absurd found (partly outcome left)

theorem converse_of_partial
    (partly : ∀ outcome rest, Opening.of limits bytes ≠ .frame outcome rest) :
    converse limits bindings bytes = ([], bindings, bytes) := by
  rw [converse]
  split
  next outcome rest found => exact absurd found (partly outcome rest)
  · rfl

/-! ## One frame -/

/-- A refusal is reported by its message as it stands. -/
theorem ofError_of_refusal {reason : Error}
    (found : Opening.of limits bytes = .frame (.error reason) left) :
    Reply.ofError reason = .error reason.message := by
  rcases Opening.reason_of_refusal found with rfl | rfl | rfl <;>
    exact congrArg Reply.error (Reply.flatten_eq_self (by decide))

/-- A store answers a frame as the partial map of its bindings does. -/
theorem Store.answer_eq (store : Store) (granted : Opening.Granted alloc outcome)
    (found : Opening.of limits bytes = .frame outcome left) :
    (store.answer alloc outcome).1 = (Bindings.answer store.find? outcome).1 ∧
      (store.answer alloc outcome).2.find? = (Bindings.answer store.find? outcome).2 := by
  cases outcome with
  | ok request => exact store.execute_eq request fun value => granted request value rfl
  | error reason => exact ⟨ofError_of_refusal found, rfl⟩

/-- A server answers a frame as the partial map does, whatever follows it, and goes on from
there. -/
theorem Move.next_of_frame (store : Store) (granted : Opening.Granted alloc outcome)
    (found : Opening.of limits bytes = .frame outcome left)
    (same : source.signals = Signal.octets bytes ++ more) :
    ∃ changed after,
      Move.next alloc limits store source =
        (.answer (Bindings.answer store.find? outcome).1 changed, after) ∧
      changed.find? = (Bindings.answer store.find? outcome).2 ∧
      after.signals = Signal.octets left ++ more := by
  obtain ⟨after, next, behind⟩ := Move.next_answer store granted found same
  obtain ⟨reply, changed⟩ := store.answer_eq granted found
  rw [reply] at next
  exact ⟨(store.answer alloc outcome).2, after, next, changed, behind⟩

/-- Where less than a frame is left, a server parts from the client as the end of the bytes
has it. -/
theorem Move.next_of_partial (alloc : Allocator) (store : Store)
    (partly : ∀ outcome rest, Opening.of limits bytes ≠ .frame outcome rest)
    (same : source.signals = Signal.octets bytes ++ ending.signals) :
    ∃ after, Move.next alloc limits store source =
      (.stop (ending.farewell limits bytes) (ending.result limits bytes), after) := by
  unfold Move.next
  refine ⟨(Incoming.read alloc limits source).2, ?_⟩
  cases ending with
  | closed =>
    rw [Ending.signals, List.append_nil] at same
    cases found : Opening.of limits bytes with
    | frame outcome rest => exact absurd found (partly outcome rest)
    | partialLine =>
      simp only [Incoming.read_of_partialLine alloc found same, Ending.farewell, Ending.result,
        found]
      split <;> rfl
    | partialPayload expected received =>
      have parting : Reply.ofError (.prematureEnd expected received) =
          .error "premature EOF on value" :=
        congrArg Reply.error (@Reply.flatten_eq_self "premature EOF on value" (by decide))
      simp only [Incoming.read_of_partialPayload alloc found same, Ending.farewell,
        Ending.result, found, Move.after, Move.afterError, parting]
  | broken reason later =>
    simp only [Incoming.read_of_fault alloc partly same]
    rfl

/-! ## A whole connection -/

/-- Serving a connection comes to its transcript. Whatever bytes arrive, in whatever chunks and
with whatever interruptions, and whether the client then closes its side or the source raises a
fault, in the middle of a frame or between two: the store, the bytes written and the result are
those of the frames cut off the bytes one after another. -/
theorem serve_eq_transcript (store : Store) (memory : ∀ size ≤ bytes.length, alloc size = true)
    (arrives : source.signals = Signal.octets bytes ++ ending.signals)
    (reliable : sink.Reliable) :
    let served := serve alloc limits store source sink
    let transcript := Transcript.of limits store.find? bytes ending
    served.store.find? = transcript.bindings ∧
      served.sink.written = sink.written ++ transcript.output ∧
      served.result = transcript.result := by
  -- every frame takes at least its line feed, so the bytes left are fewer
  induction size : bytes.length using Nat.strongRecOn generalizing bytes store source sink with
  | _ size ih =>
    subst size
    by_cases whole : ∃ outcome left, Opening.of limits bytes = .frame outcome left
    · obtain ⟨outcome, left, found⟩ := whole
      have shorter := Opening.length_rest_lt found
      obtain ⟨changed, rest, next, bindings, behind⟩ :=
        Move.next_of_frame store (Opening.granted_of_length memory found) found arrives
      obtain ⟨after, written, afterReliable, all⟩ :=
        reliable.write (Bindings.answer store.find? outcome).1
      obtain ⟨stored, output, result⟩ := ih left.length shorter changed
        (fun size small => memory size (by omega)) behind afterReliable rfl
      rw [serve_of_answer next written]
      simp only [Transcript.of, Transcript.output, converse_of_frame found, ← bindings] at *
      refine ⟨stored, ?_, result⟩
      rw [output, all]
      simp
    · have partly : ∀ outcome rest, Opening.of limits bytes ≠ .frame outcome rest :=
        fun outcome rest found => whole ⟨outcome, rest, found⟩
      obtain ⟨rest, next⟩ := Move.next_of_partial alloc store partly arrives
      rw [serve_of_stop next]
      simp only [Transcript.of, Transcript.output, converse_of_partial partly, List.nil_append,
        true_and, and_true]
      rw [written_sendFarewell reliable]

/-- A frame that is answered and another that is cut short in its payload, delivered in two
chunks with an interruption between them. -/
theorem serve_eq_transcript_of_cut_payload :
    let bytes := Utf8.encode "UPDATE 7 0\r\nCREATE 7 3\nab"
    let source : Source := .chunk (bytes.take 11)
      (.fault ⟨.interrupted, "again"⟩ (.chunk (bytes.drop 11) .ended))
    let served := serve .unlimited {} ∅ source {}
    source.signals = Signal.octets bytes ++ Ending.closed.signals ∧
      served.sink.written =
        Utf8.encode "ERR size must be > 0\nERR premature EOF on value\n" ∧
      served.result = .error (.prematureEnd 3 2) := by
  intro bytes source served
  have memory : ∀ size ≤ bytes.length, Allocator.unlimited size = true := by
    intro size small
    have length : bytes.length = 25 := rfl
    exact Allocator.unlimited_iff.mpr (by omega)
  have arrives : source.signals = Signal.octets bytes ++ Ending.closed.signals := rfl
  have reliable : Sink.Reliable {} := ⟨rfl, nofun, rfl⟩
  have refused : Opening.of {} bytes =
      .frame (.error .emptyUpdate) (Utf8.encode "CREATE 7 3\nab") := rfl
  have partly : Opening.of {} (Utf8.encode "CREATE 7 3\nab") = .partialPayload 3 2 := rfl
  have cut : converse {} (Store.find? ∅) (Utf8.encode "CREATE 7 3\nab") = _ :=
    converse_of_partial fun _ _ found => nomatch partly.symm.trans found
  obtain ⟨-, output, result⟩ := serve_eq_transcript ∅ memory arrives reliable
  refine ⟨arrives, output.trans ?_, result.trans ?_⟩
  · simp only [Transcript.of, Transcript.output, converse_of_frame refused, Bindings.answer, cut]
    rfl
  · simp only [Transcript.of, converse_of_frame refused, Bindings.answer, cut]
    rfl

end WireStore
