import Mathlib.Control.Monad.Basic
import WireStore.Proofs.Server.Transcript

/-!
# Replies that cannot be written

A server applies a frame and then answers it, and reads no further frame before the answer has been
written and flushed. `Awaiting.Reaches` says from which states a server reads: in each of them the
buffer of the replies is empty and all replies so far have reached the sink. So when a reply cannot
be written, everything before it has arrived, the frame that it answers stays applied, and no frame
behind that one was looked at (`serve_of_failed_reply`). Where and why the reply fails decides
nothing but the bytes of it that got through, before or as the buffer was given up, and the result.
-/

namespace WireStore

variable {alloc : Allocator} {limits : Limits} {store : Store} {source : Source} {sink : Sink}
  {out mid broken : Buffered} {bytes left : Bytes} {ending : Ending} {more : List Signal}
  {first later : List (Except Error Request)} {reply : Reply} {before replies others : List Reply}
  {failure : Error}

/-- The replies due to a client that sends these bytes, whether or not they can be written. -/
def repliesDue (alloc : Allocator) (limits : Limits) (store : Store) (bytes : Bytes)
    (ending : Ending) : List Reply :=
  let (outcomes, left) := Opening.frames limits bytes
  (store.answers alloc outcomes).1 ++ (ending.farewell limits left).toList

/-! ## From frame to frame -/

/-- A server that is about to read a frame. -/
structure Awaiting where
  store : Store
  source : Source
  out : Buffered

namespace Awaiting

variable {start last there : Awaiting}

/-- Holds where a server that is about to read a frame writes these replies and is then about to
read another. -/
inductive Reaches (alloc : Allocator) (limits : Limits) : Awaiting → List Reply → Awaiting → Prop
  | here (start : Awaiting) : Reaches alloc limits start [] start
  | answer {store changed : Store} {source rest : Source} {out after : Buffered} {reply : Reply}
      {replies : List Reply} {there : Awaiting}
      (next : Move.next alloc limits store source = (.answer reply changed, rest))
      (written : reply.write out = (.ok (), after))
      (others : Reaches alloc limits ⟨changed, rest, after⟩ replies there) :
      Reaches alloc limits ⟨store, source, out⟩ (reply :: replies) there

/-- Holds of a server that reads no other frame after the one that it is about to read. -/
def Last (alloc : Allocator) (limits : Limits) (awaiting : Awaiting) : Prop :=
  ∀ reply changed rest after,
    Move.next alloc limits awaiting.store awaiting.source = (.answer reply changed, rest) →
      reply.write awaiting.out ≠ (.ok (), after)

namespace Reaches

/-- A server comes to the same from wherever it is about to read. -/
theorem handle_eq (reaches : start.Reaches alloc limits replies there) :
    handle alloc limits start.store start.source start.out =
      handle alloc limits there.store there.source there.out := by
  induction reaches with
  | here start => rfl
  | answer next written others ih => rw [handle_of_answer next written, ih]

theorem writes (reaches : start.Reaches alloc limits replies there) :
    start.out.Writes replies there.out := by
  induction reaches with
  | here start => exact .nil _
  | answer next written others ih => exact .cons written ih

/-- Nothing is held back where a frame is about to be read, and all replies so far have reached the
sink. -/
theorem flushed (reaches : start.Reaches alloc limits replies there)
    (fresh : start.out = sink.buffered) :
    there.out.pending = [] ∧
      there.out.sink.written = sink.written ++ replies.flatMap Reply.encode := by
  have writes := reaches.writes
  rw [fresh] at writes
  obtain ⟨after, same, took⟩ := Sink.took_of_writes writes
  rw [same]
  exact ⟨rfl, took.written⟩

/-- A server gets no further than to where it reads its last frame. -/
theorem isPrefix_of_last (final : last.Last alloc limits)
    (whole : start.Reaches alloc limits before last)
    (reaches : start.Reaches alloc limits replies there) : replies <+: before := by
  induction whole generalizing replies there with
  | here start =>
    cases reaches with
    | here => exact List.prefix_rfl
    | answer next written others => exact absurd written (final _ _ _ _ next)
  | answer next written others ih =>
    cases reaches with
    | here => exact List.nil_prefix
    | answer next' written' others' =>
      -- A server has no choice between two moves.
      obtain ⟨⟨rfl, rfl⟩, rfl⟩ := by simpa using next.symm.trans next'
      obtain rfl := (Prod.mk.inj (written.symm.trans written')).2
      exact (List.prefix_cons_inj _).mpr (ih final others')

end Reaches

end Awaiting

/-- A server whose replies to some frames are written goes on behind these frames. -/
theorem reaches_of_writes (store : Store)
    (granted : ∀ outcome ∈ first, Opening.Granted alloc outcome)
    (framed : Opening.frames limits bytes = (first ++ later, left))
    (arrives : source.signals = Signal.octets bytes ++ more)
    (arrived : out.Writes (store.answers alloc first).1 mid) :
    ∃ tail rest,
      Awaiting.Reaches alloc limits ⟨store, source, out⟩ (store.answers alloc first).1
        ⟨(store.answers alloc first).2, rest, mid⟩ ∧
      rest.signals = Signal.octets tail ++ more ∧
      Opening.frames limits tail = (later, left) := by
  -- One frame at a time: its reply is flushed before the next frame is read.
  induction first generalizing store bytes source out with
  | nil =>
    cases arrived
    exact ⟨bytes, source, .here _, arrives, framed⟩
  | cons outcome others ih =>
    obtain ⟨behind, found, framedBehind⟩ := Opening.frames_eq_cons framed
    obtain ⟨rest, next, arrivesBehind⟩ :=
      Move.next_answer store (granted outcome List.mem_cons_self) found arrives
    rw [Store.answers_cons] at arrived ⊢
    obtain ⟨after, written, arrivedBehind⟩ := Buffered.writes_cons_iff.mp arrived
    obtain ⟨tail, last, goesOn, left, framedTail⟩ :=
      ih _ (fun other mem => granted other (List.mem_cons_of_mem _ mem)) framedBehind
        arrivesBehind arrivedBehind
    exact ⟨tail, last, .answer next written goesOn, left, framedTail⟩

/-- A server parts with a reply from a client only where a payload was cut short. -/
theorem Ending.farewell_eq_some (parted : ending.farewell limits left = some reply) :
    reply = .error "premature EOF on value" ∧ ∃ expected received,
      Opening.of limits left = .partialPayload expected received ∧
      ending.result limits left = .error (.prematureEnd expected received) := by
  cases ending with
  | broken reason later => exact nomatch parted
  | closed =>
    cases found : Opening.of limits left with
    | partialPayload expected received =>
      simp only [farewell, found] at parted
      refine ⟨(Option.some.inj parted).symm, expected, received, rfl, ?_⟩
      simp only [result, found]
    | frame | partialLine => simp [farewell, found] at parted

theorem FaultKind.isDeparture_iff {kind : FaultKind} : kind.isDeparture = true ↔
    kind ∈ [.connectionReset, .connectionAborted, .brokenPipe, .wouldBlock, .timedOut] := by
  cases kind <;> decide

/-! ## At the last frame -/

/-- A server at a reply that fails has applied the frame it answers and no frame behind it. -/
theorem handle_of_failed_answer {outcome : Except Error Request} (store : Store)
    (granted : ∀ other ∈ first ++ outcome :: later, Opening.Granted alloc other)
    (framed : Opening.frames limits bytes = (first ++ outcome :: later, left))
    (arrives : source.signals = Signal.octets bytes ++ more)
    (arrived : out.Writes (store.answers alloc first).1 mid)
    (failed : ((store.answers alloc first).2.answer alloc outcome).1.write mid =
      (.error failure, broken)) :
    ∃ last : Awaiting, last.out = mid ∧ last.Last alloc limits ∧
      Awaiting.Reaches alloc limits ⟨store, source, out⟩ (store.answers alloc first).1 last ∧
      handle alloc limits store source out =
        ⟨if failure.isDeparture then .ok () else .error failure,
          (store.answers alloc (first ++ [outcome])).2, broken⟩ := by
  obtain ⟨tail, rest, reaches, behind, framedTail⟩ := reaches_of_writes store
    (fun other mem => granted other (List.mem_append_left _ mem)) framed arrives arrived
  obtain ⟨_, found, -⟩ := Opening.frames_eq_cons framedTail
  obtain ⟨_, next, -⟩ := Move.next_answer (store.answers alloc first).2
    (granted outcome (List.mem_append_right _ List.mem_cons_self)) found behind
  refine ⟨_, rfl, fun other changed left after next' written => ?_, reaches, ?_⟩
  · obtain ⟨⟨rfl, rfl⟩, rfl⟩ := by simpa using next.symm.trans next'
    cases failed.symm.trans written
  · rw [reaches.handle_eq, handle_of_failure next failed, Store.answers_append]
    rfl

/-- A server at a farewell has applied all frames, and the farewell does not matter any more. -/
theorem handle_of_farewell (store : Store)
    (granted : ∀ other ∈ (Opening.frames limits bytes).1, Opening.Granted alloc other)
    (arrives : source.signals = Signal.octets bytes ++ ending.signals)
    (arrived : out.Writes (store.answers alloc (Opening.frames limits bytes).1).1 mid) :
    ∃ last : Awaiting, last.out = mid ∧ last.Last alloc limits ∧
      Awaiting.Reaches alloc limits ⟨store, source, out⟩
        (store.answers alloc (Opening.frames limits bytes).1).1 last ∧
      handle alloc limits store source out =
        ⟨ending.result limits (Opening.frames limits bytes).2,
          (store.answers alloc (Opening.frames limits bytes).1).2,
          sendFarewell mid (ending.farewell limits (Opening.frames limits bytes).2)⟩ := by
  rcases framed : Opening.frames limits bytes with ⟨outcomes, left⟩
  rw [framed] at granted arrived
  rw [← List.append_nil outcomes] at framed
  obtain ⟨tail, rest, reaches, behind, framedTail⟩ :=
    reaches_of_writes store granted framed arrives arrived
  have partly := Opening.partial_of_frames limits tail
  obtain rfl := Opening.frames_eq_nil framedTail
  rw [framedTail] at partly
  obtain ⟨_, next⟩ := Move.next_of_partial alloc (store.answers alloc outcomes).2 partly behind
  refine ⟨_, rfl, fun other changed left after next' _ => ?_, reaches, ?_⟩
  · cases next.symm.trans next'
  · rw [reaches.handle_eq, handle_of_stop next]

/-- A client that ends its side and takes everything it is sent gets all replies due to it. -/
theorem serve_of_closed (store : Store)
    (granted : ∀ other ∈ (Opening.frames limits bytes).1, Opening.Granted alloc other)
    (arrives : source.signals = Signal.octets bytes) (reliable : sink.Reliable) :
    ∃ after,
      serve alloc limits store source sink =
        ⟨Ending.closed.result limits (Opening.frames limits bytes).2,
          (store.answers alloc (Opening.frames limits bytes).1).2, after⟩ ∧
      after.written =
        sink.written ++ (repliesDue alloc limits store bytes .closed).flatMap Reply.encode := by
  obtain ⟨_, writes⟩ :=
    reliable.writes (store.answers alloc (Opening.frames limits bytes).1).1
  obtain ⟨mid, rfl, took⟩ := Sink.took_of_writes writes
  have closed : source.signals = Signal.octets bytes ++ Ending.closed.signals :=
    arrives.trans (List.append_nil _).symm
  obtain ⟨last, -, -, -, handled⟩ := handle_of_farewell store granted closed writes
  refine ⟨_, congrArg Handled.close handled, ?_⟩
  rw [written_sendFarewell (took.reliable reliable), took.written, List.append_assoc]
  simp only [repliesDue, List.flatMap_append]

/-- A reply that fails is the answer to a frame or the farewell, and the replies before it are
those to the frames before. -/
theorem failed_reply_cases
    (due : repliesDue alloc limits store bytes ending = before ++ reply :: others) :
    (∃ first outcome later, (Opening.frames limits bytes).1 = first ++ outcome :: later ∧
        before = (store.answers alloc first).1 ∧
        reply = ((store.answers alloc first).2.answer alloc outcome).1) ∨
      before = (store.answers alloc (Opening.frames limits bytes).1).1 ∧
        ending.farewell limits (Opening.frames limits bytes).2 = some reply := by
  rcases framed : Opening.frames limits bytes with ⟨outcomes, left⟩
  simp only [repliesDue, framed] at due
  by_cases here : before.length < outcomes.length
  · obtain ⟨first, behind, rfl, length⟩ :
        ∃ first behind, outcomes = first ++ behind ∧ first.length = before.length :=
      ⟨outcomes.take before.length, outcomes.drop before.length,
        (List.take_append_drop ..).symm, List.length_take_of_le (Nat.le_of_lt here)⟩
    cases behind with
    | nil => simp [length] at here
    | cons outcome later =>
      rw [Store.answers_append, List.append_assoc, Store.answers_cons] at due
      obtain ⟨same, others⟩ := List.append_inj due (by rw [Store.length_answers, length])
      exact .inl ⟨first, outcome, later, rfl, same.symm, (List.cons.inj others).1.symm⟩
  · have lengths := congrArg List.length due
    simp only [List.length_append, Store.length_answers, List.length_cons] at lengths
    have single : (ending.farewell limits left).toList.length ≤ 1 := by
      cases ending.farewell limits left <;> simp
    obtain ⟨same, parted⟩ := List.append_inj due (by rw [Store.length_answers]; omega)
    refine .inr ⟨same.symm, ?_⟩
    cases farewell : ending.farewell limits left with
    | none => simp [farewell] at parted
    | some last =>
      rw [farewell] at parted
      exact congrArg some (List.cons.inj parted).1

/-- A reply that cannot be written undoes nothing and repeats nothing. Whatever bytes arrive and
however they end, let all replies up to some be written and let that one fail, at any of its bytes
and with any fault: the server stops there. Whenever it was about to read a frame, it had written
some of the replies before, held none of them back, and all of them had reached the sink. It has
applied the frames answered so far and the one that the failed reply answers, in order, and no
other; what has arrived once it has given its buffer up is the replies before and a front of the
failed one. The connection ends quietly if the fault means that the peer is gone, and with the fault
otherwise, but a farewell that fails leaves the result as it was. -/
theorem serve_of_failed_reply (store : Store) (memory : ∀ size ≤ bytes.length, alloc size = true)
    (arrives : source.signals = Signal.octets bytes ++ ending.signals)
    (due : repliesDue alloc limits store bytes ending = before ++ reply :: others)
    (arrived : sink.buffered.Writes before mid)
    (failed : reply.write mid = (.error failure, broken)) :
    let frames := (Opening.frames limits bytes).1
    let start : Awaiting := ⟨store, source, sink.buffered⟩
    let served := serve alloc limits store source sink
    (∃ last, start.Reaches alloc limits before last ∧ last.out = mid) ∧
      (∀ replies there, start.Reaches alloc limits replies there →
        replies <+: before ∧ there.out.pending = [] ∧
          there.out.sink.written = sink.written ++ replies.flatMap Reply.encode) ∧
      served.store = (store.answers alloc (frames.take (before.length + 1))).2 ∧
      served.sink = broken.close ∧
      ∃ reason front, failure = .io reason ∧ front <+: reply.encode ∧
        served.sink.written = sink.written ++ (before.flatMap Reply.encode ++ front) ∧
        (before.length < frames.length → served.result =
          if reason.kind ∈ [.connectionReset, .connectionAborted, .brokenPipe, .wouldBlock,
              .timedOut] then .ok ()
          else .error (.io reason)) ∧
        (frames.length ≤ before.length → reply = .error "premature EOF on value" ∧
          ∃ expected received, served.result = .error (.prematureEnd expected received)) := by
  intro frames start served
  have granted := @Opening.granted_of_frames limits bytes alloc memory
  obtain ⟨after, rfl, took⟩ := Sink.took_of_writes arrived
  obtain ⟨reason, front, rfl, isFront, closed⟩ := Sink.failure_of_write failed
  have written : broken.close.written =
      sink.written ++ (before.flatMap Reply.encode ++ front) := by
    rw [closed, took.written, List.append_assoc]
  have reads {last : Awaiting} (final : last.Last alloc limits)
      (whole : start.Reaches alloc limits before last) :
      ∀ replies there, start.Reaches alloc limits replies there →
        replies <+: before ∧ there.out.pending = [] ∧
          there.out.sink.written = sink.written ++ replies.flatMap Reply.encode := by
    intro replies there reaches
    exact ⟨whole.isPrefix_of_last final reaches, reaches.flushed rfl⟩
  rcases failed_reply_cases due with ⟨first, outcome, later, framed, rfl, rfl⟩ | ⟨rfl, parted⟩
  · rw [framed] at granted
    obtain ⟨last, here, final, whole, handled⟩ :=
      handle_of_failed_answer store granted (Prod.ext framed rfl) arrives arrived failed
    have answered : served = _ := congrArg Handled.close handled
    have count : (store.answers alloc first).1.length = first.length := Store.length_answers ..
    have upTo : frames.take (first.length + 1) = first ++ [outcome] := by
      have parts : frames = (first ++ [outcome]) ++ later := by simp [frames, framed]
      rw [parts, List.take_left' (by simp)]
    have inside : first.length < frames.length := by simp [frames, framed]
    refine ⟨⟨last, whole, here⟩, reads final whole, ?_⟩
    rw [answered, count, upTo]
    refine ⟨rfl, rfl, reason, front, rfl, isFront, written, fun _ => ?_,
      fun outside => absurd inside (Nat.not_lt_of_le outside)⟩
    simp only [Handled.close, Error.isDeparture, FaultKind.isDeparture_iff]
  · obtain ⟨last, here, final, whole, handled⟩ := handle_of_farewell store granted arrives arrived
    rw [parted, sendFarewell, failed] at handled
    have parting : served = _ := congrArg Handled.close handled
    obtain ⟨said, expected, received, -, result⟩ := Ending.farewell_eq_some parted
    have count : (store.answers alloc frames).1.length = frames.length := Store.length_answers ..
    refine ⟨⟨last, whole, here⟩, reads final whole, ?_⟩
    rw [parting, count, List.take_of_length_le (Nat.le_succ _)]
    exact ⟨rfl, rfl, reason, front, rfl, isFront, written,
      fun inside => absurd inside (Nat.lt_irrefl _), fun _ => ⟨said, expected, received, result⟩⟩

/-- A sink that has room for four bytes, and for one more after it has refused once, so that the
second of three replies fails behind its first byte and a second byte gets through as the buffer is
given up: the deletion that it answers is done, and the read behind it is not answered. -/
theorem serve_of_failed_reply_to_delete :
    let bytes := Utf8.encode "CREATE 7 2\nhiDELETE 7\nREAD 7\n"
    let sink : Sink :=
      { portion := some 2, room := some 4, reopenings := [1], interruptions := [false, true],
        refusal := .fault ⟨.wouldBlock, "not taken in time"⟩ }
    let source : Source := .chunk (bytes.take 17) (.chunk (bytes.drop 17) .ended)
    let start : Awaiting := ⟨∅, source, sink.buffered⟩
    let served := serve .unlimited {} ∅ source sink
    repliesDue .unlimited {} ∅ bytes .closed = [.ok] ++ .ok :: [.error "no such key"] ∧
      (∃ last, start.Reaches .unlimited {} [.ok] last ∧ last.out.pending = [] ∧
        last.out.sink.written = Utf8.encode "OK\n") ∧
      served.store.bindings = [] ∧ served.sink.written = Utf8.encode "OK\nOK" ∧
      served.result = .ok () := by
  intro bytes sink source start served
  have memory : ∀ size ≤ bytes.length, Allocator.unlimited size = true := by
    intro size small
    have length : bytes.length = 29 := rfl
    exact Allocator.unlimited_iff.mpr (by omega)
  have arrives : source.signals = Signal.octets bytes ++ Ending.closed.signals := rfl
  have due : repliesDue .unlimited {} ∅ bytes .closed = [.ok] ++ .ok :: [.error "no such key"] := by
    decide +kernel
  let mid := (Reply.ok.write sink.buffered).2
  let broken := (Reply.ok.write mid).2
  have arrived : sink.buffered.Writes [.ok] mid :=
    .cons (Prod.ext (by decide +kernel) rfl) (.nil mid)
  have failed : Reply.ok.write mid = (.error (.io ⟨.wouldBlock, "not taken in time"⟩), broken) :=
    Prod.ext (by decide +kernel) rfl
  obtain ⟨⟨last, reached, -⟩, flushed, stored, stopped, reason, front, raised, -, -, result, -⟩ :=
    serve_of_failed_reply ∅ memory arrives due arrived failed
  refine ⟨due, ⟨last, reached, (flushed _ _ reached).2⟩, ?_, ?_, ?_⟩
  · rw [stored]
    decide +kernel
  · rw [stopped]
    decide +kernel
  · obtain rfl := Error.io.inj raised
    exact result (by decide +kernel)

end WireStore
