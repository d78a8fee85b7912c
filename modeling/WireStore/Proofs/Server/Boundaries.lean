import Mathlib.Control.Monad.Basic
import WireStore.Proofs.Server.Callers

/-!
# Connections make no difference

Bytes sent on several connections, one served after the other, come to the same as the frames of
all of them sent on one: what stands at the end of a connection and is less than a frame is dropped,
and nothing of it, nor of how the connection ended, reaches the next (`run_eq_serve`). All that
tells the connections apart is a line for each that was cut inside a payload.
-/

namespace WireStore.Listener

variable {origin listener last : Listener} {streams fronts : Nat → Bytes} {number : Nat}
  {limits : Limits}

/-- What a caller is told who leaves these bytes, which are less than a frame. -/
def parting (limits : Limits) (left : Bytes) : Bytes :=
  match Opening.of limits left with
  | .partialPayload _ _ => Utf8.encode "ERR premature EOF on value\n"
  | _ => []

theorem encode_farewell (limits : Limits) (left : Bytes) :
    (Ending.closed.farewell limits left).toList.flatMap Reply.encode = parting limits left := by
  unfold Ending.farewell parting
  cases Opening.of limits left <;> rfl

/-- The fronts of all callers are made of the frames of all callers. -/
theorem frames_flatMap (callers : List Nat)
    (longest : ∀ caller ∈ callers, Opening.LongestWhole limits (streams caller) (fronts caller)) :
    Opening.frames limits (callers.flatMap fronts) =
      (callers.flatMap fun caller => (Opening.frames limits (streams caller)).1, []) := by
  induction callers with
  | nil => exact Opening.frames_nil limits
  | cons caller others ih =>
    have later := ih fun other mem => longest other (List.mem_cons_of_mem _ mem)
    obtain ⟨-, framed⟩ := Opening.longestWhole_iff.mp (longest caller List.mem_cons_self)
    have whole : Opening.Whole limits (fronts caller) := congrArg Prod.snd framed
    rw [List.flatMap_cons, whole.frames_append, later, framed, List.flatMap_cons]

/-- The frames of all callers, one caller after another, are answered as each is in turn. -/
theorem answers_flatMap (origin : Listener) (streams : Nat → Bytes) (number : Nat) :
    origin.store.answers origin.alloc
        ((List.range number).flatMap fun caller =>
          (Opening.frames origin.limits (streams caller)).1) =
      ((List.range number).flatMap (answersTo origin streams),
        storeBefore origin streams number) := by
  induction number with
  | zero => rfl
  | succ number ih =>
    simp only [List.range_succ, List.flatMap_append, List.flatMap_singleton]
    rw [Store.answers_append, ih]
    rfl

/-- Where all callers have ended, a listener that is left to itself comes to where it would be if
their frames had come on one connection. -/
theorem settle_eq_serve {source : Source} {sink : Sink}
    (tracks : Tracks origin streams number listener) (supplied : Supplied origin streams)
    (ended : ∀ caller ∈ listener.callers, caller.ended = true)
    (longest : ∀ caller < listener.callers.length,
      Opening.LongestWhole origin.limits (streams caller) (fronts caller))
    (arrives : source.signals =
      Signal.octets ((List.range listener.callers.length).flatMap fronts))
    (reliable : sink.Reliable) :
    let single := serve origin.alloc origin.limits origin.store source sink
    listener.settle.phase = .listening ∧ listener.settle.waiting = [] ∧
      listener.settle.store = single.store ∧ single.result = .ok () ∧
      ∃ bodies : Nat → Bytes,
        (∀ caller < listener.callers.length,
          (listener.settle.connection? caller).map Connection.output =
            some (bodies caller ++
              parting origin.limits ((streams caller).drop (fronts caller).length))) ∧
        single.sink.written =
          sink.written ++ (List.range listener.callers.length).flatMap bodies := by
  intro single
  obtain ⟨tracks, length, phase, nobody⟩ := tracks.settle supplied ended
  obtain ⟨stored, replied⟩ := tracks.of_listening phase
  have framed := frames_flatMap (List.range listener.callers.length) fun caller mem =>
    longest caller (List.mem_range.mp mem)
  have answered := answers_flatMap origin streams listener.callers.length
  have granted : ∀ outcome ∈ (Opening.frames origin.limits
      ((List.range listener.callers.length).flatMap fronts)).1,
      Opening.Granted origin.alloc outcome := by
    rw [framed]
    intro outcome mem
    obtain ⟨caller, -, here⟩ := List.mem_flatMap.mp mem
    exact supplied caller outcome here
  obtain ⟨after, served, written⟩ := serve_of_closed origin.store granted arrives reliable
  change single = _ at served
  simp only [repliesDue] at written
  rw [framed, answered] at served written
  refine ⟨phase, nobody, ?_, ?_,
    fun caller => (answersTo origin streams caller).flatMap Reply.encode, ?_, ?_⟩
  · rw [stored, served]
  · rw [served]
    rfl
  · intro caller inside
    rw [replied caller inside, (longest caller inside).drop_eq, ← encode_farewell]
    simp [Connection.output, repliesTo, repliesDue, answersTo, List.flatMap]
  · have nothing : Ending.closed.farewell origin.limits [] = none := rfl
    rw [nothing, Option.toList_none, List.append_nil] at written
    rw [served]
    exact written.trans (congrArg _ (List.flatMap_assoc ..))

/-- Whatever callers send, in whatever pieces and however their pieces, their calls and their ends
are interleaved with what the listener does, and wherever each of them stops: once all have ended
the listener serves those who still wait and listens again. Its store is then what it would be if
the longest fronts of their streams that are made of frames had come on a single connection, one
behind the other, and the replies are those of that connection, except that each caller who stopped
inside a payload is told so. -/
theorem run_eq_serve {config : Config} {store : Store} {alloc : Allocator} {events : List Event}
    {source : Source} {sink : Sink}
    (started : start config store alloc = .ok listener) (ran : listener.run events = some last)
    (unstopped : ∀ event ∈ events, event ≠ .raiseFlag ∧ event ≠ .wake)
    (ended : ∀ caller ∈ last.callers, caller.ended = true)
    (memory : ∀ number, ∀ size ≤ (sent events number).length, alloc size = true)
    (longest : ∀ number < last.callers.length,
      Opening.LongestWhole config.limits (sent events number) (fronts number))
    (arrives : source.signals =
      Signal.octets ((List.range last.callers.length).flatMap fronts))
    (reliable : sink.Reliable) :
    let single := serve alloc config.limits store source sink
    last.settle.phase = .listening ∧ last.settle.waiting = [] ∧
      last.settle.store = single.store ∧ single.result = .ok () ∧
      ∃ bodies : Nat → Bytes,
        (∀ number < last.callers.length,
          (last.settle.connection? number).map Connection.output =
            some (bodies number ++
              parting config.limits ((sent events number).drop (fronts number).length))) ∧
        single.sink.written =
          sink.written ++ (List.range last.callers.length).flatMap bodies := by
  obtain ⟨rfl, limits, rfl, tracks⟩ := tracks_start started
  have supplied : Supplied listener (sent events) := fun number =>
    Opening.granted_of_frames (memory number)
  obtain ⟨reached, tracks⟩ := tracks.run (by simpa using supplied) unstopped ran
  simp only [List.nil_append] at tracks
  rw [← limits] at longest ⊢
  exact settle_eq_serve tracks supplied ended longest arrives reliable

/-- Two callers at once. The second is through with sending before the first has sent half of its
bytes, and the first stops inside a payload; the second still reads what the first wrote. -/
theorem run_eq_serve_of_cut_payload :
    let events : List Event :=
      [.call, .call, .send 1 (Utf8.encode "READ 7\n"), .hangUp 1,
        .send 0 (Utf8.encode "CREATE 7 2\nhiCRE"), .accept, .decide, .consume,
        .send 0 (Utf8.encode "ATE 8 5\nabc"), .hangUp 0]
    let source := Source.ofBytes (Utf8.encode "CREATE 7 2\nhiREAD 7\n")
    ∃ listener last, start {} ∅ .unlimited = .ok listener ∧ listener.run events = some last ∧
      last.settle.phase = .listening ∧
      last.settle.store = (serve .unlimited {} ∅ source {}).store ∧
      ∃ first second,
        (last.settle.connection? 0).map Connection.output =
          some (first ++ Utf8.encode "ERR premature EOF on value\n") ∧
        (last.settle.connection? 1).map Connection.output = some second ∧
        (serve .unlimited {} ∅ source {}).sink.written = first ++ second := by
  intro events source
  let listener : Listener := {}
  have started : start {} ∅ .unlimited = .ok listener := rfl
  obtain ⟨last, ran⟩ : ∃ last, listener.run events = some last :=
    Option.isSome_iff_exists.mp (by decide +kernel)
  have unstopped : ∀ event ∈ events, event ≠ .raiseFlag ∧ event ≠ .wake := by decide +kernel
  have callers : (listener.run events).map (·.callers.map Caller.ended) = some [true, true] := by
    decide +kernel
  rw [ran, Option.map_some, Option.some.injEq] at callers
  have two : last.callers.length = 2 := by simpa using congrArg List.length callers
  have ended : ∀ caller ∈ last.callers, caller.ended = true := by
    intro caller mem
    have here : caller.ended ∈ last.callers.map Caller.ended := List.mem_map_of_mem mem
    rw [callers] at here
    simpa using here
  have short (number : Nat) : (sent events number).length ≤ 28 := by
    rcases number with _ | _ | number
    · decide +kernel
    · decide +kernel
    · simp [sent, events, Event.bytesFrom]
  have memory (number size : Nat) (small : size ≤ (sent events number).length) :
      Allocator.unlimited size = true :=
    Allocator.unlimited_iff.mpr (by have := short number; omega)
  let fronts (caller : Nat) : Bytes :=
    if caller = 0 then Utf8.encode "CREATE 7 2\nhi" else Utf8.encode "READ 7\n"
  have longest : ∀ number < last.callers.length,
      Opening.LongestWhole {} (sent events number) (fronts number) := by
    intro number inside
    rw [Opening.longestWhole_iff]
    rcases number with _ | _ | number
    · decide +kernel
    · decide +kernel
    · omega
  have arrives : source.signals =
      Signal.octets ((List.range last.callers.length).flatMap fronts) := by
    rw [two]
    rfl
  have reliable : Sink.Reliable {} := ⟨rfl, by decide, rfl⟩
  obtain ⟨phase, -, stored, -, bodies, replied, written⟩ :=
    run_eq_serve started ran unstopped ended memory longest arrives reliable
  rw [two] at replied written
  have first := replied 0 (by decide)
  have second := replied 1 (by decide)
  have cut : parting {} ((sent events 0).drop (fronts 0).length) =
      Utf8.encode "ERR premature EOF on value\n" := by decide +kernel
  have whole : parting {} ((sent events 1).drop (fronts 1).length) = [] := by decide +kernel
  refine ⟨listener, last, started, ran, phase, stored, bodies 0, bodies 1, ?_, ?_, ?_⟩
  · exact first.trans (by rw [cut])
  · exact second.trans (by rw [whole, List.append_nil])
  · simpa [List.range_succ, Sink.written] using written

end WireStore.Listener
