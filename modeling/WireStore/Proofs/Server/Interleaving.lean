import WireStore.Proofs.Server.Callers

/-!
# Interleaved callers

Callers connect, send in pieces and end their sides in any order, while the listener accepts them
and takes in what has come. The order in which it accepts them is all that it makes of this: what
it has taken in from each (`TakenIn`), served one stream after another, gives the same replies and
the same store (`run_eq_serveInTurn`).
-/

namespace WireStore

/-- Serves complete streams one after another, each from the store that the one before it left.
Gives what is written on each, and the store in the end. -/
def serveInTurn (alloc : Allocator) (limits : Limits) (store : Store) :
    List Bytes → List Bytes × Store
  | [] => ([], store)
  | stream :: streams =>
    let served := serve alloc limits store (.ofBytes stream) {}
    let (outputs, last) := serveInTurn alloc limits served.store streams
    (served.sink.written :: outputs, last)

theorem serveInTurn_append (alloc : Allocator) (limits : Limits) (store : Store)
    (first later : List Bytes) :
    serveInTurn alloc limits store (first ++ later) =
      ((serveInTurn alloc limits store first).1 ++
          (serveInTurn alloc limits (serveInTurn alloc limits store first).2 later).1,
        (serveInTurn alloc limits (serveInTurn alloc limits store first).2 later).2) := by
  induction first generalizing store with
  | nil => rfl
  | cons stream streams ih =>
    simp only [List.cons_append, serveInTurn, ih]

namespace Listener

/-- The caller that an event makes a listener accept. -/
def admits (listener : Listener) : Event → List Nat
  | .accept => listener.waiting.head?.toList
  | _ => []

/-- The callers that are accepted in a run of events, in the order in which they are. -/
def accepted (listener : Listener) : List Event → List Nat
  | [] => []
  | event :: events =>
    match listener.step event with
    | some after => listener.admits event ++ after.accepted events
    | none => []

/-- Holds of callers who will send no more. -/
def Through (listener : Listener) (callers : List Nat) : Prop :=
  ∀ caller ∈ callers, listener.callers[caller]?.map Caller.ended = some true

/-- What a listener that has accepted callers in some order has taken in from each of them: all
that was sent by those it is done with, and the frames it has consumed of the one it is serving. -/
inductive TakenIn (limits : Limits) (streams : Nat → Bytes) (listener : Listener) :
    List Nat → List Bytes → Prop
  | between {order : List Nat} (phase : listener.phase = .listening)
    (through : listener.Through order) : TakenIn limits streams listener order (order.map streams)
  | amid {finished : List Nat} {current : Nat} {connection : Connection} {front : Bytes}
    (phase : listener.phase = .accepted current ∨ listener.phase = .serving current)
    (through : listener.Through finished)
    (known : listener.connection? current = some connection)
    (received : streams current = front ++ connection.pending)
    (whole : Opening.Whole limits front) :
    TakenIn limits streams listener (finished ++ [current]) (finished.map streams ++ [front])

variable {origin listener after last : Listener} {streams : Nat → Bytes} {number next caller : Nat}
  {event : Event} {events : List Event} {order : List Nat}

/-! ## The order of acceptance -/

theorem queued_of_step (happened : listener.step event = some after)
    (queued : order ++ listener.waiting = List.range listener.callers.length) :
    order ++ listener.admits event ++ after.waiting = List.range after.callers.length := by
  have joins (caller : Caller) : order ++ [] ++ (listener.enqueue caller).waiting =
      List.range (listener.enqueue caller).callers.length := by
    simp only [enqueue, List.length_append, List.length_singleton, List.range_succ, ← queued,
      List.append_nil, List.append_assoc]
  have stays {after : Listener} (waits : after.waiting = listener.waiting)
      (length : after.callers.length = listener.callers.length) :
      order ++ [] ++ after.waiting = List.range after.callers.length := by
    rw [List.append_nil, waits, length, queued]
  cases stepped_of_step happened with
  | call => exact joins {}
  | send | hangUp => exact stays rfl (List.length_modify ..)
  | accept phase waits =>
    rw [waits] at queued
    simpa only [admits, waits, List.head?_cons, Option.toList_some, List.append_assoc,
      List.singleton_append] using queued
  | acceptFails | decide => exact stays rfl rfl
  | @consume number caller phase known =>
    cases ended : caller.ended <;>
      exact stays (by simp [take, ended]) (by simp [take, ended])
  | raiseFlag => exact stays rfl rfl
  | wake => exact joins _
  | wakeInVain => exact stays rfl rfl

/-- Callers are accepted in the order in which they called, and those who have not been wait. -/
theorem queued_of_run (ran : listener.run events = some last)
    (queued : order ++ listener.waiting = List.range listener.callers.length) :
    order ++ listener.accepted events ++ last.waiting = List.range last.callers.length := by
  induction events generalizing listener order with
  | nil =>
    obtain rfl := Option.some.inj ran
    simpa only [accepted, List.append_nil] using queued
  | cons event events ih =>
    obtain ⟨after, happened, goesOn⟩ := Option.bind_eq_some_iff.mp ran
    have later := ih goesOn (queued_of_step happened queued)
    simpa only [accepted, happened, List.append_assoc] using later

/-! ## Streams one after another -/

theorem serveInTurn_singleton {alloc : Allocator} {limits : Limits} {stream : Bytes}
    (store : Store)
    (granted : ∀ outcome ∈ (Opening.frames limits stream).1, Opening.Granted alloc outcome) :
    serveInTurn alloc limits store [stream] =
      ([(repliesDue alloc limits store stream .closed).flatMap Reply.encode],
        (store.answers alloc (Opening.frames limits stream).1).2) := by
  have reliable : Sink.Reliable {} := ⟨rfl, by decide, rfl⟩
  have whole : (Source.ofBytes stream).signals = Signal.octets stream := List.append_nil _
  obtain ⟨sink, served, written⟩ := serve_of_closed store granted whole reliable
  simp only [serveInTurn, served, written]
  rfl

theorem serveInTurn_range (supplied : Supplied origin streams) (number : Nat) :
    serveInTurn origin.alloc origin.limits origin.store ((List.range number).map streams) =
      ((List.range number).map fun caller =>
          (repliesTo origin streams caller).flatMap Reply.encode,
        storeBefore origin streams number) := by
  induction number with
  | zero => rfl
  | succ number ih =>
    simp only [List.range_succ, List.map_append, List.map_singleton]
    rw [serveInTurn_append, ih, serveInTurn_singleton _ (supplied number)]
    rfl

/-! ## What a listener has replied -/

theorem Queue.outputs (queue : Queue origin streams number next listener) :
    (List.range number).map (fun caller => (listener.connection? caller).map Connection.output) =
      ((List.range number).map fun caller =>
        (repliesTo origin streams caller).flatMap Reply.encode).map some := by
  rw [List.map_map]
  refine List.map_congr_left fun caller mem => ?_
  have done := queue.finished caller (List.mem_range.mp mem)
  simp [connection?, done, Connection.output, List.flatMap]

theorem Queue.through (queue : Queue origin streams number next listener) :
    listener.Through (List.range number) := by
  intro caller mem
  rw [queue.finished caller (List.mem_range.mp mem)]
  rfl

/-- Nobody is replied to before being accepted. -/
theorem Queue.unanswered {connection : Connection}
    (queue : Queue origin streams number next listener) (beyond : next ≤ caller)
    (known : listener.connection? caller = some connection) : connection.replies = [] := by
  obtain ⟨entry, here, rfl⟩ := Option.map_eq_some_iff.mp known
  rw [queue.untouched caller entry beyond here]

theorem Queue.eq_range (queue : Queue origin streams number next listener)
    (queued : order ++ listener.waiting = List.range listener.callers.length) :
    order = List.range next :=
  List.append_cancel_right (queued.trans queue.waiting.symm)

/-- As far as a connection has been served, it might be all that its client sent. -/
theorem serveInTurn_of_underWay {alloc : Allocator} {limits : Limits} {before store : Store}
    {bytes front : Bytes} {connection : Connection}
    (underWay : Connection.UnderWay alloc limits before bytes front connection store)
    (granted : ∀ outcome ∈ (Opening.frames limits bytes).1, Opening.Granted alloc outcome) :
    serveInTurn alloc limits before [front] = ([connection.output], store) := by
  rw [underWay.received, underWay.whole.frames_append] at granted
  have own := fun outcome mem => granted outcome (List.mem_append_left _ mem)
  have nothing : Ending.closed.farewell limits (Opening.frames limits front).2 = none := by
    rw [underWay.whole]
    rfl
  rw [serveInTurn_singleton before own, ← underWay.store]
  simp [repliesDue, nothing, Connection.output, underWay.replies, List.flatMap]

/-- Where a listener stands, in terms of what it has taken in. -/
theorem Tracks.exists_takenIn (tracks : Tracks origin streams number listener)
    (supplied : Supplied origin streams)
    (queued : order ++ listener.waiting = List.range listener.callers.length) :
    ∃ taken, TakenIn origin.limits streams listener order taken ∧
      (let inTurn := serveInTurn origin.alloc origin.limits origin.store taken
      listener.store = inTurn.2 ∧
      order.map (fun caller => (listener.connection? caller).map Connection.output) =
        inTurn.1.map some) ∧
      ∀ caller ∉ order, ∀ connection, listener.connection? caller = some connection →
        connection.replies = [] := by
  have before := serveInTurn_range supplied number
  cases tracks with
  | idle queue phase store =>
    obtain rfl := queue.eq_range queued
    refine ⟨_, .between phase queue.through, ⟨?_, ?_⟩, ?_⟩
    · rw [before, store]
    · rw [before, queue.outputs]
    · intro caller outside connection known
      exact queue.unanswered (Nat.le_of_not_lt (mt List.mem_range.mpr outside)) known
  | @busy connection ended front queue phase known underWay =>
    obtain rfl := queue.eq_range queued
    have here : listener.connection? number = some connection := by
      unfold connection?
      rw [known]
      rfl
    have current := serveInTurn_of_underWay underWay (supplied number)
    refine ⟨(List.range number).map streams ++ [front], ?_, ⟨?_, ?_⟩, ?_⟩
    · rw [List.range_succ]
      exact .amid phase queue.through here underWay.received underWay.whole
    · rw [serveInTurn_append, before, current]
    · rw [serveInTurn_append, before, current, List.range_succ, List.map_append, queue.outputs,
        List.map_append, List.map_singleton, List.map_singleton, here]
      rfl
    · intro caller outside connection known
      exact queue.unanswered (Nat.le_of_not_lt (mt List.mem_range.mpr outside)) known

theorem TakenIn.of_listening {limits : Limits} {taken : List Bytes}
    (takenIn : TakenIn limits streams listener order taken) (phase : listener.phase = .listening) :
    listener.Through order ∧ taken = order.map streams := by
  cases takenIn with
  | between _ through => exact ⟨through, rfl⟩
  | amid busy => rcases busy with busy | busy <;> exact nomatch phase.symm.trans busy

/-- However the calls, the pieces that callers send and their ends are interleaved with what the
listener does, at every moment its store and its replies are those of serving what it has taken in
one stream after another, in the order in which it accepted the callers, which is the order of
their calls; whoever has not been accepted has not been replied to. Once it is done with all callers,
what it has taken in is all that they sent. -/
theorem run_eq_serveInTurn {config : Config} {store : Store} {alloc : Allocator}
    (started : start config store alloc = .ok listener) (ran : listener.run events = some last)
    (unstopped : ∀ event ∈ events, event ≠ .raiseFlag ∧ event ≠ .wake)
    (supplied : Supplied listener (sent events)) :
    let order := listener.accepted events
    let outputs := order.map fun caller => (last.connection? caller).map Connection.output
    order ++ last.waiting = List.range last.callers.length ∧
    (∃ taken, TakenIn config.limits (sent events) last order taken ∧
      (let inTurn := serveInTurn alloc config.limits store taken
      last.store = inTurn.2 ∧ outputs = inTurn.1.map some) ∧
      ∀ caller ∉ order, ∀ connection, last.connection? caller = some connection →
        connection.replies = []) ∧
    (last.phase = .listening ∧ last.waiting = [] →
      order = List.range last.callers.length ∧ last.Through order ∧
      let inTurn := serveInTurn alloc config.limits store (order.map (sent events))
      last.store = inTurn.2 ∧ outputs = inTurn.1.map some) := by
  intro order outputs
  have queued : order ++ last.waiting = List.range last.callers.length := by
    obtain ⟨-, rfl⟩ := start_eq_ok_iff.mp started
    exact queued_of_run ran (List.nil_append [])
  obtain ⟨rfl, limits, rfl, tracks⟩ := tracks_start started
  obtain ⟨reached, tracks⟩ := tracks.run (by simpa using supplied) unstopped ran
  simp only [List.nil_append] at tracks
  obtain ⟨taken, takenIn, served, unanswered⟩ := tracks.exists_takenIn supplied queued
  rw [limits] at takenIn served
  refine ⟨queued, ⟨taken, takenIn, served, unanswered⟩, ?_⟩
  rintro ⟨phase, nobody⟩
  obtain ⟨through, rfl⟩ := takenIn.of_listening phase
  rw [nobody, List.append_nil] at queued
  exact ⟨queued, through, served⟩

/-- Two callers at once. The second is through with sending before the first has sent half of its
bytes, of which a payload remains cut short. -/
theorem run_eq_serveInTurn_of_two_callers :
    let first := Utf8.encode "CREATE 7 2\nhiCREATE 8 5\nabc"
    let second := Utf8.encode "READ 7\n"
    let events : List Event :=
      [.call, .call, .send 1 (second.take 3), .send 0 (first.take 16), .accept, .decide, .consume,
        .send 1 (second.drop 3), .hangUp 1, .send 0 (first.drop 16), .hangUp 0, .consume,
        .accept, .decide, .consume]
    ∃ listener last, start {} ∅ .unlimited = .ok listener ∧ listener.run events = some last ∧
      listener.accepted events = [0, 1] ∧
      let inTurn := serveInTurn .unlimited {} ∅ [first, second]
      last.store = inTurn.2 ∧
      [0, 1].map (fun caller => (last.connection? caller).map Connection.output) =
        inTurn.1.map some := by
  intro first second events
  let listener : Listener := {}
  have started : start {} ∅ .unlimited = .ok listener := rfl
  obtain ⟨last, ran⟩ : ∃ last, listener.run events = some last :=
    Option.isSome_iff_exists.mp (by decide +kernel)
  have unstopped : ∀ event ∈ events, event ≠ .raiseFlag ∧ event ≠ .wake := by decide +kernel
  have short (number : Nat) : (sent events number).length ≤ 28 := by
    rcases number with _ | _ | number
    · decide +kernel
    · decide +kernel
    · simp [sent, events, Event.bytesFrom]
  have supplied : Supplied listener (sent events) := by
    refine fun number => Opening.granted_of_frames fun size small => ?_
    exact Allocator.unlimited_iff.mpr (by have := short number; omega)
  have order : listener.accepted events = [0, 1] := by decide +kernel
  have whole : [0, 1].map (sent events) = [first, second] := by decide +kernel
  have stands : (listener.run events).map (fun last => (last.phase, last.waiting)) =
      some (.listening, []) := by decide +kernel
  rw [ran, Option.map_some, Option.some.injEq, Prod.mk.injEq] at stands
  obtain ⟨-, -, served⟩ := run_eq_serveInTurn started ran unstopped supplied
  obtain ⟨-, -, inTurn⟩ := served stands
  rw [order, whole] at inTurn
  exact ⟨listener, last, started, ran, order, inTurn⟩

end Listener

end WireStore
