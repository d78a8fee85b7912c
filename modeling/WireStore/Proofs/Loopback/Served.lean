import WireStore.Loopback.Served
import WireStore.Proofs.Server.Requests

/-!
# Requests to a server within reach

A client that is being served and has been answered everything finds the server
at rest: nothing of what it sent is pending, and every reply has arrived. A
request sent then is carried out, its reply is all that arrives, and the server
is at rest again.
-/

namespace WireStore

variable {listener : Listener} {number bound : Nat} {connection : Connection} {bytes : Bytes}
  {peer : ServedPeer} {replies : List Reply} {request : Request}

namespace Listener

/-! ## The caller being served -/

/-- A listener that is serving a caller who may send more takes in what has arrived and then
waits for the caller. -/
theorem settle_of_serving (serving : listener.phase = .serving number)
    (known : listener.callers[number]? = some ⟨connection, false⟩) :
    listener.settle = listener.take number ⟨connection, false⟩ := by
  have consumed : listener.step listener.ownMove =
      some (listener.take number ⟨connection, false⟩) := by
    simp only [ownMove, serving, step, known, Option.map_some]
  have busy : (listener.take number ⟨connection, false⟩).busyness = listener.busyness := by
    simp only [take, busyness, Bool.false_eq_true, if_false]
  rw [settle, consumed]
  simp only [busy, Nat.lt_irrefl, if_false]

/-- What the caller being served sends is received at once. -/
theorem react_send (serving : listener.phase = .serving number)
    (known : listener.callers[number]? = some ⟨connection, false⟩) (bytes : Bytes) :
    listener.react (.send number bytes) =
      { listener with
        store := (connection.receive listener.alloc listener.limits listener.store bytes).2
        callers := listener.callers.modify number ({ · with
          connection :=
            (connection.receive listener.alloc listener.limits listener.store bytes).1 }) } := by
  have sent : listener.step (.send number bytes) = some (listener.arrive number bytes) := by
    simp only [step, known, Bool.false_eq_true, if_false]
  have arrived : (listener.arrive number bytes).callers[number]? =
      some ⟨{ connection with pending := connection.pending ++ bytes }, false⟩ := by
    simp only [arrive, modifyCaller, List.getElem?_modify_eq, known]
    rfl
  have goesOn : (listener.arrive number bytes).phase = .serving number := serving
  rw [react, sent, Option.getD_some, settle_of_serving goesOn arrived]
  simp only [take, arrive, modifyCaller, Connection.receive, Bool.false_eq_true, if_false,
    List.modify_modify_eq]
  rfl

/-- A caller who finds nobody before it is served, and waited for, at once. -/
theorem react_call (listening : listener.phase = .listening) (alone : listener.waiting = [])
    (willing : listener.stopping = false) :
    (listener.react .call).phase = .serving listener.callers.length ∧
      (listener.react .call).callers[listener.callers.length]? = some {} ∧
      (listener.react .call).store = listener.store ∧
      (listener.react .call).alloc = listener.alloc ∧
      (listener.react .call).limits = listener.limits := by
  -- two moves of its own, and then there is nothing to take in from the caller
  let accepted : Listener :=
    { listener with
      callers := listener.callers ++ [{}], waiting := []
      phase := .accepted listener.callers.length }
  let serving : Listener := { accepted with phase := .serving listener.callers.length }
  have known : serving.callers[listener.callers.length]? = some ⟨{}, false⟩ :=
    List.getElem?_concat_length
  have settled : listener.react .call = serving.take listener.callers.length ⟨{}, false⟩ := by
    rw [react, step, Option.getD_some, @settle_of_step (listener.enqueue {}) accepted,
      @settle_of_step accepted serving, settle_of_serving rfl known]
    · simp only [ownMove, step, accepted, willing, serving, Bool.false_eq_true, if_false]
    · simp [busyness, accepted, serving]
    · simp only [enqueue, alone, listening, ownMove, step, accepted, List.nil_append]
    · simp [busyness, enqueue, alone, listening, accepted]
  have idle := Connection.advance_of_nothing serving.alloc serving.limits serving.store []
  rw [settled]
  simp only [take, idle, Bool.false_eq_true, if_false, List.getElem?_modify_eq, known]
  exact ⟨rfl, rfl, rfl, rfl, rfl⟩

end Listener

namespace ServedPeer

/-- Holds where a caller is being served and everything it sent has been answered with these
replies, latest first, all of which have arrived. -/
structure AtRest (peer : ServedPeer) (number : Nat) (replies : List Reply) : Prop where
  caller : peer.caller = some number
  serving : peer.listener.phase = .serving number
  known : peer.listener.callers[number]? = some ⟨⟨[], replies⟩, false⟩
  delivered : peer.delivered = replies.length

/-- The replies to be handed over are those beyond the delivered ones. -/
theorem deliver_of_replies {caller : Caller} (fresh : List Reply)
    (known : peer.listener.callers[number]? = some caller)
    (replied : caller.connection.replies = fresh ++ replies)
    (delivered : peer.delivered = replies.length) :
    peer.deliver number =
      (.ofBytes (fresh.reverse.flatMap Reply.encode),
        { peer with delivered := replies.length + fresh.length }) := by
  have beyond : peer.fresh number = fresh.reverse := by
    unfold ServedPeer.fresh Listener.connection?
    rw [known, delivered]
    simp [replied]
  unfold deliver
  rw [beyond]
  simp [delivered, List.flatMap]

/-- The bytes of all replies on the open connection. -/
def output (peer : ServedPeer) : Bytes :=
  ((peer.caller.bind peer.listener.connection?).map Connection.output).getD []

theorem output_of_atRest (rest : peer.AtRest number replies) :
    peer.output = replies.reverse.flatMap Reply.encode := by
  simp [output, rest.caller, Listener.connection?, rest.known, Connection.output, List.flatMap]

/-! ## One request -/

/-- A request sent to a server at rest is answered, and nothing else arrives. -/
theorem send_of_atRest (rest : peer.AtRest number replies)
    (ample : Ample 38 bound peer.listener.alloc peer.listener.limits)
    (sized : request.size < bound) :
    let expected := Bindings.carryOut peer.listener.limits.maxValueSize
      peer.listener.store.find? request
    ∃ after,
      Network.send peer request.encode = (.ok (.ofBytes expected.1.encode), after) ∧
      after.AtRest number (expected.1 :: replies) ∧
      after.listener.store.find? = expected.2 ∧
      after.listener.alloc = peer.listener.alloc ∧
      after.listener.limits = peer.listener.limits := by
  intro expected
  obtain ⟨changed, received, bindings⟩ :=
    Connection.receive_of_request ample peer.listener.store sized replies
  have reacted := Listener.react_send rest.serving rest.known request.encode
  rw [received] at reacted
  let reached : ServedPeer :=
    { peer with
      listener := peer.listener.react (.send number request.encode)
      caller := some number }
  have known : reached.listener.callers[number]? =
      some ⟨⟨[], expected.1 :: replies⟩, false⟩ := by
    simp only [reached, reacted, List.getElem?_modify_eq, rest.known]
    rfl
  have handed := deliver_of_replies [expected.1] known rfl rest.delivered
  refine ⟨{ reached with delivered := replies.length + 1 }, ?_,
    ⟨rfl, ?_, known, rfl⟩, ?_⟩
  · simp only [Network.send, rest.caller]
    change (Except.ok (reached.deliver number).1, (reached.deliver number).2) = _
    rw [handed]
    simp
  · simp only [reached, reacted, rest.serving]
  · simp only [reached, reacted, and_true]
    exact bindings

/-! ## The call -/

/-- A client who calls a server that has nobody to serve finds it at rest. -/
theorem dial_of_listening (listening : peer.listener.phase = .listening)
    (alone : peer.listener.waiting = []) (willing : peer.listener.stopping = false) :
    ∃ after,
      Network.dial peer peer.address = (some (.ofBytes []), after) ∧
      after.AtRest peer.listener.callers.length [] ∧
      after.listener.store = peer.listener.store ∧
      after.listener.alloc = peer.listener.alloc ∧
      after.listener.limits = peer.listener.limits := by
  obtain ⟨serving, known, store, alloc, limits⟩ :=
    Listener.react_call listening alone willing
  let reached : ServedPeer :=
    { peer with
      listener := peer.listener.react .call
      caller := some peer.listener.callers.length
      delivered := 0 }
  have handed := @deliver_of_replies _ reached [] _ [] known rfl rfl
  refine ⟨{ reached with delivered := 0 }, ?_, ⟨rfl, serving, known, rfl⟩, store, alloc, limits⟩
  simp only [Network.dial, if_true]
  change (some (reached.deliver peer.listener.callers.length).1,
    (reached.deliver peer.listener.callers.length).2) = _
  rw [handed]
  simp

end ServedPeer

end WireStore
