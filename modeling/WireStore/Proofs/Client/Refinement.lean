import WireStore.Client.Session
import WireStore.Proofs.Loopback.Served
import WireStore.Server.Config

/-!
# A session is a partial map

A client that makes requests one after another, to a server within reach, gets
what a partial map from keys to values gives it. The only traces of the wire are
the two limits: a value too long for the server is refused, one too long for the
client is reported in place of the reply that has it.

What carries the induction is `Steady`: between two requests nothing is under
way in either direction, and the bindings of the store are those of the map.
-/

namespace WireStore

namespace Bindings

/-- What a client that keeps no value longer than `clientMax` gets for a request to a server that
keeps none longer than `serverMax`, and the map after it. -/
def exchange (serverMax clientMax : Nat) (bindings : Bindings) (request : Request) :
    Except Error Reply × Bindings :=
  match bindings.carryOut serverMax request with
  | (.value value, changed) =>
    if clientMax < value.length then (.error (.valueTooLarge value.length clientMax), changed)
    else (.ok (.value value), changed)
  | (reply, changed) => (.ok reply, changed)

/-- What a client gets for requests one after another, each with the map after it. -/
def exchanges (serverMax clientMax : Nat) (bindings : Bindings) :
    List Request → List (Except Error Reply × Bindings)
  | [] => []
  | request :: others =>
    let (result, changed) := bindings.exchange serverMax clientMax request
    (result, changed) :: exchanges serverMax clientMax changed others

end Bindings

namespace Session

variable {ν : Type} [Network ν]

/-- The results of requests one after another, each with the session after it. -/
def requests (session : Session ν) : List Request → List (Except Error Reply × Session ν)
  | [] => []
  | request :: others =>
    let (result, after) := session.request request
    (result, after) :: after.requests others

/-! ## One reply -/

/-- What a client reports in place of a reply leaves the stream behind that reply. -/
theorem readError_of_received {alloc : Allocator} {limits : Limits} {reply : Reply}
    {reason : Error} (reported : reply.received alloc limits = .error reason) :
    readError reason = reason ∧ reason.isTransport = false := by
  unfold Reply.received at reported
  split at reported
  · split at reported
    · cases reported
      exact ⟨rfl, rfl⟩
    · split at reported
      · cases reported
      · cases reported
        exact ⟨rfl, rfl⟩
  · cases reported

/-- Whatever comes of a reply that was read, the connection is kept. -/
theorem receive_of_received {link : Link} {reply : Reply} {rest : Source} (session : Session ν)
    (read : Reply.read session.alloc session.limits link.incoming =
      (reply.received session.alloc session.limits, rest)) :
    session.receive link =
      (reply.received session.alloc session.limits,
        { session with link := some { link with incoming := rest } }) := by
  unfold receive
  rw [read]
  cases result : reply.received session.alloc session.limits with
  | ok _ => rfl
  | error reason =>
    obtain ⟨same, kept⟩ := readError_of_received result
    simp only [same, fail, kept, Bool.false_eq_true, if_false]

/-! ## One request -/

/-- Holds of a session between two requests: nothing is under way in either direction, and the
store of the server has these bindings, whose values are short. -/
structure Steady (bound : Nat) (server client : Limits) (number : Nat) (replies : List Reply)
    (bindings : Bindings) (session : Session ServedPeer) : Prop where
  linked : ∃ link, session.link = some link ∧ link.incoming.signals = []
  served : session.network.AtRest number replies
  stored : session.network.listener.store.find? = bindings
  below : bindings.Below bound
  serverLimits : session.network.listener.limits = server
  clientLimits : session.limits = client
  serverAmple : Ample 38 bound session.network.listener.alloc server
  clientAmple : Ample 22 bound session.alloc client

variable {bound number : Nat} {server client : Limits} {replies : List Reply}
  {bindings : Bindings} {session : Session ServedPeer} {request : Request}

theorem received_carryOut {alloc : Allocator} (memory : ∀ size < bound, alloc size = true)
    (below : bindings.Below bound) (serverMax : Nat) (client : Limits) (request : Request) :
    (bindings.carryOut serverMax request).1.received alloc client =
      (bindings.exchange serverMax client.maxValueSize request).1 := by
  unfold Bindings.exchange
  rcases Bindings.carryOut_cases serverMax bindings request with
    ⟨text, -, same⟩ | ⟨key, value, found, same⟩ | ⟨key, changed, -, same⟩
  · rw [same]
    rfl
  · have room := memory _ (below key value found)
    rw [same]
    simp only [Reply.received, room, if_true]
    split <;> rfl
  · rw [same]
    rfl

theorem exchange_bindings (bindings : Bindings) (serverMax clientMax : Nat) (request : Request) :
    (bindings.exchange serverMax clientMax request).2 =
      (bindings.carryOut serverMax request).2 := by
  unfold Bindings.exchange
  split
  next same =>
    rw [same]
    split <;> rfl
  next same => rw [same]

/-- A request at a steady session is answered as on the map, and leaves the session steady. -/
theorem request_of_steady (steady : session.Steady bound server client number replies bindings)
    (sized : request.size < bound) :
    let expected := bindings.exchange server.maxValueSize client.maxValueSize request
    ∃ after,
      session.request request = (expected.1, after) ∧
      after.Steady bound server client number
        ((bindings.carryOut server.maxValueSize request).1 :: replies) expected.2 := by
  intro expected
  let reply := (bindings.carryOut server.maxValueSize request).1
  obtain ⟨link, linked, quiet⟩ := steady.linked
  have sending := ServedPeer.send_of_atRest steady.served
    (by rw [steady.serverLimits]; exact steady.serverAmple) sized
  rw [steady.serverLimits, steady.stored] at sending
  obtain ⟨peer, sent, served, stored, alloc, limits⟩ := sending
  -- the link was quiet, so the reply is all that there is to read
  let arrived : Link := { link with incoming := link.incoming ++ Source.ofBytes reply.encode }
  have signals : arrived.incoming.signals = Signal.octets reply.encode ++ [] := by
    rw [Source.signals_append, quiet]
    rfl
  obtain ⟨readable, short⟩ := Bindings.readable_carryOut server.maxValueSize request steady.below
    steady.serverAmple.small
  have fits : reply.header.length ≤ session.limits.maxHeaderLength := by
    rw [steady.clientLimits]
    exact Nat.le_trans short steady.clientAmple.header
  obtain ⟨rest, read, behind⟩ := Reply.read_of_encode session.alloc readable fits signals
  have received := @receive_of_received _ _ arrived _ _ { session with network := peer } read
  have result := received_carryOut steady.clientAmple.memory steady.below server.maxValueSize
    client request
  refine ⟨{ session with network := peer, link := some { link with incoming := rest } }, ?_, ?_⟩
  · rw [request_of_sent session linked sent, received, steady.clientLimits, result]
  · have bindings' := exchange_bindings bindings server.maxValueSize client.maxValueSize request
    exact {
      linked := ⟨_, rfl, behind⟩
      served
      stored := stored.trans bindings'.symm
      below := bindings' ▸ Bindings.below_carryOut server.maxValueSize steady.below sized
      serverLimits := limits
      clientLimits := steady.clientLimits
      serverAmple := alloc ▸ steady.serverAmple
      clientAmple := steady.clientAmple }

/-! ## Requests one after another -/

/-- Holds of a connected session whose link has nothing to read and at whose server nothing is
pending. -/
def Idle (session : Session ServedPeer) : Prop :=
  ∃ link number connection,
    session.link = some link ∧ link.incoming.bytes = [] ∧
      session.network.caller = some number ∧
      session.network.listener.connection? number = some connection ∧ connection.pending = []

theorem idle_of_steady (steady : session.Steady bound server client number replies bindings) :
    session.Idle := by
  obtain ⟨link, linked, quiet⟩ := steady.linked
  have unread : link.incoming.bytes = [] := by
    rw [Source.bytes_eq_signals, quiet]
    rfl
  have known : session.network.listener.connection? number = some ⟨[], replies⟩ := by
    rw [Listener.connection?, steady.served.known]
    rfl
  exact ⟨link, number, ⟨[], replies⟩, linked, unread, steady.served.caller, known, rfl⟩

theorem requests_of_steady {requests : List Request}
    (steady : session.Steady bound server client number replies bindings)
    (sized : ∀ request ∈ requests, request.size < bound) :
    (session.requests requests).map
        (fun step => (step.1, step.2.network.listener.store.find?)) =
      bindings.exchanges server.maxValueSize client.maxValueSize requests ∧
    (∀ step ∈ session.requests requests, step.2.Idle) ∧
    (((session.requests requests).map Prod.snd).getLastD session).Steady bound server client
      number ((bindings.carryOutAll server.maxValueSize requests).1.reverse ++ replies)
      (bindings.carryOutAll server.maxValueSize requests).2 := by
  induction requests generalizing session bindings replies with
  | nil => exact ⟨rfl, fun step mem => absurd mem List.not_mem_nil, steady⟩
  | cons request others ih =>
    obtain ⟨after, result, next⟩ := request_of_steady steady (sized request List.mem_cons_self)
    obtain ⟨results, idle, last⟩ :=
      ih next fun other mem => sized other (List.mem_cons_of_mem _ mem)
    rw [exchange_bindings] at last
    simp only [requests, result, Bindings.exchanges, Bindings.carryOutAll, List.map_cons,
      List.getLastD_cons, List.reverse_cons, List.append_assoc, List.singleton_append]
    refine ⟨by rw [results, next.stored], fun step mem => ?_, last⟩
    rcases List.mem_cons.mp mem with rfl | later
    · exact idle_of_steady next
    · exact idle step later

/-! ## A whole session -/

theorem start_of_header {config : Config} (store : Store) (alloc : Allocator)
    (header : 0 < config.limits.maxHeaderLength) :
    Listener.start config store alloc = .ok { alloc, limits := config.limits, store } := by
  exact Listener.start_eq_ok_iff.mpr ⟨Config.validate_eq_ok_iff.mpr header, rfl⟩

/-- A client that connects to a server that has just been started is steady. -/
theorem connect_of_started {name : String} {address : Address} {store : Store}
    {serverAlloc clientAlloc : Allocator} (named : Host.parse? name = some address.host)
    (serverAmple : Ample 38 bound serverAlloc server)
    (clientAmple : Ample 22 bound clientAlloc client)
    (stored : Bindings.Below bound store.find?) :
    let listener : Listener := { alloc := serverAlloc, limits := server, store }
    let fresh : Session ServedPeer :=
      { network := { address, listener }, limits := client, alloc := clientAlloc }
    ∃ opened,
      fresh.connect name address.port = (.ok address, opened) ∧
      opened.Steady bound server client 0 [] store.find? := by
  intro listener fresh
  obtain ⟨peer, dialled, served, sameStore, sameAlloc, sameLimits⟩ :=
    @ServedPeer.dial_of_listening fresh.network rfl rfl rfl
  have addresses : (Network.lookUp fresh.network name).map (fun host => ⟨host, address.port⟩) =
      [address] := by
    simp [Network.lookUp, Network.numbered, named]
  have answers : dialFirst fresh.network [address] = (some ⟨address, .ofBytes []⟩, peer) := by
    unfold dialFirst
    have here : Network.dial fresh.network address = _ := dialled
    rw [here]
  refine ⟨{ fresh with network := peer, link := some ⟨address, .ofBytes []⟩ }, ?_, ?_⟩
  · simp only [connect, isConnected, fresh, Option.isSome_none, Bool.false_eq_true, if_false]
    rw [addresses, answers]
  · exact {
      linked := ⟨_, rfl, rfl⟩
      served
      stored := by rw [sameStore]
      below := stored
      serverLimits := sameLimits
      clientLimits := rfl
      serverAmple := sameAlloc ▸ serverAmple
      clientAmple }

/-- A session is a partial map. Over one connection to a server that has just been started, every
request gets what the map of the server's bindings gives it, after every request the store has the
bindings of the map and nothing is under way, and all that the server wrote and did is what it
writes and does when the same requests reach it in any chunks and are served to their end.

Thirty-eight octets hold the header of every request whose value is shorter than `2 ^ 63`, and
twenty-two that of every reply. -/
theorem requests_eq_exchanges (config : Config) (store : Store) (requests : List Request)
    {serverAlloc clientAlloc : Allocator} {limits : Limits} {address : Address} {name : String}
    (named : Host.parse? name = some address.host)
    (serverHeader : 38 ≤ config.limits.maxHeaderLength)
    (clientHeader : 22 ≤ limits.maxHeaderLength)
    (small : bound ≤ 2 ^ 63)
    (serverMemory : ∀ size < bound, serverAlloc size = true)
    (clientMemory : ∀ size < bound, clientAlloc size = true)
    (stored : ∀ key value, store.find? key = some value → value.length < bound)
    (sent : ∀ request ∈ requests, request.size < bound) :
    ∃ listener opened,
      Listener.start config store serverAlloc = .ok listener ∧
      connect { network := ⟨address, listener, none, 0⟩, limits, alloc := clientAlloc } name
        address.port = (.ok address, opened) ∧
      let answered := opened.requests requests
      let last := ((answered.map Prod.snd).getLastD opened).network
      answered.map (fun step => (step.1, step.2.network.listener.store.find?)) =
        Bindings.exchanges config.limits.maxValueSize limits.maxValueSize store.find? requests ∧
      (∀ step ∈ answered, step.2.Idle) ∧
      ∀ source sink, source.signals = Signal.octets (requests.flatMap Request.encode) →
        sink.Reliable →
        let served := serve serverAlloc config.limits store source sink
        served.result = .ok () ∧ served.store.find? = last.listener.store.find? ∧
          served.sink.written = sink.written ++ last.output := by
  have serverAmple : Ample 38 bound serverAlloc config.limits :=
    ⟨small, serverHeader, serverMemory⟩
  have clientAmple : Ample 22 bound clientAlloc limits := ⟨small, clientHeader, clientMemory⟩
  have started := start_of_header store serverAlloc (Nat.lt_of_lt_of_le (by decide) serverHeader)
  obtain ⟨opened, connected, steady⟩ := connect_of_started named serverAmple clientAmple stored
  obtain ⟨results, idle, lastSteady⟩ := requests_of_steady steady sent
  refine ⟨_, opened, started, connected, results, idle, fun source sink same reliable => ?_⟩
  obtain ⟨result, servedStore, written⟩ := serve_of_requests_closed serverAmple store sent same
    reliable
  refine ⟨result, servedStore.trans lastSteady.stored.symm, ?_⟩
  rw [written, ServedPeer.output_of_atRest lastSteady.served]
  simp

/-- Values too long for the client, for the server and for neither, on one connection. -/
theorem requests_eq_exchanges_of_long_values :
    let config : Config := { limits := { maxValueSize := 3 } }
    let requests : List Request :=
      [.create 7 [97, 98], .read 7, .create 7 [97, 98, 99, 100], .update 7 [], .update 7 [99],
        .read 7, .create 7 [], .delete 7, .delete 7]
    ∃ listener opened,
      Listener.start config ∅ .unlimited = .ok listener ∧
      connect (Session.mk (ServedPeer.mk ⟨.loopback, 5000⟩ listener none 0) ⟨1, 22⟩ .unlimited none)
        "127.0.0.1" 5000 = (.ok ⟨.loopback, 5000⟩, opened) ∧
      (opened.requests requests).map Prod.fst =
        [.ok .ok, .error (.valueTooLarge 2 1), .ok (.error "malformed command"),
          .ok (.error "size must be > 0"), .ok .ok, .ok (.value [99]),
          .ok (.error "key exists"), .ok .ok, .ok (.error "no such key")] := by
  intro config requests
  have memory : ∀ size < 2 ^ 63 - 1, Allocator.unlimited size = true :=
    fun size less => Allocator.unlimited_iff.mpr less
  obtain ⟨listener, opened, started, connected, results, -⟩ :=
    @requests_eq_exchanges (2 ^ 63 - 1) config ∅ requests .unlimited .unlimited ⟨1, 22⟩
      ⟨.loopback, 5000⟩ "127.0.0.1" (by decide) (by decide) (by decide) (by decide) memory memory
      (fun key value found => nomatch found) (by decide)
  refine ⟨listener, opened, started, connected, ?_⟩
  have firsts := congrArg (List.map Prod.fst) results
  rw [List.map_map] at firsts
  exact firsts.trans (by rfl)

end Session

end WireStore
