import WireStore.Proofs.Client.Calls
import WireStore.Proofs.Client.Refinement
import WireStore.Proofs.Frame.RoundTrip

/-!
# One connection after another

A session opens connections, drops them with bytes unread and opens others. What it makes of a
connection it makes of the bytes that arrive on this one: each request gets the reply that is read
next, until the stream can carry no more, and nothing that was left on an earlier connection is
read or sent on a later one (`own_replies`).
-/

namespace WireStore

namespace Called

/-- Holds of a call that opened a connection. -/
def opens : Called → Bool
  | .connect _ _ (.ok _) => true
  | _ => false

/-- Holds of a call after which there is no connection, whatever happened before. -/
def leaves : Called → Bool
  | .disconnect _ => true
  | _ => false

def exchange? : Called → Option (Request × Except Error Reply)
  | .request content result => some (content, result)
  | _ => none

/-- The requests among some calls, with their results. -/
def exchanges (calls : List Called) : List (Request × Except Error Reply) :=
  calls.filterMap exchange?

/-- The calls before a connection is opened, and for each connection those from its opening up to
that of the next one. -/
def perConnection : List Called → List Called × List (List Called)
  | [] => ([], [])
  | called :: calls =>
    let (front, connections) := perConnection calls
    if called.opens then ([], front :: connections) else (called :: front, connections)

theorem perConnection_of_opens {called : Called} (opens : called.opens = true)
    (calls : List Called) : perConnection (called :: calls) =
      ([], (perConnection calls).1 :: (perConnection calls).2) := by
  simp only [perConnection, opens, if_true]

theorem perConnection_of_stays {called : Called} (stays : called.opens = false)
    (calls : List Called) : perConnection (called :: calls) =
      (called :: (perConnection calls).1, (perConnection calls).2) := by
  simp only [perConnection, stays, Bool.false_eq_true, if_false]

end Called

open Called

/-- What is read for the requests before a connection is left, one reply for each as long as the
stream can carry another. Without a connection nothing is read. -/
def repliesRead (alloc : Allocator) (limits : Limits) (calls : List Called) :
    Option Source → List (Except Error Reply)
  | none => []
  | some source =>
    let asked := exchanges (calls.takeWhile fun called => !called.leaves)
    (Reader.outcomes (Reply.read alloc limits) Reply.goesOn asked.length source).map Prod.fst

/-- Holds if requests get what is read of one source, reply for reply, and no reply once there is
nothing more to read, and if the requests that something was read for are all that was sent. -/
structure OwnReplies (alloc : Allocator) (limits : Limits) (arriving : Option Source)
    (calls : List Called) (sent : Bytes) : Prop where
  results :
    let read := repliesRead alloc limits calls arriving
    (exchanges calls).map Prod.snd =
      read.map (Except.mapError Session.readError) ++
        List.replicate ((exchanges calls).length - read.length) (.error .notConnected)
  sent :
    let read := repliesRead alloc limits calls arriving
    sent = ((exchanges calls).take read.length).flatMap fun exchange => exchange.1.encode

/-- Holds if on every connection the requests get what is read of its own script. -/
structure EachOwn (alloc : Allocator) (limits : Limits) (scripts : List Bytes)
    (connections : List (List Called)) (log : List Bytes) : Prop where
  length : log.length = connections.length
  own : ∀ number calls sent, connections[number]? = some calls → log[number]? = some sent →
    OwnReplies alloc limits (some (.ofBytes (scripts.getD number []))) calls sent

variable {alloc : Allocator} {limits : Limits} {arriving : Option Source} {source rest : Source}
  {calls : List Called} {sent : Bytes} {scripts : List Bytes} {connections : List (List Called)}
  {log : List Bytes}

/-! ## One call more -/

namespace OwnReplies

theorem nil (alloc : Allocator) (limits : Limits) (arriving : Option Source) :
    OwnReplies alloc limits arriving [] [] := by
  cases arriving <;> exact ⟨rfl, rfl⟩

/-- A call that asks for nothing and leaves the connection as it is makes no difference. -/
theorem skip {called : Called} (own : OwnReplies alloc limits arriving calls sent)
    (silent : called.exchange? = none) (stays : called.leaves = false) :
    OwnReplies alloc limits arriving (called :: calls) sent := by
  have same : exchanges (called :: calls) = exchanges calls := List.filterMap_cons_none silent
  have asked : exchanges ((called :: calls).takeWhile fun called => !called.leaves) =
      exchanges (calls.takeWhile fun called => !called.leaves) := by
    rw [List.takeWhile_cons_of_pos (by rw [stays]; rfl)]
    exact List.filterMap_cons_none silent
  have read : repliesRead alloc limits (called :: calls) arriving =
      repliesRead alloc limits calls arriving := by
    cases arriving with
    | none => rfl
    | some source => simp only [repliesRead, asked]
  constructor
  · rw [read, same]
    exact own.results
  · rw [read, same]
    exact own.sent

theorem leave (own : OwnReplies alloc limits none calls sent) (arriving : Option Source)
    (wasOpen : Bool) : OwnReplies alloc limits arriving (.disconnect wasOpen :: calls) sent := by
  have read : repliesRead alloc limits (.disconnect wasOpen :: calls) arriving = [] := by
    cases arriving <;> rfl
  constructor
  · rw [read]
    exact own.results
  · rw [read]
    exact own.sent

theorem refuse (own : OwnReplies alloc limits none calls sent) (content : Request) :
    OwnReplies alloc limits none (.request content (.error .notConnected) :: calls) sent := by
  refine ⟨?_, own.sent⟩
  simpa [repliesRead, exchanges, exchange?, List.replicate_succ] using own.results

/-- A request is answered with what is read next; it is the last one to be if reading stops. -/
theorem answer {found : Except Error Reply} (read : Reply.read alloc limits source = (found, rest))
    (own : OwnReplies alloc limits (if Reply.goesOn found then some rest else none) calls sent)
    (content : Request) :
    OwnReplies alloc limits (some source)
      (.request content (found.mapError Session.readError) :: calls) (content.encode ++ sent) := by
  have next : repliesRead alloc limits
        (.request content (found.mapError Session.readError) :: calls) (some source) =
      found :: repliesRead alloc limits calls
        (if Reply.goesOn found then some rest else none) := by
    have asked : exchanges ((Called.request content (found.mapError Session.readError) ::
          calls).takeWhile fun called => !called.leaves) =
        (content, found.mapError Session.readError) ::
          exchanges (calls.takeWhile fun called => !called.leaves) := rfl
    by_cases goes : Reply.goesOn found = true
    all_goals
      simp only [repliesRead, asked, List.length_cons, Reader.outcomes, List.replicate_succ,
        Reader.inTurn, read, goes, if_true, if_false, List.map_cons, List.map_nil,
        Bool.false_eq_true]
  constructor
  · rw [next]
    simpa [exchanges, exchange?] using own.results
  · rw [next]
    simpa [exchanges, exchange?] using own.sent

end OwnReplies

theorem EachOwn.nil (alloc : Allocator) (limits : Limits) (scripts : List Bytes) :
    EachOwn alloc limits scripts [] [] :=
  ⟨rfl, fun _ _ _ found => nomatch found⟩

theorem EachOwn.cons (each : EachOwn alloc limits scripts.tail connections log)
    (own : OwnReplies alloc limits (some (.ofBytes (scripts.head?.getD []))) calls sent) :
    EachOwn alloc limits scripts (calls :: connections) (sent :: log) where
  length := congrArg (· + 1) each.length
  own := by
    intro number others more here there
    cases number with
    | zero =>
      obtain rfl := Option.some.inj here
      obtain rfl := Option.some.inj there
      simpa [List.head?_eq_getElem?] using own
    | succ number =>
      have later := each.own number others more here there
      simpa using later

namespace ScriptedPeer

theorem note_nil (peer : ScriptedPeer) : peer.note [] = peer := by
  rcases peer with ⟨address, scripts, current, received, window⟩
  cases received <;> simp [note]

theorem note_note (peer : ScriptedPeer) (first second : Bytes) :
    (peer.note first).note second = peer.note (first ++ second) := by
  unfold note
  cases peer.received <;> simp

theorem log_note_accept (peer : ScriptedPeer) (bytes : Bytes) :
    (peer.accept.note bytes).log = peer.log ++ [bytes] := by
  simp [log, note, accept]

end ScriptedPeer

namespace Session

/-! ## One call -/

/-- A session reports what it reads, and keeps its link as long as reading goes on. -/
theorem receive_of_read {ν : Type} [Network ν] {link : Link} {found : Except Error Reply}
    (session : Session ν)
    (read : Reply.read session.alloc session.limits link.incoming = (found, rest)) :
    session.receive link =
      (found.mapError readError,
        if Reply.goesOn found then { session with link := some { link with incoming := rest } }
        else { session with network := Network.hangUp session.network, link := none }) := by
  unfold receive
  rw [read]
  cases found with
  | ok reply => rfl
  | error reason =>
    have same : (readError reason).isTransport = reason.isTransport := by cases reason <;> rfl
    by_cases broken : reason.isTransport = true
    · simp [fail, same, broken, Reply.goesOn, Except.mapError]
    · simp [fail, same, broken, Reply.goesOn, Except.mapError]

theorem disconnect_of_scripted (session : Session ScriptedPeer) :
    session.disconnect = (session.isConnected, { session with link := none }) := by
  rcases session with ⟨network, limits, alloc, link⟩
  cases link <;> rfl

/-- The session after some calls. -/
def afterCalls {ν : Type} [Network ν] (session : Session ν) (calls : List Call) : Session ν :=
  calls.foldl (fun session call => (session.make call).2) session

/-- Holds of a session with a peer that sends these scripts on the connections still to come, and
that takes in what it is sent on the one that is open. -/
structure Follows (scripts : List Bytes) (session : Session ScriptedPeer) : Prop where
  scripts : session.network.scripts = scripts.map .sends
  current : session.isConnected = true → ∃ bytes, session.network.current = .sends bytes

variable {session last : Session ScriptedPeer}

theorem dialFirst_cases {peer : ScriptedPeer} (told : peer.scripts = scripts.map .sends)
    (addresses : List Address) :
    dialFirst peer addresses = (none, peer) ∨
      dialFirst peer addresses =
        (some ⟨peer.address, .ofBytes (scripts.head?.getD [])⟩, peer.accept) := by
  induction addresses with
  | nil => exact .inl rfl
  | cons address others ih =>
    have current : peer.accept.current = .sends (scripts.head?.getD []) := by
      simp only [ScriptedPeer.accept, told]
      cases scripts <;> rfl
    by_cases here : address = peer.address
    · right
      simp only [dialFirst, Network.dial, here, if_true, current]
    · simpa only [dialFirst, Network.dial, here, if_false] using ih

/-- A session that is not connected stays as it is or opens a connection with the next script. -/
theorem connect_cases (follows : session.Follows scripts) (unlinked : session.link = none)
    (host : String) (port : UInt16) :
    session.connect host port = (.error .connectFailed, session) ∨
      session.connect host port =
        (.ok session.network.address,
          { session with
            network := session.network.accept
            link := some ⟨session.network.address, .ofBytes (scripts.head?.getD [])⟩ }) := by
  have unconnected : ¬session.isConnected = true := by simp [isConnected, unlinked]
  unfold connect
  rw [if_neg unconnected]
  rcases dialFirst_cases follows.scripts
    ((Network.lookUp session.network host).map fun host => ⟨host, port⟩) with refused | opened
  · left
    simp only [refused]
  · right
    simp only [opened]

theorem request_of_read {link : Link} {found : Except Error Reply}
    (follows : session.Follows scripts) (linked : session.link = some link)
    (read : Reply.read session.alloc session.limits link.incoming = (found, rest))
    (content : Request) :
    session.request content =
      (found.mapError readError,
        { session with
          network := session.network.note content.encode
          link := if Reply.goesOn found then some { link with incoming := rest } else none }) := by
  obtain ⟨bytes, current⟩ := follows.current (by rw [isConnected, linked]; rfl)
  have sent : Network.send session.network content.encode =
      (.ok .ended, session.network.note content.encode) := by
    simp only [Network.send, current]
  have nothing : link.incoming ++ Source.ended = link.incoming := Source.append_ended _
  let due : Session ScriptedPeer :=
    { session with network := session.network.note content.encode }
  have received : due.receive link = _ := receive_of_read due read
  rw [request_of_sent session linked sent, nothing]
  refine received.trans ?_
  by_cases goes : Reply.goesOn found = true
  · simp only [goes, if_true, due]
  · simp only [goes, if_false, Network.hangUp, Bool.false_eq_true, due]

/-! ## Calls one after another -/

/-- Holds if the log of the peer and the results account for some calls on a session that leave it
as `last`: until the next connection is opened all depends on what is left to read on the one that
is open, and then on the script of the new one. -/
def Accounts (scripts : List Bytes) (session last : Session ScriptedPeer) (calls : List Called) :
    Prop :=
  ∃ more later,
    last.network.log = (session.network.note more).log ++ later ∧
    OwnReplies session.alloc session.limits (session.link.map Link.incoming)
      (perConnection calls).1 more ∧
    EachOwn session.alloc session.limits scripts (perConnection calls).2 later

/-- A call that opens no connection joins those on the connection that there is. -/
theorem Accounts.of_stays {called : Called} {more : Bytes} {later : List Bytes}
    (unopened : called.opens = false)
    (log : last.network.log = (session.network.note more).log ++ later)
    (own : OwnReplies session.alloc session.limits (session.link.map Link.incoming)
      (called :: (perConnection calls).1) more)
    (each : EachOwn session.alloc session.limits scripts (perConnection calls).2 later) :
    Accounts scripts session last (called :: calls) := by
  have cut := perConnection_of_stays unopened calls
  exact ⟨more, later, log, by rw [cut]; exact own, by rw [cut]; exact each⟩

theorem Accounts.skip {called : Called} (accounts : Accounts scripts session last calls)
    (silent : called.exchange? = none) (stays : called.leaves = false)
    (unopened : called.opens = false) : Accounts scripts session last (called :: calls) := by
  obtain ⟨more, later, log, own, each⟩ := accounts
  exact .of_stays unopened log (own.skip silent stays) each

/-- Holds if what calls on a session come to can be told, one of them being made, from the session
that this one leaves. -/
def Passes (scripts : List Bytes) (session : Session ScriptedPeer)
    (made : Called × Session ScriptedPeer) : Prop :=
  ∃ others, made.2.Follows others ∧ ∀ calls last,
    Accounts others made.2 last calls → Accounts scripts session last (made.1 :: calls)

theorem passes_connect (follows : session.Follows scripts) (host : String) (port : UInt16) :
    Passes scripts session (session.make (.connect host port)) := by
  have refuses (reason : Error) :
      Passes scripts session (.connect host port (.error reason), session) :=
    ⟨scripts, follows, fun calls last accounts => accounts.skip rfl rfl rfl⟩
  cases linked : session.link with
  | some link =>
    have connected : session.isConnected = true := by rw [isConnected, linked]; rfl
    simp only [make, connect_of_connected connected]
    exact refuses .alreadyConnected
  | none =>
    rcases connect_cases follows linked host port with refused | opened
    · simp only [make, refused]
      exact refuses .connectFailed
    · simp only [make, opened]
      refine ⟨scripts.tail, ⟨?_, fun _ => ⟨scripts.head?.getD [], ?_⟩⟩, ?_⟩
      · simp only [ScriptedPeer.accept, follows.scripts, List.map_tail]
      · simp only [ScriptedPeer.accept, follows.scripts]
        cases scripts <;> rfl
      · rintro calls last ⟨more, later, log, own, each⟩
        refine ⟨[], more :: later, ?_, ?_, ?_⟩
        · rw [log, ScriptedPeer.log_note_accept, ScriptedPeer.note_nil, List.append_assoc]
          rfl
        · rw [linked, perConnection_of_opens rfl]
          exact .nil ..
        · rw [perConnection_of_opens rfl]
          exact each.cons own

theorem passes_disconnect (follows : session.Follows scripts) :
    Passes scripts session (session.make .disconnect) := by
  simp only [make, disconnect_of_scripted]
  have unconnected : Follows scripts { session with link := none } := by
    refine ⟨follows.scripts, fun connected => ?_⟩
    cases connected
  refine ⟨scripts, unconnected, ?_⟩
  rintro calls last ⟨more, later, log, own, each⟩
  exact .of_stays rfl log (own.leave ..) each

theorem passes_request (follows : session.Follows scripts) (content : Request) :
    Passes scripts session (session.make (.request content)) := by
  cases linked : session.link with
  | none =>
    have unconnected : session.isConnected = false := by rw [isConnected, linked]; rfl
    simp only [make, request_of_unconnected unconnected]
    refine ⟨scripts, follows, ?_⟩
    rintro calls last ⟨more, later, log, own, each⟩
    refine .of_stays rfl log ?_ each
    rw [linked] at own ⊢
    exact own.refuse content
  | some link =>
    rcases read : Reply.read session.alloc session.limits link.incoming with ⟨found, rest⟩
    simp only [make, request_of_read follows linked read]
    obtain ⟨bytes, current⟩ := follows.current (by rw [isConnected, linked]; rfl)
    refine ⟨scripts, ⟨follows.scripts, fun _ => ⟨bytes, current⟩⟩, ?_⟩
    rintro calls last ⟨more, later, log, own, each⟩
    have left : (if Reply.goesOn found then some { link with incoming := rest } else none).map
        Link.incoming = if Reply.goesOn found then some rest else none := by
      split <;> rfl
    rw [ScriptedPeer.note_note] at log
    refine .of_stays rfl log ?_ each
    rw [left] at own
    rw [linked]
    exact own.answer read content

theorem passes_make (follows : session.Follows scripts) (call : Call) :
    Passes scripts session (session.make call) := by
  cases call with
  | connect host port => exact passes_connect follows host port
  | disconnect => exact passes_disconnect follows
  | request content => exact passes_request follows content

theorem accounts_of_calls (follows : session.Follows scripts) (calls : List Call) :
    Accounts scripts session (session.afterCalls calls)
      ((session.history calls).map Step.called) := by
  induction calls generalizing session scripts with
  | nil =>
    refine ⟨[], [], ?_, .nil .., .nil ..⟩
    rw [ScriptedPeer.note_nil, List.append_nil]
    rfl
  | cons call calls ih =>
    obtain ⟨others, goesOn, one⟩ := passes_make follows call
    exact one _ _ (ih goesOn)

/-- Whatever a peer sends on the connections that a session opens one after another, and whatever
the session asks and whenever it leaves, the requests on each connection get what is read of the
script of this one alone, reply for reply up to the first error that ends the stream, and from then
on are refused until the next connection is opened; what is received there is the requests that got
something. -/
theorem own_replies (address : Address) (scripts : List Bytes) (limits : Limits)
    (alloc : Allocator) (calls : List Call) :
    let fresh : Session ScriptedPeer :=
      { network := { address, scripts := scripts.map .sends }, limits, alloc }
    let cut := perConnection ((fresh.history calls).map Step.called)
    (∀ exchange ∈ exchanges cut.1, exchange.2 = .error .notConnected) ∧
      EachOwn alloc limits scripts cut.2 (fresh.afterCalls calls).network.log := by
  intro fresh cut
  have follows : fresh.Follows scripts := ⟨rfl, nofun⟩
  obtain ⟨more, later, log, own, each⟩ := accounts_of_calls follows calls
  refine ⟨fun exchange mem => ?_, ?_⟩
  · have refused : (exchanges cut.1).map Prod.snd = _ := own.results
    have here : exchange.2 ∈ (exchanges cut.1).map Prod.snd := List.mem_map_of_mem mem
    rw [refused] at here
    exact List.eq_of_mem_replicate here
  · have nothing : (fresh.network.note more).log = [] := rfl
    rw [log, nothing, List.nil_append]
    exact each

/-- A reply is left unread on the first connection, and a value is cut short on the second. -/
example :
    let fresh : Session ScriptedPeer :=
      { network :=
          { address := ⟨.loopback, 5000⟩
            scripts := [.sends (Utf8.encode "OK\nERR no\n"), .sends (Utf8.encode "OK 3\nab")] } }
    let connect : Call := .connect "127.0.0.1" 5000
    let calls : List Call :=
      [connect, .request (.read 1), .disconnect, connect, .request (.read 2), .request (.read 3)]
    perConnection ((fresh.history calls).map Step.called) =
        ([], [[.request (.read 1) (.ok .ok), .disconnect true],
          [.request (.read 2) (.error (.truncatedValue 3 2)),
            .request (.read 3) (.error .notConnected)]]) ∧
      (fresh.afterCalls calls).network.log =
        [Utf8.encode "READ 1\n", Utf8.encode "READ 2\n"] := by
  decide +kernel

end Session

end WireStore
