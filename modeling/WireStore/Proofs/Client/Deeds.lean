import WireStore.Proofs.Client.Connections
import WireStore.Proofs.Client.Lines

/-!
# What a line does to the network

A line that is understood is carried out, and one that is not leaves the session alone
(`interpret_of_parse`, `interpret_of_refused`), although a shell looks for a connection before it
looks at the arguments of a request.

A network can be watched: `Watched` forwards everything and notes what was dialled and what was
handed over to be sent. On a watched network a line that is a request hands over the bytes of that
request, on the connection that is open, and no other line hands over any (`execute_sends`).
-/

namespace WireStore

/-- What a client does with a network. -/
inductive Deed where
  | dialled (address : Address)
  /-- These bytes were handed over to be sent. -/
  | sent (bytes : Bytes)
  | hungUp
  deriving DecidableEq, Repr

/-- A network that is watched, and what has been done with it. -/
structure Watched (ν : Type) where
  network : ν
  deeds : List Deed := []

/-- A watched network answers as the network does. -/
instance {ν : Type} [Network ν] : Network (Watched ν) where
  lookUp watched := Network.lookUp watched.network
  dial watched address :=
    let (answer, network) := Network.dial watched.network address
    (answer, ⟨network, watched.deeds ++ [.dialled address]⟩)
  send watched bytes :=
    let (answer, network) := Network.send watched.network bytes
    (answer, ⟨network, watched.deeds ++ [.sent bytes]⟩)
  hangUp watched := ⟨Network.hangUp watched.network, watched.deeds ++ [.hungUp]⟩

namespace Instruction

variable {line arguments : Bytes} {verb : Verb} {instruction : Instruction}

theorem parse_eq_none_iff : parse line = .ok none ↔ Token.allBlank line = true := by
  rw [← splitVerb_eq_nil_iff]
  unfold parse
  rcases splitVerb line with ⟨token, arguments⟩
  simp only
  by_cases empty : token = []
  · simp [empty]
  · have filled : ¬token.isEmpty = true := by simpa using empty
    rw [if_neg filled]
    cases Verb.parse? token with
    | none => simp [empty]
    | some verb => cases made : ofVerb verb arguments <;> simp [made, empty, Except.map]

/-- The verbs that need a connection are those of requests. -/
theorem exists_request_of_needsServer (needs : verb.needsServer = true)
    (made : ofVerb verb arguments = .ok instruction) :
    ∃ content, instruction = .request content := by
  cases verb with
  | connect | disconnect | help | quit => exact absurd needs Bool.false_ne_true
  | read | delete =>
    simp only [ofVerb, naming] at made
    split at made
    · cases made
    · exact ⟨_, (Except.ok.inj made).symm⟩
  | create | update =>
    simp only [ofVerb, carrying] at made
    split at made
    · cases made
    · split at made
      · exact ⟨_, (Except.ok.inj made).symm⟩
      · cases made

end Instruction

namespace Session

variable {ν : Type} [Network ν] (session : Session ν) {line arguments : Bytes} {verb : Verb}
  {instruction : Instruction}

/-! ## Lines that are understood, and lines that are not -/

theorem interpretVerb_of_ofVerb (made : Instruction.ofVerb verb arguments = .ok instruction) :
    session.interpretVerb verb arguments = session.perform instruction := by
  unfold interpretVerb
  split
  next unready =>
    obtain ⟨content, rfl⟩ := Instruction.exists_request_of_needsServer unready.1 made
    rw [perform, request_of_unconnected unready.2]
  next => rw [made]

theorem interpretVerb_of_refused {reason : Error}
    (refused : Instruction.ofVerb verb arguments = .error reason) :
    (session.interpretVerb verb arguments).2 = session := by
  unfold interpretVerb
  split
  · rfl
  · rw [refused]

/-- A line is blank, or its first token is no verb, or it is a verb with arguments. -/
theorem interpret_cases (line : Bytes) :
    ((Instruction.splitVerb line).1 = [] ∧ Instruction.parse line = .ok none ∧
      session.interpret line = (.nothing, session)) ∨
    (Verb.parse? (Instruction.splitVerb line).1 = none ∧
      Instruction.parse line = .error .unknownCommand ∧
      session.interpret line =
        (.line (Utf8.encode "ERR unknown command (type 'help')"), session)) ∨
    ∃ verb, Verb.parse? (Instruction.splitVerb line).1 = some verb ∧
      Instruction.parse line =
        (Instruction.ofVerb verb (Instruction.splitVerb line).2).map some ∧
      session.interpret line = session.interpretVerb verb (Instruction.splitVerb line).2 := by
  unfold Instruction.parse interpret
  rcases Instruction.splitVerb line with ⟨token, arguments⟩
  simp only
  by_cases empty : token = []
  · left
    subst empty
    exact ⟨rfl, rfl, rfl⟩
  · right
    have filled : ¬token.isEmpty = true := by simpa using empty
    rw [if_neg filled, if_neg filled]
    cases Verb.parse? token with
    | none => exact .inl ⟨rfl, rfl, rfl⟩
    | some verb => exact .inr ⟨verb, rfl, rfl, rfl⟩

/-- A line that is understood is carried out. -/
theorem interpret_of_parse (parsed : Instruction.parse line = .ok (some instruction)) :
    session.interpret line = session.perform instruction := by
  rcases session.interpret_cases line with ⟨-, blank, -⟩ | ⟨-, unknown, -⟩ | ⟨verb, -, made, same⟩
  · exact nomatch blank.symm.trans parsed
  · exact nomatch unknown.symm.trans parsed
  · rw [same]
    cases result : Instruction.ofVerb verb (Instruction.splitVerb line).2 with
    | error reason => simp [made, result, Except.map] at parsed
    | ok other =>
      obtain rfl : other = instruction := by simpa [made, result, Except.map] using parsed
      exact session.interpretVerb_of_ofVerb result

/-- A line that is not understood does nothing. -/
theorem interpret_of_refused {reason : Error} (refused : Instruction.parse line = .error reason) :
    (session.interpret line).2 = session := by
  rcases session.interpret_cases line with ⟨-, -, same⟩ | ⟨-, -, same⟩ | ⟨verb, -, made, same⟩
  · rw [same]
  · rw [same]
  · rw [same]
    cases result : Instruction.ofVerb verb (Instruction.splitVerb line).2 with
    | error other => exact session.interpretVerb_of_refused result
    | ok instruction => simp [made, result, Except.map] at refused

theorem interpret_of_nothing (blank : Instruction.parse line = .ok none) :
    (session.interpret line).2 = session := by
  rcases session.interpret_cases line with ⟨-, -, same⟩ | ⟨-, -, same⟩ | ⟨verb, -, made, -⟩
  · rw [same]
  · rw [same]
  · cases result : Instruction.ofVerb verb (Instruction.splitVerb line).2 <;>
      simp [made, result, Except.map] at blank

/-- Without a connection a verb that needs one is refused, whatever follows it. -/
theorem interpret_of_unready (known : Verb.parse? (Instruction.splitVerb line).1 = some verb)
    (needs : verb.needsServer = true) (unconnected : session.isConnected = false) :
    session.interpret line = (.error .notConnected, session) := by
  rcases session.interpret_cases line with ⟨empty, -, -⟩ | ⟨unknown, -, -⟩ | ⟨other, same, -, told⟩
  · rw [empty] at known
    exact nomatch (Instruction.parse?_eq_none (.inl rfl)).symm.trans known
  · exact nomatch unknown.symm.trans known
  · obtain rfl := Option.some.inj (same.symm.trans known)
    rw [told, interpretVerb, if_pos ⟨needs, unconnected⟩]

theorem perform_connect_snd (host : String) (port : UInt16) :
    (session.perform (.connect host port)).2 = (session.connect host port).2 := by
  simp only [perform]
  rcases session.connect host port with ⟨_ | _, after⟩ <;> rfl

theorem perform_request_snd (content : Request) :
    (session.perform (.request content)).2 = (session.request content).2 := by
  simp only [perform]
  rcases session.request content with ⟨_ | _, after⟩ <;> rfl

/-! ## Watching changes nothing -/

/-- The session on the network itself. -/
def unwatched {ν : Type} (session : Session (Watched ν)) : Session ν :=
  { session with network := session.network.network }

variable (watched : Session (Watched ν))

theorem dialFirst_unwatched (network : Watched ν) (addresses : List Address) :
    dialFirst network.network addresses =
      ((dialFirst network addresses).1, (dialFirst network addresses).2.network) := by
  induction addresses generalizing network with
  | nil => rfl
  | cons address others ih =>
    rw [dialFirst, dialFirst]
    rcases dialled : Network.dial network.network address with ⟨_ | incoming, after⟩
    · simp only [Network.dial, dialled]
      exact ih ⟨after, _⟩
    · simp only [Network.dial, dialled]

theorem connect_unwatched (host : String) (port : UInt16) :
    watched.unwatched.connect host port =
      ((watched.connect host port).1, (watched.connect host port).2.unwatched) := by
  rcases watched with ⟨network, limits, alloc, _ | link⟩
  · let addresses := (Network.lookUp network.network host).map fun host => (⟨host, port⟩ : Address)
    have same := dialFirst_unwatched network addresses
    have known : Network.lookUp network host = Network.lookUp network.network host := rfl
    simp only [connect, unwatched, isConnected, Option.isSome_none, Bool.false_eq_true, if_false,
      known, same, addresses]
    rcases dialFirst network addresses with ⟨_ | link, after⟩ <;> rfl
  · rfl

theorem disconnect_unwatched :
    watched.unwatched.disconnect = (watched.disconnect.1, watched.disconnect.2.unwatched) := by
  rcases watched with ⟨network, limits, alloc, _ | link⟩ <;> rfl

theorem receive_unwatched (link : Link) :
    watched.unwatched.receive link =
      ((watched.receive link).1, (watched.receive link).2.unwatched) := by
  rcases read : Reply.read watched.alloc watched.limits link.incoming with ⟨found, incoming⟩
  rw [receive_of_read watched read, receive_of_read watched.unwatched read]
  split <;> rfl

theorem request_unwatched (content : Request) :
    watched.unwatched.request content =
      ((watched.request content).1, (watched.request content).2.unwatched) := by
  rcases linked : watched.link with _ | link
  · have apart : watched.unwatched.link = none := linked
    simp only [request, linked, apart]
  · have joined : watched.unwatched.link = some link := linked
    rcases sent : Network.send watched.network content.encode with ⟨reason | arrived, network⟩
    · have same : Network.send watched.unwatched.network content.encode =
          (.error reason, network.network) := congrArg (fun sent => (sent.1, sent.2.network)) sent
      rw [request_of_unsent watched linked sent, request_of_unsent _ joined same]
      rfl
    · have same : Network.send watched.unwatched.network content.encode =
          (.ok arrived, network.network) := congrArg (fun sent => (sent.1, sent.2.network)) sent
      rw [request_of_sent watched linked sent, request_of_sent _ joined same]
      exact receive_unwatched { watched with network } _

theorem perform_unwatched (instruction : Instruction) :
    watched.unwatched.perform instruction =
      ((watched.perform instruction).1, (watched.perform instruction).2.unwatched) := by
  cases instruction with
  | connect host port =>
    simp only [perform, connect_unwatched]
    rcases watched.connect host port with ⟨_ | _, after⟩ <;> rfl
  | disconnect => simp only [perform, disconnect_unwatched]
  | help => rfl
  | quit => simp only [perform, disconnect_unwatched]
  | request content =>
    simp only [perform, request_unwatched]
    rcases watched.request content with ⟨_ | _, after⟩ <;> rfl

theorem interpretVerb_unwatched (verb : Verb) (arguments : Bytes) :
    watched.unwatched.interpretVerb verb arguments =
      ((watched.interpretVerb verb arguments).1,
        (watched.interpretVerb verb arguments).2.unwatched) := by
  unfold interpretVerb
  by_cases unready : verb.needsServer = true ∧ watched.isConnected = false
  · rw [if_pos unready]
    exact if_pos unready
  · rw [if_neg unready]
    refine (if_neg unready).trans ?_
    cases Instruction.ofVerb verb arguments with
    | error reason => rfl
    | ok instruction => exact watched.perform_unwatched instruction

/-- A line does on a watched network what it does on the network. -/
theorem interpret_unwatched (line : Bytes) :
    watched.unwatched.interpret line =
      ((watched.interpret line).1, (watched.interpret line).2.unwatched) := by
  unfold interpret
  rcases Instruction.splitVerb line with ⟨token, arguments⟩
  simp only
  by_cases empty : token.isEmpty = true
  · rw [if_pos empty, if_pos empty]
  · rw [if_neg empty, if_neg empty]
    cases Verb.parse? token with
    | none => rfl
    | some verb => exact watched.interpretVerb_unwatched verb arguments

/-! ## Deeds on a watched network -/

/-- Holds where these deeds were done on the way from one session to another. -/
def Does {ν : Type} (before after : Session (Watched ν)) (deeds : List Deed) : Prop :=
  after.network.deeds = before.network.deeds ++ deeds

theorem does_nothing {ν : Type} (session : Session (Watched ν)) : session.Does session [] :=
  (List.append_nil _).symm

theorem deeds_dialFirst (network : Watched ν) (addresses : List Address) :
    ∃ dialled : List Address,
      (dialFirst network addresses).2.deeds = network.deeds ++ dialled.map Deed.dialled := by
  induction addresses generalizing network with
  | nil => exact ⟨[], (List.append_nil _).symm⟩
  | cons address others ih =>
    rw [dialFirst]
    rcases dialled : Network.dial network address with ⟨_ | incoming, after⟩
    · obtain ⟨later, deeds⟩ := ih after
      refine ⟨address :: later, ?_⟩
      obtain rfl := (congrArg Prod.snd dialled).symm
      rw [deeds]
      simp [Network.dial]
    · refine ⟨[address], ?_⟩
      obtain rfl := (congrArg Prod.snd dialled).symm
      rfl

theorem does_connect (host : String) (port : UInt16) :
    ∃ dialled : List Address,
      watched.Does (watched.connect host port).2 (dialled.map Deed.dialled) := by
  unfold connect
  split
  · exact ⟨[], watched.does_nothing⟩
  · obtain ⟨dialled, deeds⟩ := deeds_dialFirst watched.network
      ((Network.lookUp watched.network host).map fun host => ⟨host, port⟩)
    refine ⟨dialled, ?_⟩
    simp only
    split
    all_goals
      rename_i same
      rw [same] at deeds
      exact deeds

theorem does_disconnect :
    watched.Does watched.disconnect.2 (if watched.isConnected then [.hungUp] else []) := by
  unfold disconnect isConnected
  cases watched.link with
  | none => exact (List.append_nil _).symm
  | some link => rfl

theorem does_receive (link : Link) :
    ∃ rest, watched.Does (watched.receive link).2 rest ∧ rest ⊆ [.hungUp] := by
  rcases read : Reply.read watched.alloc watched.limits link.incoming with ⟨found, incoming⟩
  rw [receive_of_read watched read]
  by_cases goesOn : Reply.goesOn found = true
  · simp only [goesOn, if_true]
    exact ⟨[], watched.does_nothing, List.nil_subset _⟩
  · simp only [goesOn, Bool.false_eq_true, if_false]
    exact ⟨[.hungUp], rfl, List.Subset.refl _⟩

/-- A request is handed over on the connection that is open; hanging up is all that can follow. -/
theorem does_request (connected : watched.isConnected = true) (content : Request) :
    ∃ rest, watched.Does (watched.request content).2 (.sent content.encode :: rest) ∧
      rest ⊆ [.hungUp] := by
  obtain ⟨link, linked⟩ := Option.isSome_iff_exists.mp connected
  rcases sent : Network.send watched.network content.encode with ⟨answer, network⟩
  have noted : network.deeds = watched.network.deeds ++ [.sent content.encode] :=
    (congrArg (fun sent => sent.2.deeds) sent).symm
  cases answer with
  | error reason =>
    rw [request_of_unsent watched linked sent]
    refine ⟨[.hungUp], ?_, List.Subset.refl _⟩
    simp [Does, Network.hangUp, noted]
  | ok arrived =>
    rw [request_of_sent watched linked sent]
    obtain ⟨rest, deeds, subset⟩ := does_receive { watched with network }
      { link with incoming := link.incoming ++ arrived }
    refine ⟨rest, deeds.trans ?_, subset⟩
    rw [noted, List.append_assoc]
    rfl

/-- Only a request is handed over to be sent, and only if there is a connection. -/
theorem does_perform (instruction : Instruction)
    (silent : ∀ content, ¬(watched.isConnected = true ∧ instruction = .request content)) :
    ∃ deeds, watched.Does (watched.perform instruction).2 deeds ∧
      ∀ bytes, Deed.sent bytes ∉ deeds := by
  cases instruction with
  | connect host port =>
    rw [perform_connect_snd]
    obtain ⟨dialled, deeds⟩ := watched.does_connect host port
    exact ⟨dialled.map .dialled, deeds, by simp⟩
  | disconnect =>
    refine ⟨_, watched.does_disconnect, ?_⟩
    intro bytes
    split <;> simp
  | help => exact ⟨[], watched.does_nothing, by simp⟩
  | quit =>
    refine ⟨_, watched.does_disconnect, ?_⟩
    intro bytes
    split <;> simp
  | request content =>
    have unconnected : watched.isConnected = false := by
      simpa using silent content
    rw [perform_request_snd, request_of_unconnected unconnected]
    exact ⟨[], watched.does_nothing, by simp⟩

/-! ## Lines -/

theorem does_interpret_of_request (connected : watched.isConnected = true) {content : Request}
    (parsed : Instruction.parse line = .ok (some (.request content))) :
    ∃ rest, watched.Does (watched.interpret line).2 (.sent content.encode :: rest) ∧
      rest ⊆ [.hungUp] := by
  rw [watched.interpret_of_parse parsed, perform_request_snd]
  exact watched.does_request connected content

/-- No other line hands anything over. -/
theorem does_interpret (silent : ∀ content, ¬(watched.isConnected = true ∧
      Instruction.parse line = .ok (some (.request content)))) :
    ∃ deeds, watched.Does (watched.interpret line).2 deeds ∧ ∀ bytes, Deed.sent bytes ∉ deeds := by
  rcases parsed : Instruction.parse line with reason | _ | instruction
  · rw [watched.interpret_of_refused parsed]
    exact ⟨[], watched.does_nothing, by simp⟩
  · rw [watched.interpret_of_nothing parsed]
    exact ⟨[], watched.does_nothing, by simp⟩
  · rw [watched.interpret_of_parse parsed]
    apply watched.does_perform
    rintro content ⟨connected, rfl⟩
    exact silent content ⟨connected, parsed⟩

theorem interpret_of_idle (idle : Token.allBlank line = true ∨
      Instruction.parse line = .ok (some .help) ∨
      ∃ reason, Instruction.parse line = .error reason) :
    (session.interpret line).2 = session := by
  rcases idle with blank | help | ⟨reason, refused⟩
  · exact session.interpret_of_nothing (Instruction.parse_eq_none_iff.mpr blank)
  · rw [session.interpret_of_parse help]
    rfl
  · exact session.interpret_of_refused refused

end Session

namespace Shell

variable {ν : Type} [Network ν]

/-- The shell on the network itself. -/
def unwatched {ν : Type} (shell : Shell (Watched ν)) : Shell ν :=
  { session := shell.session.unwatched, out := shell.out }

theorem execute_unwatched (shell : Shell (Watched ν)) (line : Bytes) :
    shell.unwatched.execute line =
      ((shell.execute line).1, (shell.execute line).2.unwatched) := by
  have same : shell.unwatched.session.interpret line = _ := shell.session.interpret_unwatched line
  unfold execute
  rw [same]
  rcases shell.session.interpret line with ⟨_ | text | _, session⟩ <;> rfl

theorem session_execute (shell : Shell ν) (line : Bytes) :
    (shell.execute line).2.session = (shell.session.interpret line).2 := by
  unfold execute
  rcases shell.session.interpret line with ⟨_ | text | _, session⟩ <;> rfl

/-- A line that is a request hands its own bytes over to be sent, on the connection that is open
when the line comes, and no other line hands over any; nor does a request without a connection.
Lines that are blank, not understood or ask for help leave the session as it is; so does a verb that
needs a connection where there is none, which is told so whatever follows it. -/
theorem execute_sends (shell : Shell (Watched ν)) (line : Bytes) :
    let told := shell.execute line
    shell.unwatched.execute line = (told.1, told.2.unwatched) ∧
    (∀ content, shell.session.isConnected = true →
      Instruction.parse line = .ok (some (.request content)) →
        ∃ rest, shell.session.Does told.2.session (.sent content.encode :: rest) ∧
          rest ⊆ [.hungUp]) ∧
    ((∀ content, ¬(shell.session.isConnected = true ∧
        Instruction.parse line = .ok (some (.request content)))) →
      ∃ deeds, shell.session.Does told.2.session deeds ∧ ∀ bytes, .sent bytes ∉ deeds) ∧
    (Token.allBlank line = true ∨ Instruction.parse line = .ok (some .help) ∨
        (∃ reason, Instruction.parse line = .error reason) →
      told.2.session = shell.session) ∧
    ∀ verb ∈ [Verb.create, .read, .update, .delete],
      Verb.parse? (Instruction.splitVerb line).1 = some verb →
      shell.session.isConnected = false →
        let (sent, out) := shell.out.send (Utf8.encode "ERR not connected\n")
        told = (printing .goOn sent, { shell with out }) := by
  intro told
  have session : told.2.session = (shell.session.interpret line).2 := shell.session_execute line
  rw [session]
  refine ⟨shell.execute_unwatched line, ?_, ?_, ?_, ?_⟩
  · intro content connected parsed
    exact shell.session.does_interpret_of_request connected parsed
  · intro silent
    exact shell.session.does_interpret silent
  · intro idle
    exact shell.session.interpret_of_idle idle
  · intro verb mem known unconnected
    have all : ∀ verb ∈ [Verb.create, .read, .update, .delete], verb.needsServer = true := by decide
    have needs := all verb mem
    have refused := shell.session.interpret_of_unready known needs unconnected
    have text : Outcome.error .notConnected = .print (Utf8.encode "ERR not connected\n") := by
      decide +kernel
    simp only [told, execute, refused, text]

/-- The size that a line announces decides whether anything is sent. -/
theorem execute_sends_of_announced_size :
    let peer : ScriptedPeer :=
      { address := ⟨.loopback, 5000⟩, scripts := [], current := .sends (Utf8.encode "OK\n") }
    let shell : Shell (Watched ScriptedPeer) :=
      { session := { network := ⟨peer, []⟩, link := some ⟨peer.address, .ended⟩ } }
    let short := Utf8.encode "create 7 3 hello\n"
    let whole := Utf8.encode "create 7 5 hello\n"
    (shell.execute short).2.session = shell.session ∧
      ∃ rest, shell.session.Does (shell.execute whole).2.session
        (.sent (Utf8.encode "CREATE 7 5\nhello") :: rest) := by
  intro peer shell short whole
  constructor
  · obtain ⟨-, -, -, unchanged, -⟩ := execute_sends shell short
    exact unchanged (.inr (.inr ⟨.sizeMismatch 3 5, by decide +kernel⟩))
  · obtain ⟨-, sends, -⟩ := execute_sends shell whole
    have parsed : Instruction.parse whole =
        .ok (some (.request (.create 7 (Utf8.encode "hello")))) := by
      decide +kernel
    obtain ⟨rest, does, -⟩ := sends _ rfl parsed
    have frame : (Request.create 7 (Utf8.encode "hello")).encode =
        Utf8.encode "CREATE 7 5\nhello" := by
      decide +kernel
    exact ⟨rest, frame ▸ does⟩

end Shell

end WireStore
