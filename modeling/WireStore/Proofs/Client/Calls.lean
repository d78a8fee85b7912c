import Mathlib.Control.Monad.Basic
import WireStore.Client.Session
import WireStore.Loopback.Scripted
import WireStore.Proofs.Frame.Extent

/-!
# Calls on a session

A program connects, disconnects and makes requests in whatever order it likes,
and the network does as it pleases: it may refuse, fail, fall silent, or deliver
any bytes cut off anywhere. `Session.history` lists what such a series of calls
comes to, and `Step.Lawful` is what each of its steps keeps to: whether there is
a connection after a call can be told from the result of the call and from
whether there was one before.
-/

namespace WireStore

/-- What a program can ask of a session. -/
inductive Call where
  | connect (host : String) (port : UInt16)
  | disconnect
  | request (content : Request)

/-- A call with its result. -/
inductive Called where
  | connect (host : String) (port : UInt16) (result : Except Error Address)
  /-- Says whether there was a connection. -/
  | disconnect (wasOpen : Bool)
  | request (content : Request) (result : Except Error Reply)
  deriving DecidableEq

structure Step (ν : Type) where
  before : Session ν
  called : Called
  after : Session ν

/-- The errors that a request can end with. -/
inductive Session.Reportable : Error → Prop where
  | notConnected : Reportable .notConnected
  | sendFailed (fault : Fault) : Reportable (.sendFailed fault)
  | connectionClosed : Reportable .connectionClosed
  | truncatedValue (expected received : Nat) : Reportable (.truncatedValue expected received)
  | valueTooLarge (size limit : Nat) : Reportable (.valueTooLarge size limit)
  | outOfMemory : Reportable .outOfMemory
  | unexpectedReply (text : String) : Reportable (.unexpectedReply text)

namespace Session

variable {ν : Type} [Network ν]

def make (session : Session ν) : Call → Called × Session ν
  | .connect host port =>
    let (result, after) := session.connect host port
    (.connect host port result, after)
  | .disconnect =>
    let (wasOpen, after) := session.disconnect
    (.disconnect wasOpen, after)
  | .request content =>
    let (result, after) := session.request content
    (.request content result, after)

/-- The steps that a session goes through when calls are made one after another. -/
def history (session : Session ν) : List Call → List (Step ν)
  | [] => []
  | call :: calls =>
    let (called, after) := session.make call
    ⟨session, called, after⟩ :: after.history calls

end Session

namespace Step

variable {ν : Type}

/-- What a call comes to. With a connection no other is opened, and a request ends it exactly by a
transport error; without one nothing is sent. -/
def Keeps (before after : Session ν) : Called → Prop
  | .connect _ _ result =>
    (before.isConnected = true → result = .error .alreadyConnected ∧ after = before) ∧
      (before.isConnected = false →
        (after.isConnected = true ↔ ∃ address, result = .ok address))
  | .disconnect wasOpen => wasOpen = before.isConnected ∧ after.isConnected = false
  | .request _ result =>
    (∀ reason, result = .error reason → Session.Reportable reason) ∧
      (before.isConnected = true →
        (after.isConnected = true ↔
          ¬∃ reason, result = .error reason ∧ reason.isTransport = true)) ∧
      (before.isConnected = false → result = .error .notConnected ∧ after = before)

structure Lawful (step : Step ν) : Prop where
  keeps : Keeps step.before step.after step.called
  peerBefore : step.before.peer?.isSome = step.before.isConnected
  peerAfter : step.after.peer?.isSome = step.after.isConnected

end Step

namespace Reply

variable {alloc : Allocator} {limits : Limits} {size : Nat} {line : Bytes} {source rest : Source}
  {reason : Error}

/-- What a reader of replies can fail with; a fault of the source is passed on as it is. -/
inductive Failure : Error → Prop where
  | io (fault : Fault) : Failure (.io fault)
  | reported {reason : Error} (reportable : Session.Reportable reason) : Failure reason

theorem failure_of_readValue (found : readValue alloc limits size source = (.error reason, rest)) :
    Failure reason := by
  unfold readValue at found
  split at found
  · exact nomatch (Prod.mk.inj found).1
  · cases found
    exact .reported (.valueTooLarge ..)
  · cases found
    exact .reported .outOfMemory
  · cases found
    exact .reported (.truncatedValue ..)
  · cases found
    exact .io _

theorem failure_of_readAfterLine
    (found : readAfterLine alloc limits line source = (.error reason, rest)) :
    Failure reason := by
  unfold readAfterLine at found
  split at found
  · exact nomatch (Prod.mk.inj found).1
  · exact failure_of_readValue found
  · exact nomatch (Prod.mk.inj found).1
  · cases found
    exact .reported (.unexpectedReply _)

theorem failure_of_read (found : read alloc limits source = (.error reason, rest)) :
    Failure reason := by
  unfold read at found
  split at found
  · exact failure_of_readAfterLine found
  · cases found
    exact .reported (.unexpectedReply _)
  · cases found
    exact .reported .connectionClosed
  next failure behind line =>
    obtain ⟨fault, rfl⟩ := Line.fault_of_read line
    cases found
    exact .io fault

end Reply

namespace Session

variable {ν : Type}

theorem isSome_peer? (session : Session ν) : session.peer?.isSome = session.isConnected :=
  Option.isSome_map

theorem reportable_readError {reason : Error} (failure : Reply.Failure reason) :
    Reportable (readError reason) := by
  cases failure with
  | io fault => exact .connectionClosed
  | reported reportable =>
    cases reportable
    all_goals constructor

variable [Network ν] {session after : Session ν} {link : Link} {content : Request}
  {result : Except Error Reply}

/-! ## What a request comes to -/

/-- Once a request has been sent, the connection is kept exactly if the stream can carry another
reply. -/
theorem isConnected_receive (received : session.receive link = (result, after)) :
    (∀ reason, result = .error reason → Reportable reason) ∧
      (after.isConnected = true ↔
        ¬∃ reason, result = .error reason ∧ reason.isTransport = true) := by
  unfold receive at received
  split at received
  next reply rest read =>
    obtain ⟨rfl, rfl⟩ := Prod.mk.inj received
    refine ⟨nofun, fun _ => ?_, fun _ => rfl⟩
    rintro ⟨reason, failed, -⟩
    exact nomatch failed
  next failure rest read =>
    have reportable := reportable_readError (Reply.failure_of_read read)
    unfold fail at received
    split at received
    next broken =>
      obtain ⟨rfl, rfl⟩ := Prod.mk.inj received
      refine ⟨fun reason same => Except.error.inj same ▸ reportable, fun connected => ?_, ?_⟩
      · exact nomatch connected
      · intro kept
        exact absurd ⟨_, rfl, broken⟩ kept
    next whole =>
      obtain ⟨rfl, rfl⟩ := Prod.mk.inj received
      refine ⟨fun reason same => Except.error.inj same ▸ reportable, fun _ => ?_, fun _ => rfl⟩
      rintro ⟨reason, same, broken⟩
      obtain rfl := Except.error.inj same
      exact whole broken

theorem request_of_unconnected (unconnected : session.isConnected = false)
    (content : Request) : session.request content = (.error .notConnected, session) := by
  have unlinked : session.link = none := by simpa [isConnected] using unconnected
  unfold request
  rw [unlinked]

theorem isConnected_request (connected : session.isConnected = true)
    (asked : session.request content = (result, after)) :
    (∀ reason, result = .error reason → Reportable reason) ∧
      (after.isConnected = true ↔
        ¬∃ reason, result = .error reason ∧ reason.isTransport = true) := by
  obtain ⟨link, linked⟩ := Option.isSome_iff_exists.mp connected
  rcases sent : Network.send session.network content.encode with ⟨fault | arrived, network⟩
  next =>
    obtain ⟨rfl, rfl⟩ := Prod.mk.inj ((request_of_unsent session linked sent).symm.trans asked)
    refine ⟨fun reason same => Except.error.inj same ▸ .sendFailed fault, fun still => ?_, ?_⟩
    · exact nomatch still
    · intro kept
      exact absurd ⟨_, rfl, rfl⟩ kept
  next => exact isConnected_receive ((request_of_sent session linked sent).symm.trans asked)

/-! ## What the other calls come to -/

theorem connect_of_connected (connected : session.isConnected = true) (host : String)
    (port : UInt16) : session.connect host port = (.error .alreadyConnected, session) := by
  unfold connect
  rw [if_pos connected]

theorem isConnected_connect (unconnected : session.isConnected = false) (host : String)
    (port : UInt16) :
    (session.connect host port).2.isConnected = true ↔
      ∃ address, (session.connect host port).1 = .ok address := by
  have unlinked : session.link = none := by simpa [isConnected] using unconnected
  unfold connect
  rw [if_neg (by simp [unconnected])]
  simp only
  split
  next link network dialled => exact ⟨fun _ => ⟨link.peer, rfl⟩, fun _ => rfl⟩
  next network refused =>
    constructor
    · intro connected
      rw [isConnected, unlinked] at connected
      exact nomatch connected
    · rintro ⟨address, same⟩
      exact nomatch same

theorem disconnect_eq (session : Session ν) :
    session.disconnect.1 = session.isConnected ∧ session.disconnect.2.isConnected = false := by
  unfold disconnect
  cases linked : session.link with
  | none => simp [isConnected, linked]
  | some link => simp [isConnected, linked]

/-! ## Calls one after another -/

theorem make_keeps (session : Session ν) (call : Call) :
    Step.Keeps session (session.make call).2 (session.make call).1 := by
  cases call with
  | connect host port =>
    constructor
    · intro connected
      have refused := connect_of_connected connected host port
      exact ⟨congrArg Prod.fst refused, congrArg Prod.snd refused⟩
    · intro unconnected
      exact isConnected_connect unconnected host port
  | disconnect => exact disconnect_eq session
  | request content =>
    by_cases connected : session.isConnected = true
    · obtain ⟨reportable, kept⟩ := isConnected_request connected (@rfl _ (session.request content))
      refine ⟨reportable, fun _ => kept, fun unconnected => ?_⟩
      exact nomatch connected.symm.trans unconnected
    · have unconnected : session.isConnected = false := by simpa using connected
      have refused := request_of_unconnected unconnected content
      refine ⟨?_, fun open_ => absurd open_ connected, fun _ => ?_⟩
      · intro reason same
        obtain rfl := Except.error.inj ((congrArg Prod.fst refused).symm.trans same)
        exact .notConnected
      · exact ⟨congrArg Prod.fst refused, congrArg Prod.snd refused⟩

/-- Whatever calls a program makes, and whatever the network makes of them, every step keeps to
the law of a session. -/
theorem history_lawful (session : Session ν) (calls : List Call) :
    ∀ step ∈ session.history calls, step.Lawful := by
  induction calls generalizing session with
  | nil =>
    intro step mem
    exact absurd mem List.not_mem_nil
  | cons call calls ih =>
    intro step mem
    rcases List.mem_cons.mp mem with rfl | later
    · exact ⟨make_keeps session call, isSome_peer? _, isSome_peer? _⟩
    · exact ih (session.make call).2 step later

/-- A second call to connect, a value that is cut short, and a request after it. -/
theorem history_lawful_of_truncated_value :
    let address : Address := ⟨.loopback, 5000⟩
    let peer : ScriptedPeer := { address, scripts := [.sends (Utf8.encode "OK 5\nab")] }
    let connect : Call := .connect "127.0.0.1" 5000
    let request : Call := .request (.read 7)
    let steps := history { network := peer } [connect, connect, request, request, .disconnect]
    steps.map Step.called =
        [.connect "127.0.0.1" 5000 (.ok address),
          .connect "127.0.0.1" 5000 (.error .alreadyConnected),
          .request (.read 7) (.error (.truncatedValue 5 2)),
          .request (.read 7) (.error .notConnected), .disconnect false] ∧
      steps.map (fun step => step.after.isConnected) = [true, true, false, false, false] ∧
      ∃ step ∈ steps, step.called = .request (.read 7) (.error (.truncatedValue 5 2)) ∧
        step.Lawful := by
  intro address peer connect request steps
  have results : steps.map Step.called =
      [.connect "127.0.0.1" 5000 (.ok address),
        .connect "127.0.0.1" 5000 (.error .alreadyConnected),
        .request (.read 7) (.error (.truncatedValue 5 2)),
        .request (.read 7) (.error .notConnected), .disconnect false] := by
    decide +kernel
  have third : Called.request (.read 7) (.error (.truncatedValue 5 2)) ∈
      steps.map Step.called := by
    rw [results]
    simp
  obtain ⟨step, mem, called⟩ := List.mem_map.mp third
  exact ⟨results, by decide +kernel, step, mem, called, history_lawful _ _ step mem⟩

end Session

end WireStore
