import WireStore.Proofs.Frame.RoundTrip
import WireStore.Proofs.Server.Turns
import WireStore.Server.Listener

/-!
# What a server writes can be read

Clients may send what they like and leave when they like: a server keeps no value beyond its limit,
and writes nothing but replies that a client with the same limit takes for what they are. The two go
together, for a reply with a value is as long as that value. `Move.next_proper` is one move of a
server in any store whose values are within the limit; a connection, and a listener with all its
callers, are rows of such moves (`serve_reachable`, `Listener.orderly_run`).

Twenty-six octets hold every header line that a server writes, the longest of which tells a client
that a payload was cut short.
-/

namespace WireStore

/-- The errors that a server tells its clients. -/
inductive Error.Told : Error → Prop where
  | keyExists : Told .keyExists
  | keyNotFound : Told .keyNotFound
  | emptyUpdate : Told .emptyUpdate
  | outOfMemory : Told .outOfMemory
  | malformed : Told .malformed
  | unknownCommand : Told .unknownCommand
  | prematureEnd (expected received : Nat) : Told (.prematureEnd expected received)

/-- Holds of the replies of a server that keeps no value longer than `maxSize`. -/
inductive Reply.Issued (maxSize : Nat) : Reply → Prop where
  | ok : Issued maxSize .ok
  | value (content : Bytes) (kept : content.length ≤ maxSize) : Issued maxSize (.value content)
  | ofError {reason : Error} (told : reason.Told) : Issued maxSize (.ofError reason)

namespace Store

/-- Holds of stores with no value longer than `maxSize`. -/
def Within (maxSize : Nat) (store : Store) : Prop :=
  ∀ key value, store.find? key = some value → value.length ≤ maxSize

/-- The stores that servers come to which begin with the store `origin`, whatever they read on
whichever connection, and whatever memory there is. -/
inductive Reachable (limits : Limits) (origin : Store) : Store → Prop where
  | origin : Reachable limits origin origin
  | answered {alloc : Allocator} {store changed : Store} {source rest : Source} {reply : Reply}
    (reached : Reachable limits origin store)
    (next : Move.next alloc limits store source = (.answer reply changed, rest)) :
    Reachable limits origin changed

end Store

def Incoming.Admitted (maxSize : Nat) : Incoming → Prop
  | .request content => content.size ≤ maxSize
  | .rejected reason => reason.Told
  | .ended => True

def Move.Proper (maxSize : Nat) : Move → Prop
  | .answer reply store => reply.Issued maxSize ∧ store.Within maxSize
  | .stop farewell _ => ∀ reply, farewell = some reply → reply.Issued maxSize

variable {alloc : Allocator} {limits : Limits} {maxSize : Nat} {origin store changed : Store}
  {source rest : Source} {sink : Sink} {reply : Reply} {replies : List Reply} {request : Request}

/-! ## One frame -/

/-- A value that is kept or given back was within the limit before. -/
theorem Request.effect_issued {bound : Option Bytes} (alloc : Allocator)
    (sized : request.size ≤ maxSize) (short : ∀ value, bound = some value → value.length ≤ maxSize) :
    (request.effect alloc bound).1.Issued maxSize ∧
      ∀ value, (request.effect alloc bound).2 = some value → value.length ≤ maxSize := by
  cases request with
  | create key value =>
    cases bound with
    | none =>
      cases room : alloc value.length with
      | true =>
        simp only [effect, room, if_true, Option.some.injEq, forall_eq']
        exact ⟨.ok, sized⟩
      | false =>
        simp only [effect, room, Bool.false_eq_true, if_false]
        exact ⟨.ofError .outOfMemory, short⟩
    | some old => exact ⟨.ofError .keyExists, short⟩
  | update key value =>
    by_cases empty : value = []
    · simp only [effect, empty, if_true]
      exact ⟨.ofError .emptyUpdate, short⟩
    · cases bound with
      | none =>
        simp only [effect, empty, if_false]
        exact ⟨.ofError .keyNotFound, short⟩
      | some old =>
        cases room : alloc value.length with
        | true =>
          simp only [effect, empty, room, if_true, if_false, Option.some.injEq, forall_eq']
          exact ⟨.ok, sized⟩
        | false =>
          simp only [effect, empty, room, Bool.false_eq_true, if_false]
          exact ⟨.ofError .outOfMemory, short⟩
  | read key =>
    cases bound with
    | none => exact ⟨.ofError .keyNotFound, short⟩
    | some value => exact ⟨.value value (short value rfl), short⟩
  | delete key =>
    cases bound with
    | none => exact ⟨.ofError .keyNotFound, short⟩
    | some old =>
      refine ⟨.ok, fun value still => ?_⟩
      cases still

theorem Store.execute_issued (alloc : Allocator) (within : store.Within maxSize)
    (sized : request.size ≤ maxSize) :
    (store.execute alloc request).1.Issued maxSize ∧
      (store.execute alloc request).2.Within maxSize := by
  obtain ⟨reply, bindings⟩ := execute_eq_effect alloc store request
  obtain ⟨issued, short⟩ := request.effect_issued alloc sized (within request.key)
  refine ⟨reply ▸ issued, fun key value found => ?_⟩
  rw [bindings] at found
  by_cases here : key = request.key
  · rw [here, Bindings.set_same] at found
    exact short value found
  · rw [Bindings.set_of_ne here] at found
    exact within key value found

namespace Incoming

variable {header : Header} {found : Incoming}

theorem size_ofHeader_le (header : Header) (value : Bytes) :
    (Request.ofHeader header value).size ≤ value.length := by
  unfold Request.ofHeader
  cases header.method
  · exact Nat.le_refl _
  · exact Nat.le_refl _
  · exact Nat.zero_le _
  · exact Nat.zero_le _

theorem admitted_of_readPayload
    (read : readPayload alloc limits header source = (.ok found, rest)) :
    found.Admitted limits.maxValueSize := by
  unfold readPayload at read
  rw [Payload.read_eq] at read
  rcases arrived : Payload.keep header.size source with ⟨_ | value, behind⟩
  · rename_i shortfall
    cases shortfall <;> simp [arrived, Except.map] at read
  have length := Payload.length_of_keep arrived
  simp only [arrived, Except.map, Payload.judge] at read
  by_cases large : limits.maxValueSize < header.size
  · simp only [large, if_true, Prod.mk.injEq, Except.ok.injEq] at read
    obtain ⟨rfl, -⟩ := read
    exact .malformed
  · cases room : alloc header.size with
    | true =>
      simp only [large, room, if_false, if_true, Prod.mk.injEq, Except.ok.injEq] at read
      obtain ⟨rfl, -⟩ := read
      exact Nat.le_trans (size_ofHeader_le header value) (by omega)
    | false =>
      simp only [large, room, Bool.false_eq_true, if_false, Prod.mk.injEq, Except.ok.injEq] at read
      obtain ⟨rfl, -⟩ := read
      exact .outOfMemory

theorem admitted_of_readAfterLine {content : Bytes}
    (read : readAfterLine alloc limits content source = (.ok found, rest)) :
    found.Admitted limits.maxValueSize := by
  unfold readAfterLine at read
  split at read
  next reason refused =>
    cases read
    rcases Opening.reason_of_parse refused with rfl | rfl
    · exact .malformed
    · exact .unknownCommand
  next header parsed =>
    split at read
    · cases read
      exact .emptyUpdate
    · split at read
      · exact admitted_of_readPayload read
      · cases read
        exact Nat.le_trans (size_ofHeader_le header []) (Nat.zero_le _)

/-- No request that a server reads carries more than the limit allows. -/
theorem admitted_of_read (read : Incoming.read alloc limits source = (.ok found, rest)) :
    found.Admitted limits.maxValueSize := by
  unfold Incoming.read at read
  split at read
  · exact admitted_of_readAfterLine read
  · cases read
    exact .malformed
  · cases read
    trivial
  · cases read

end Incoming

namespace Move

theorem next_proper (alloc : Allocator) (source : Source)
    (within : store.Within limits.maxValueSize) :
    (next alloc limits store source).1.Proper limits.maxValueSize := by
  unfold next
  rcases read : Incoming.read alloc limits source with ⟨_ | found, rest⟩
  next reason =>
    cases reason with
    | prematureEnd expected received =>
      rintro reply same
      obtain rfl := Option.some.inj same
      exact .ofError (.prematureEnd expected received)
    | _ => exact nofun
  have admitted := Incoming.admitted_of_read read
  cases found with
  | request content => exact Store.execute_issued alloc within admitted
  | rejected reason => exact ⟨.ofError admitted, within⟩
  | ended => exact nofun

theorem issued_of_answer (within : store.Within limits.maxValueSize)
    (answered : next alloc limits store source = (.answer reply changed, rest)) :
    reply.Issued limits.maxValueSize ∧ changed.Within limits.maxValueSize := by
  have proper := next_proper alloc source within
  rw [answered] at proper
  exact proper

theorem issued_of_farewell {result : Except Error Unit}
    (within : store.Within limits.maxValueSize)
    (stopped : next alloc limits store source = (.stop (some reply) result, rest)) :
    reply.Issued limits.maxValueSize := by
  have proper := next_proper alloc source within
  rw [stopped] at proper
  exact proper reply rfl

end Move

/-! ## Many frames -/

theorem Store.Reachable.within (reached : Reachable limits origin store)
    (within : origin.Within limits.maxValueSize) : store.Within limits.maxValueSize := by
  induction reached with
  | origin => exact within
  | answered reached next ih => exact (Move.issued_of_answer ih next).2

/-- Serving a connection goes from one reachable store to another, and every reply on the way is
one that a server issues. -/
theorem serve_reachable (alloc : Allocator) (source : Source) (reliable : sink.Reliable)
    (within : origin.Within limits.maxValueSize)
    (reached : Store.Reachable limits origin store) :
    Store.Reachable limits origin (serve alloc limits store source sink).store ∧
      ∀ reply ∈ (turns alloc limits store source sink.buffered).filterMap Turn.reply,
        reply.Issued limits.maxValueSize := by
  induction size : source.size using Nat.strongRecOn generalizing store source sink with
  | _ size ih =>
    subst size
    have here := reached.within within
    rcases next : Move.next alloc limits store source with ⟨_ | _, rest⟩
    next reply changed =>
      obtain ⟨after, written, afterReliable, -⟩ := reliable.write reply
      obtain ⟨last, later⟩ := ih rest.size (Move.size_next_lt next) rest afterReliable
        (reached.answered next) rfl
      rw [serve_of_answer next written, turns_of_answer next written]
      refine ⟨last, fun other mem => ?_⟩
      rcases List.mem_cons.mp mem with rfl | mem
      · exact (Move.issued_of_answer here next).1
      · exact later other mem
    next farewell result =>
      rw [serve_of_stop next, turns_of_stop next]
      refine ⟨reached, fun other mem => ?_⟩
      cases farewell with
      | none => exact absurd mem List.not_mem_nil
      | some reply =>
        obtain rfl := List.mem_singleton.mp mem
        exact Move.issued_of_farewell here next

namespace Connection

variable {connection : Connection}

theorem answerAll_reachable (within : origin.Within limits.maxValueSize)
    (reached : Store.Reachable limits origin store)
    (issued : ∀ reply ∈ replies, reply.Issued limits.maxValueSize) :
    Store.Reachable limits origin (answerAll alloc limits store source replies).2.2 ∧
      ∀ reply ∈ (answerAll alloc limits store source replies).1,
        reply.Issued limits.maxValueSize := by
  induction size : source.size using Nat.strongRecOn generalizing store source replies with
  | _ size ih =>
    subst size
    rcases next : Move.next alloc limits store source with ⟨_ | _, rest⟩
    next reply changed =>
      rw [answerAll_of_answer next]
      refine ih rest.size (Move.size_next_lt next) (reached.answered next) (fun other mem => ?_) rfl
      rcases List.mem_cons.mp mem with rfl | earlier
      · exact (Move.issued_of_answer (reached.within within) next).1
      · exact issued other earlier
    next farewell result =>
      rw [answerAll]
      split
      · exact ⟨reached, issued⟩
      next next' => cases next.symm.trans next'

theorem advance_reachable (alloc : Allocator) (within : origin.Within limits.maxValueSize)
    (reached : Store.Reachable limits origin store)
    (issued : ∀ reply ∈ connection.replies, reply.Issued limits.maxValueSize) :
    Store.Reachable limits origin (advance alloc limits store connection).2 ∧
      ∀ reply ∈ (advance alloc limits store connection).1.replies,
        reply.Issued limits.maxValueSize :=
  answerAll_reachable within reached issued

theorem close_issued (within : store.Within limits.maxValueSize)
    (issued : ∀ reply ∈ connection.replies, reply.Issued limits.maxValueSize) :
    ∀ reply ∈ (close alloc limits store connection).replies,
      reply.Issued limits.maxValueSize := by
  unfold close
  rcases next : Move.next alloc limits store (.ofBytes connection.pending) with ⟨_ | _, rest⟩
  · exact issued
  next farewell result =>
    cases farewell with
    | none => exact issued
    | some farewell =>
      intro reply mem
      rcases List.mem_cons.mp mem with rfl | earlier
      · exact Move.issued_of_farewell within next
      · exact issued reply earlier

end Connection

namespace Listener

variable {listener after : Listener} {event : Event} {number : Nat} {caller : Caller}

/-- Holds of a listener whose store can be reached, and which has issued all its replies. -/
structure Orderly (limits : Limits) (origin : Store) (listener : Listener) : Prop where
  settings : listener.limits = limits
  store : Store.Reachable limits origin listener.store
  replies : ∀ caller ∈ listener.callers, ∀ reply ∈ caller.connection.replies,
    reply.Issued limits.maxValueSize

theorem Orderly.enqueue (orderly : Orderly limits origin listener) (ended : Bool) :
    Orderly limits origin (listener.enqueue { ended }) := by
  refine ⟨orderly.settings, orderly.store, fun caller mem => ?_⟩
  rcases List.mem_append.mp mem with known | new
  · exact orderly.replies caller known
  · obtain rfl := List.mem_singleton.mp new
    exact nofun

/-- What becomes of one caller does not touch the replies to the others. -/
theorem Orderly.modify {change : Caller → Caller} (orderly : Orderly limits origin listener)
    (store : Store.Reachable limits origin after.store) (same : after.limits = listener.limits)
    (callers : after.callers = listener.callers.modify number change)
    (issued : ∀ caller, listener.callers[number]? = some caller →
      ∀ reply ∈ (change caller).connection.replies, reply.Issued limits.maxValueSize) :
    Orderly limits origin after := by
  refine ⟨same.trans orderly.settings, store, fun caller mem => ?_⟩
  rw [callers] at mem
  obtain ⟨place, here⟩ := List.mem_iff_getElem?.mp mem
  rw [List.getElem?_modify] at here
  obtain ⟨old, known, rfl⟩ := Option.map_eq_some_iff.mp here
  split
  next changed =>
    subst changed
    exact issued old known
  · exact orderly.replies old (List.mem_of_getElem? known)

theorem Orderly.take (orderly : Orderly limits origin listener)
    (within : origin.Within limits.maxValueSize) (known : listener.callers[number]? = some caller) :
    Orderly limits origin (listener.take number caller) := by
  have issued := orderly.replies caller (List.mem_of_getElem? known)
  obtain ⟨reached, answered⟩ := Connection.advance_reachable listener.alloc within
    orderly.store issued
  unfold Listener.take
  rw [orderly.settings]
  simp only
  split
  · refine orderly.modify reached orderly.settings.symm rfl fun _ _ => ?_
    exact Connection.close_issued (reached.within within) answered
  · exact orderly.modify reached orderly.settings.symm rfl fun _ _ => answered

theorem Orderly.step (orderly : Orderly limits origin listener)
    (within : origin.Within limits.maxValueSize) (happened : listener.step event = some after) :
    Orderly limits origin after := by
  have issued {number : Nat} (caller : Caller) (known : listener.callers[number]? = some caller) :=
    orderly.replies caller (List.mem_of_getElem? known)
  cases stepped_of_step happened with
  | call => exact orderly.enqueue false
  | send | hangUp => exact orderly.modify orderly.store rfl rfl issued
  | accept | acceptFails | decide | raiseFlag =>
    exact ⟨orderly.settings, orderly.store, orderly.replies⟩
  | consume phase known => exact orderly.take within known
  | wake => exact orderly.enqueue true
  | wakeInVain => exact orderly

/-- However callers behave and events are interleaved, a listener stays orderly. -/
theorem orderly_run {events : List Event} {last : Listener}
    (orderly : Orderly limits origin listener) (within : origin.Within limits.maxValueSize)
    (ran : listener.run events = some last) : Orderly limits origin last := by
  apply run_keeps _ orderly ran
  exact fun orderly happened => orderly.step within happened

theorem orderly_start {config : Config} (started : start config origin alloc = .ok listener) :
    Orderly config.limits origin listener := by
  obtain ⟨-, rfl⟩ := start_eq_ok_iff.mp started
  exact ⟨rfl, .origin, nofun⟩

end Listener

/-! ## What a client reads -/

namespace Reply

/-- Holds of bytes from which every client that admits values of `maxSize` octets, and header lines
of twenty-six, reads these replies one by one, and then finds the end. -/
def ReadFrom (maxSize : Nat) (bytes : Bytes) (replies : List Reply) : Prop :=
  ∀ (alloc : Allocator) (limits : Limits) (source : Source) (further : Nat),
    limits.maxValueSize = maxSize → 26 ≤ limits.maxHeaderLength →
    (∀ content, .value content ∈ replies → alloc content.length = true) →
    source.signals = Signal.octets bytes →
    (Reader.outcomes (read alloc limits) goesOn (replies.length + (further + 1)) source).map
        Prod.fst =
      replies.map .ok ++ [.error .connectionClosed]

theorem length_header_of_told {reason : Error} (told : reason.Told) :
    (ofError reason).header.length ≤ 26 := by
  cases told with
  | prematureEnd expected received =>
    have longest : (error (flatten "premature EOF on value")).header.length ≤ 26 := by decide
    exact longest
  | _ => decide

theorem Issued.length_header_le (issued : reply.Issued maxSize)
    (sized : maxSize < Numeral.sizeBound) : reply.header.length ≤ 26 := by
  cases issued with
  | ok => decide
  | value content kept =>
    have bound : Numeral.sizeBound = 18446744073709551616 := rfl
    have digits := Numeral.length_digits_le content.length 19 (by omega)
    have word : okWord.length = 2 := by decide
    simp only [header, List.length_append, List.length_cons, word]
    omega
  | ofError told => exact length_header_of_told told

theorem Issued.legible (issued : reply.Issued maxSize) (sized : maxSize < Numeral.sizeBound)
    (same : limits.maxValueSize = maxSize) : reply.Legible limits := by
  cases issued with
  | ok => exact .ok
  | value content kept => exact .value content (same ▸ kept) (Nat.lt_of_le_of_lt kept sized)
  | ofError told => exact .ofError _

theorem readFrom_of_issued (sized : maxSize < Numeral.sizeBound)
    (issued : ∀ reply ∈ replies, reply.Issued maxSize) :
    ReadFrom maxSize (replies.flatMap encode) replies := by
  intro alloc limits source further same header memory arrives
  refine outcomes_to_end further (fun reply mem => ?_) arrives
  have fits := Nat.le_trans ((issued reply mem).length_header_le sized) header
  refine ((issued reply mem).legible sized same).takes fits fun content carried => ?_
  exact memory content (carried ▸ mem)

end Reply

/-- Nothing that clients send keeps others from being served. If a server begins with values within
its limit, then whatever is sent to it, on however many connections and wherever these break off,
all values in its store stay within the limit, and what it writes on a connection is read by every
client with the same limit as the replies that were written, one by one, up to the end. It does not
matter whether the connections are served from one end to the other, or by a listener at which
callers come and go. -/
theorem written_readFrom {config : Config} (sized : config.limits.maxValueSize < Numeral.sizeBound)
    (within : ∀ key value,
      origin.find? key = some value → value.length ≤ config.limits.maxValueSize) :
    (∀ store, Store.Reachable config.limits origin store →
      (∀ key value, store.find? key = some value → value.length ≤ config.limits.maxValueSize) ∧
      ∀ alloc source sink, sink.Reliable → sink.written = [] →
        let served := serve alloc config.limits store source sink
        Store.Reachable config.limits origin served.store ∧
          Reply.ReadFrom config.limits.maxValueSize served.sink.written
            ((turns alloc config.limits store source sink.buffered).filterMap Turn.reply)) ∧
    ∀ alloc listener events last,
      Listener.start config origin alloc = .ok listener → listener.run events = some last →
      Store.Reachable config.limits origin last.store ∧
        ∀ number connection, last.connection? number = some connection →
          Reply.ReadFrom config.limits.maxValueSize connection.output
            connection.replies.reverse := by
  refine ⟨fun store reached => ⟨reached.within within, ?_⟩, ?_⟩
  · intro alloc source sink reliable fresh served
    obtain ⟨last, issued⟩ := serve_reachable alloc source reliable within reached
    have written := written_serve_eq_turns alloc config.limits store source reliable
    rw [fresh, List.nil_append] at written
    refine ⟨last, ?_⟩
    rw [written]
    exact Reply.readFrom_of_issued sized issued
  · intro alloc listener events last started ran
    have orderly := Listener.orderly_run (Listener.orderly_start started) within ran
    refine ⟨orderly.store, fun number connection known => ?_⟩
    obtain ⟨caller, here, rfl⟩ := Option.map_eq_some_iff.mp known
    have issued := orderly.replies caller (List.mem_of_getElem? here)
    refine Reply.readFrom_of_issued sized fun reply mem => ?_
    exact issued reply (List.mem_reverse.mp mem)

/-- A value beyond the limit, a header line beyond it that is sent in two parts, and an end inside a
payload; read by a client that has just enough room. -/
theorem written_readFrom_of_hostile_client :
    let config : Config := { limits := { maxValueSize := 2, maxHeaderLength := 12 } }
    let origin : Store := ⟨[(1, [97, 98])], by decide⟩
    let source : Source :=
      .chunk (Utf8.encode "READ 1\nCREATE 2 3\nabcUPDATE 1 18446744")
        (.fault ⟨.interrupted, "again"⟩ (.chunk (Utf8.encode "073\nREAD 1\nCREATE 3 2\nx") .ended))
    let served := serve .unlimited config.limits origin source {}
    let client : Limits := { maxValueSize := 2, maxHeaderLength := 26 }
    (Reader.outcomes (Reply.read .unlimited client) Reply.goesOn 6
        (.ofBytes served.sink.written)).map Prod.fst =
      [.ok (.value [97, 98]), .ok (.error "malformed command"), .ok (.error "malformed command"),
        .ok (.value [97, 98]), .ok (.error "premature EOF on value"),
        .error .connectionClosed] := by
  intro config origin source served client
  have within : ∀ key value,
      origin.find? key = some value → value.length ≤ config.limits.maxValueSize := by
    intro key value found
    obtain ⟨entry, mem, rfl⟩ := Option.map_eq_some_iff.mp found
    obtain rfl := List.mem_singleton.mp (List.mem_of_find?_eq_some mem)
    decide
  obtain ⟨reached, -⟩ := @written_readFrom origin config (by decide) within
  obtain ⟨-, serves⟩ := reached origin .origin
  obtain ⟨-, reads⟩ := serves .unlimited source {} ⟨rfl, nofun, rfl⟩ rfl
  have said :
      (turns .unlimited config.limits origin source (Sink.buffered {})).filterMap Turn.reply =
      [.value [97, 98], .error "malformed command", .error "malformed command", .value [97, 98],
        .error "premature EOF on value"] := by
    decide +kernel
  rw [said] at reads
  have memory : ∀ content, .value content ∈ [Reply.value [97, 98], .error "malformed command",
      .error "malformed command", .value [97, 98], .error "premature EOF on value"] →
      Allocator.unlimited content.length = true := by
    intro content mem
    obtain rfl : content = [97, 98] := by simpa using mem
    decide
  exact reads .unlimited client _ 0 rfl (by decide) memory (List.append_nil _)

end WireStore
