import WireStore.Proofs.Server.Interleaving
import WireStore.Proofs.Server.Pieces

/-!
# Callers served to their ends

Whatever happens at a listener, requests to stop included, it serves its callers one after another,
and each to its own end: a caller with whom it is done has ended its side, and has been replied to
as if all that it sent had been served at once, from the store that those before it left
(`exists_finished`). `Stands` says where a listener is in this, with the numbers of those who were
accepted and of those who came to be served; every event keeps it up (`Stands.step`). Nothing is
asked of the memory of the server.
-/

namespace WireStore.Listener

open Connection

/-- The caller whom a listener has just begun to serve after an event. -/
def begins (after : Listener) : Event → List Nat
  | .decide =>
    match after.phase with
    | .serving number => [number]
    | _ => []
  | _ => []

/-- The callers whom a listener begins to serve in a run of events, in the order in which it
does. -/
def served (listener : Listener) : List Event → List Nat
  | [] => []
  | event :: events =>
    match listener.step event with
    | some after => after.begins event ++ after.served events
    | none => []

/-- Holds of a listener that is done with all callers below `number`: they have ended, and their
replies and the store they left are those of their streams one after another. -/
structure Done (origin : Listener) (streams : Nat → Bytes) (number : Nat) (store : Store)
    (listener : Listener) : Prop where
  through : listener.Through (List.range number)
  outputs :
    (List.range number).map (fun caller => (listener.connection? caller).map Connection.output) =
      (serveInTurn origin.alloc origin.limits origin.store
        ((List.range number).map streams)).1.map some
  store : store =
    (serveInTurn origin.alloc origin.limits origin.store ((List.range number).map streams)).2

/-- Holds of a listener that has begun to serve some callers, in order, and is done with all of them
but one that it may be serving still. -/
inductive Attends (listener : Listener) : List Nat → List Nat → Prop
  | between {finished : List Nat} (phase : ∀ caller, listener.phase ≠ .serving caller) :
    Attends listener finished finished
  | amid {finished : List Nat} {current : Nat} (phase : listener.phase = .serving current) :
    Attends listener (finished ++ [current]) finished

/-- Where a listener stands that has accepted and has begun to serve so many callers. -/
inductive Stands (origin : Listener) (streams : Nat → Bytes) (listener : Listener) :
    Nat → Nat → Prop
  | idle {number : Nat} (phase : listener.phase = .listening)
    (line : Line origin streams number number listener)
    (done : Done origin streams number listener.store listener) :
    Stands origin streams listener number number
  | checking {number : Nat} (phase : listener.phase = .accepted number)
    (line : Line origin streams (number + 1) number listener)
    (done : Done origin streams number listener.store listener) :
    Stands origin streams listener (number + 1) number
  | serving {number : Nat} {before : Store} {connection : Connection}
    (phase : listener.phase = .serving number)
    (line : Line origin streams (number + 1) (number + 1) listener)
    (done : Done origin streams number before listener)
    (known : listener.connection? number = some connection)
    (resumes : Resumes listener.alloc listener.limits before (streams number) connection
      listener.store) :
    Stands origin streams listener (number + 1) (number + 1)
  | stopped {next number : Nat} (phase : listener.phase = .stopped) (upTo : number ≤ next)
    (line : Line origin streams next number listener)
    (done : Done origin streams number listener.store listener) :
    Stands origin streams listener next number

variable {origin listener after last : Listener} {streams later : Nat → Bytes}
  {number next caller : Nat} {entry : Caller} {event : Event} {events : List Event}
  {config : Config} {alloc : Allocator} {store before : Store} {connection : Connection}

theorem serveInTurn_concat (alloc : Allocator) (limits : Limits) (store : Store)
    (streams : List Bytes) (stream : Bytes) :
    let inTurn := serveInTurn alloc limits store streams
    let served := serve alloc limits inTurn.2 (.ofBytes stream) {}
    serveInTurn alloc limits store (streams ++ [stream]) =
      (inTurn.1 ++ [served.sink.written], served.store) := by
  intro inTurn served
  rw [serveInTurn_append]
  rfl

namespace Done

/-- What happens to other callers, and what they send, does not matter to those who are done. -/
theorem congr (done : Done origin streams number store listener)
    (kept : ∀ caller < number, after.callers[caller]? = listener.callers[caller]?)
    (same : ∀ caller < number, later caller = streams caller) :
    Done origin later number store after := by
  have streams : (List.range number).map later = (List.range number).map streams :=
    List.map_congr_left fun caller mem => same caller (List.mem_range.mp mem)
  refine ⟨fun caller mem => ?_, ?_, ?_⟩
  · rw [kept caller (List.mem_range.mp mem)]
    exact done.through caller mem
  · rw [streams, ← done.outputs]
    refine List.map_congr_left fun caller mem => ?_
    rw [connection?, kept caller (List.mem_range.mp mem), connection?]
  · rw [streams]
    exact done.store

theorem of_same (done : Done origin streams number store listener)
    (callers : after.callers = listener.callers) : Done origin streams number store after :=
  done.congr (fun _ _ => by rw [callers]) fun _ _ => rfl

theorem ended (done : Done origin streams number store listener) (below : caller < number)
    (known : listener.callers[caller]? = some entry) : entry.ended = true := by
  have through := done.through caller (List.mem_range.mpr below)
  rw [known] at through
  exact Option.some.inj through

/-- A caller that was served as if its stream had come at once joins those who are done. -/
theorem concat (done : Done origin streams number before listener)
    (known : listener.callers[number]? = some ⟨connection, true⟩)
    (whole : let served := serve origin.alloc origin.limits before (.ofBytes (streams number)) {}
      served.store = store ∧ served.sink.written = connection.output) :
    Done origin streams (number + 1) store listener := by
  obtain ⟨stored, written⟩ := whole
  rw [done.store] at stored written
  have here : (listener.connection? number).map Connection.output = some connection.output := by
    rw [connection?, known]
    rfl
  refine ⟨fun caller mem => ?_, ?_, ?_⟩
  · rcases Nat.lt_succ_iff_lt_or_eq.mp (List.mem_range.mp mem) with earlier | rfl
    · exact done.through caller (List.mem_range.mpr earlier)
    · rw [known]
      rfl
  · rw [List.range_succ, List.map_append, List.map_append, List.map_singleton, List.map_singleton,
      serveInTurn_concat, done.outputs, here, written, List.map_append, List.map_singleton]
  · rw [List.range_succ, List.map_append, List.map_singleton, serveInTurn_concat, stored]

end Done

namespace Stands

theorem of_enqueue (stands : Stands origin streams listener next number) (ended : Bool) :
    Stands origin streams (listener.enqueue { ended }) next number := by
  have kept {store : Store} {count : Nat} (line : Line origin streams next number listener)
      (upTo : count ≤ next) (done : Done origin streams count store listener) :
      Done origin streams count store (listener.enqueue { ended }) := by
    have inside := line.le_length
    refine done.congr (fun caller below => ?_) fun _ _ => rfl
    exact List.getElem?_append_left (by omega)
  cases stands with
  | idle phase line done => exact .idle phase (line.enqueue ended) (kept line (Nat.le_refl _) done)
  | checking phase line done =>
    exact .checking phase (line.enqueue ended) (kept line (Nat.le_succ _) done)
  | @serving number before connection phase line done known resumes =>
    obtain ⟨entry, here, rfl⟩ := Option.map_eq_some_iff.mp known
    obtain ⟨inside, -⟩ := List.getElem?_eq_some_iff.mp here
    refine .serving phase (line.enqueue ended) (kept line (Nat.le_succ _) done) ?_ resumes
    exact Option.map_eq_some_iff.mpr ⟨entry, (List.getElem?_append_left inside).trans here, rfl⟩
  | stopped phase upTo line done =>
    exact .stopped phase upTo (line.enqueue ended) (kept line upTo done)

theorem of_modify {change : Caller → Caller} {more : Bytes}
    (stands : Stands origin streams listener next number)
    (known : listener.callers[caller]? = some entry) (sending : entry.ended = false)
    (adds : ∀ entry, (change entry).connection =
      { entry.connection with pending := entry.connection.pending ++ more })
    (grown : ∀ other, later other = streams other ++ if caller = other then more else []) :
    Stands origin later (listener.modifyCaller caller change) next number := by
  -- A caller who may still send is none of those who are done.
  have kept {store : Store} {count : Nat} (done : Done origin streams count store listener) :
      Done origin later count store (listener.modifyCaller caller change) := by
    have remaining : count ≤ caller := by
      refine Nat.le_of_not_lt fun below => ?_
      exact nomatch (done.ended below known).symm.trans sending
    refine done.congr (fun other below => ?_) fun other below => ?_
    · exact List.getElem?_modify_ne _ _ (by omega)
    · rw [grown, if_neg (by omega), List.append_nil]
  cases stands with
  | idle phase line done => exact .idle phase (line.modify known adds grown) (kept done)
  | checking phase line done => exact .checking phase (line.modify known adds grown) (kept done)
  | @serving number before connection phase line done here resumes =>
    have line := line.modify known adds grown
    by_cases same : caller = number
    · subst same
      have changed : (listener.modifyCaller caller change).connection? caller =
          some { connection with pending := connection.pending ++ more } := by
        rw [connection?, known] at here
        obtain rfl := Option.some.inj here
        rw [connection?, modifyCaller, List.getElem?_modify_eq, known]
        exact congrArg some (adds entry)
      have arrives := resumes.arrive more
      exact .serving phase line (kept done) changed (by rw [grown, if_pos rfl]; exact arrives)
    · have still : (listener.modifyCaller caller change).connection? number = some connection := by
        rw [← here, connection?, connection?, modifyCaller, List.getElem?_modify_ne _ _ same]
      have others : later number = streams number := by
        rw [grown, if_neg same, List.append_nil]
      exact .serving phase line (kept done) still (by rw [others]; exact resumes)
  | stopped phase upTo line done =>
    exact .stopped phase upTo (line.modify known adds grown) (kept done)

theorem of_accept {rest : List Nat} (stands : Stands origin streams listener next number)
    (phase : listener.phase = .listening) (waits : listener.waiting = caller :: rest) :
    Stands origin streams { listener with waiting := rest, phase := .accepted caller }
      (next + 1) number := by
  cases stands with
  | idle _ line done =>
    obtain ⟨rfl, -, behind⟩ := line.first_of_waiting waits
    exact .checking rfl ⟨line.alloc, line.limits, behind, line.untouched, line.silent⟩
      (done.of_same rfl)
  | checking other | serving other | stopped other => exact nomatch phase.symm.trans other

theorem of_acceptFails (stands : Stands origin streams listener next number)
    (phase : listener.phase = .listening) :
    Stands origin streams
      { listener with phase := if listener.stopping then .stopped else .listening }
      next number := by
  cases stands with
  | idle _ line done =>
    by_cases raised : listener.stopping = true
    · exact .stopped (if_pos raised) (Nat.le_refl _) (line.of_same rfl rfl rfl rfl)
        (done.of_same rfl)
    · exact .idle (if_neg raised) (line.of_same rfl rfl rfl rfl) (done.of_same rfl)
  | checking other | serving other | stopped other => exact nomatch phase.symm.trans other

/-- Whoever is turned away has not been begun with; whoever is not is served from where those before
it left the store. -/
theorem of_decide (stands : Stands origin streams listener next number)
    (phase : listener.phase = .accepted caller) :
    caller = number ∧ Stands origin streams { listener with phase := .stopped } next number ∧
      Stands origin streams { listener with phase := .serving caller } next (number + 1) := by
  cases stands with
  | @checking number here line done =>
    obtain rfl := Phase.accepted.inj (phase.symm.trans here)
    refine ⟨rfl, .stopped rfl (Nat.le_succ _) (line.of_same rfl rfl rfl rfl) (done.of_same rfl), ?_⟩
    have known := List.getElem?_eq_getElem line.le_length
    have fresh := line.untouched caller _ (Nat.le_refl _) known
    have begun : listener.connection? caller = some ⟨streams caller, []⟩ :=
      Option.map_eq_some_iff.mpr ⟨_, known, fresh⟩
    have line : Line origin streams (caller + 1) (caller + 1) listener :=
      ⟨line.alloc, line.limits, line.waiting,
        fun other entry beyond => line.untouched other entry (Nat.le_of_succ_le beyond),
        line.silent⟩
    have resumes := resumes_fresh listener.alloc listener.limits listener.store (streams caller)
    exact .serving rfl (line.of_same rfl rfl rfl rfl) (done.of_same rfl) begun resumes
  | idle other | serving other | stopped other => exact nomatch phase.symm.trans other

theorem of_consume (stands : Stands origin streams listener next number)
    (phase : listener.phase = .serving caller)
    (known : listener.callers[caller]? = some entry) :
    Stands origin streams (listener.take caller entry) next number := by
  cases stands with
  | @serving number before connection here line done current resumes =>
    obtain rfl := Phase.serving.inj (phase.symm.trans here)
    rw [connection?, known] at current
    obtain rfl := Option.some.inj current
    obtain ⟨resumes, incomplete⟩ := resumes.advance
    have own (change : Caller → Caller) :
        (listener.callers.modify caller change)[caller]? = some (change entry) := by
      rw [List.getElem?_modify_eq, known]
      rfl
    have kept (change : Caller → Caller) (store : Store) (phase : Phase) :
        Done origin streams caller before
          { listener with store, phase, callers := listener.callers.modify caller change } :=
      done.congr (fun other below => List.getElem?_modify_ne change _ (by omega)) fun _ _ => rfl
    simp only [take]
    cases ended : entry.ended with
    | false =>
      rw [if_neg Bool.false_ne_true]
      refine .serving here (line.of_current ..) (kept ..) ?_ resumes
      rw [connection?, own]
      rfl
    | true =>
      rw [if_pos rfl]
      refine .idle rfl (line.of_current ..)
        ((kept ..).concat ((own _).trans (by rw [ended])) ?_)
      rw [← line.alloc, ← line.limits]
      exact resumes.close incomplete
  | idle other | checking other | stopped other => cases phase.symm.trans other

/-- Where a listener stands does not depend on its flag. -/
theorem of_raiseFlag (stands : Stands origin streams listener next number) :
    Stands origin streams { listener with stopping := true } next number := by
  cases stands with
  | idle phase line done => exact .idle phase (line.of_same rfl rfl rfl rfl) (done.of_same rfl)
  | checking phase line done =>
    exact .checking phase (line.of_same rfl rfl rfl rfl) (done.of_same rfl)
  | serving phase line done known resumes =>
    exact .serving phase (line.of_same rfl rfl rfl rfl) (done.of_same rfl) known resumes
  | stopped phase upTo line done =>
    exact .stopped phase upTo (line.of_same rfl rfl rfl rfl) (done.of_same rfl)

/-- Whatever happens, a listener goes on serving its callers in turn. -/
theorem step (stands : Stands origin streams listener next number)
    (happened : listener.step event = some after) :
    ∃ accepted begun,
      Stands origin (fun caller => streams caller ++ event.bytesFrom caller) after accepted begun ∧
      List.range begun = List.range number ++ after.begins event := by
  have silent {accepted begun : Nat} (same : Stands origin streams after accepted begun) :
      Stands origin (fun caller => streams caller ++ []) after accepted begun := by
    simpa only [List.append_nil] using same
  have nobody : List.range number = List.range number ++ [] := (List.append_nil _).symm
  cases stepped_of_step happened with
  | call => exact ⟨next, number, silent (stands.of_enqueue false), nobody⟩
  | send bytes known sending =>
    exact ⟨next, number, stands.of_modify known sending (fun _ => rfl) fun _ => rfl, nobody⟩
  | hangUp known sending =>
    refine ⟨next, number, stands.of_modify known sending (fun entry => ?_)
      fun other => (congrArg _ (ite_self _)).symm, nobody⟩
    rw [List.append_nil]
  | accept phase waits => exact ⟨next + 1, number, silent (stands.of_accept phase waits), nobody⟩
  | acceptFails phase => exact ⟨next, number, silent (stands.of_acceptFails phase), nobody⟩
  | @decide caller phase =>
    obtain ⟨rfl, turnedAway, begun⟩ := stands.of_decide phase
    by_cases raised : listener.stopping = true
    · refine ⟨next, caller, silent ?_, ?_⟩
      · rw [if_pos raised]
        exact turnedAway
      · simp only [begins, if_pos raised, List.append_nil]
    · refine ⟨next, caller + 1, silent ?_, ?_⟩
      · rw [if_neg raised]
        exact begun
      · simp only [begins, if_neg raised, List.range_succ]
  | consume phase known => exact ⟨next, number, silent (stands.of_consume phase known), nobody⟩
  | raiseFlag => exact ⟨next, number, silent stands.of_raiseFlag, nobody⟩
  | wake => exact ⟨next, number, silent (stands.of_enqueue true), nobody⟩
  | wakeInVain => exact ⟨next, number, silent stands, nobody⟩

end Stands

theorem Attends.eq_of_not_serving {begun finished : List Nat}
    (attends : listener.Attends begun finished)
    (phase : ∀ caller, listener.phase ≠ .serving caller) : begun = finished := by
  cases attends with
  | between => rfl
  | amid busy => exact absurd busy (phase _)

theorem Stands.upTo (stands : Stands origin streams listener next number) : number ≤ next := by
  cases stands with
  | idle | serving => exact Nat.le_refl _
  | checking => exact Nat.le_succ _
  | stopped _ upTo => exact upTo

theorem Stands.line (stands : Stands origin streams listener next number) :
    Line origin streams next number listener := by
  cases stands with
  | idle _ line | checking _ line | serving _ line | stopped _ _ line => exact line

/-- A caller whose check is due has not been begun with. -/
theorem Stands.eq_of_accepted (stands : Stands origin streams listener next number)
    (phase : listener.phase = .accepted caller) : caller = number :=
  (stands.of_decide phase).1

/-- A listener is done with all whom it has begun to serve but the one whom it is serving, and then
its store is the one that they left. -/
theorem Stands.attends (stands : Stands origin streams listener next number) :
    ∃ count store, listener.Attends (List.range number) (List.range count) ∧
      Done origin streams count store listener ∧ (count = number → listener.store = store) := by
  cases stands with
  | idle phase line done | checking phase line done | stopped phase upTo line done =>
    refine ⟨number, listener.store, .between fun caller serving => ?_, done, fun _ => rfl⟩
    exact nomatch phase.symm.trans serving
  | @serving count before connection phase line done =>
    refine ⟨count, before, ?_, done, fun same => ?_⟩
    · rw [List.range_succ]
      exact .amid phase
    · omega

/-- A run of events keeps up what each event keeps up. -/
theorem Stands.run (stands : Stands origin streams listener next number)
    (ran : listener.run events = some last) :
    ∃ accepted begun,
      Stands origin (fun caller => streams caller ++ sent events caller) last accepted begun ∧
      List.range begun = List.range number ++ listener.served events := by
  induction events generalizing listener streams next number with
  | nil =>
    obtain rfl := Option.some.inj ran
    refine ⟨next, number, ?_, (List.append_nil _).symm⟩
    simpa only [sent, List.flatMap_nil, List.append_nil] using stands
  | cons event events ih =>
    obtain ⟨after, happened, goesOn⟩ := Option.bind_eq_some_iff.mp ran
    obtain ⟨_, _, stands, first⟩ := stands.step happened
    obtain ⟨accepted, begun, stands, later⟩ := ih stands goesOn
    refine ⟨accepted, begun, ?_, ?_⟩
    · simpa only [sent, List.flatMap_cons, List.append_assoc] using stands
    · rw [later, first, List.append_assoc]
      simp only [served, happened]

theorem stands_start (started : start config store alloc = .ok listener) :
    Stands listener (fun _ => []) listener 0 0 := by
  obtain ⟨-, rfl⟩ := start_eq_ok_iff.mp started
  refine .idle rfl ⟨rfl, rfl, rfl, ?_, fun _ _ => rfl⟩ ⟨?_, rfl, rfl⟩
  · exact fun _ _ _ known => nomatch known
  · exact fun _ mem => nomatch mem

/-- Where a listener stands, in terms of the callers whom it has accepted and begun to serve. -/
theorem exists_stands (started : start config store alloc = .ok listener)
    (ran : listener.run events = some last) :
    ∃ accepted number, Stands listener (sent events) last accepted number ∧
      listener.accepted events = List.range accepted ∧
      listener.served events = List.range number := by
  have queued : listener.accepted events ++ last.waiting = List.range last.callers.length := by
    obtain ⟨-, rfl⟩ := start_eq_ok_iff.mp started
    exact queued_of_run ran (List.nil_append [])
  obtain ⟨accepted, number, stands, whom⟩ := (stands_start started).run ran
  simp only [List.nil_append, List.range_zero] at stands whom
  exact ⟨accepted, number, stands,
    List.append_cancel_right (queued.trans stands.line.waiting.symm), whom.symm⟩

/-- Callers come to be served in the order in which they are accepted. -/
theorem served_prefix_accepted (started : start config store alloc = .ok listener)
    (ran : listener.run events = some last) :
    listener.served events <+: listener.accepted events := by
  obtain ⟨accepted, number, stands, order, whom⟩ := exists_stands started ran
  obtain ⟨later, rfl⟩ := Nat.exists_eq_add_of_le stands.upTo
  rw [order, whom, List.range_add]
  exact List.prefix_append _ _

/-- Those with whom a listener is done have ended, and have been replied to as if all their streams
had been served one after another. -/
theorem exists_finished (started : start config store alloc = .ok listener)
    (ran : listener.run events = some last) :
    ∃ finished, last.Attends (listener.served events) finished ∧ last.Through finished ∧
      let inTurn := serveInTurn alloc config.limits store (finished.map (sent events))
      finished.map (fun caller => (last.connection? caller).map Connection.output) =
        inTurn.1.map some ∧
      (listener.served events = finished → last.store = inTurn.2) := by
  obtain ⟨accepted, number, stands, -, whom⟩ := exists_stands started ran
  obtain ⟨count, before, attends, done, between⟩ := stands.attends
  rw [whom]
  obtain ⟨-, rfl⟩ := start_eq_ok_iff.mp started
  refine ⟨List.range count, attends, done.through, done.outputs, fun same => ?_⟩
  have all : count = number := by simpa using congrArg List.length same.symm
  rw [between all]
  exact done.store

/-- Nothing has been read from those who have not been begun with. -/
theorem connection_of_unserved (started : start config store alloc = .ok listener)
    (ran : listener.run events = some last) (unserved : caller ∉ listener.served events)
    (known : last.connection? caller = some connection) :
    connection = ⟨sent events caller, []⟩ := by
  obtain ⟨accepted, number, stands, -, whom⟩ := exists_stands started ran
  obtain ⟨entry, here, rfl⟩ := Option.map_eq_some_iff.mp known
  rw [whom, List.mem_range, Nat.not_lt] at unserved
  exact stands.line.untouched caller entry unserved here

/-- A caller who is about to be checked has not been begun with. -/
theorem unserved_of_accepted (started : start config store alloc = .ok listener)
    (ran : listener.run events = some last) (phase : last.phase = .accepted caller) :
    caller ∉ listener.served events := by
  obtain ⟨accepted, number, stands, -, whom⟩ := exists_stands started ran
  obtain rfl := stands.eq_of_accepted phase
  rw [whom, List.mem_range]
  exact Nat.lt_irrefl _

end WireStore.Listener
