import WireStore.Proofs.Server.Served

/-!
# Asking a listener to stop

A request to stop raises a flag and then wakes the listener. However many such requests there are,
and however they are interleaved with calls and with what the listener does: callers are served in
the order in which they were accepted, each to its own end (`Stands`), nobody is served whose check
comes after the flag (`served_of_stopping`), the listener stops only where a check found the flag
raised (`exists_check_of_stopped`), and after a request that is through it never awaits a call with
nobody waiting (`Woken`).
-/

namespace WireStore.Listener

variable {listener after mid last : Listener} {caller : Nat} {event : Event}
  {events front back : List Event}

theorem run_append :
    listener.run (front ++ back) = some last ↔
      ∃ mid, listener.run front = some mid ∧ mid.run back = some last := by
  simp only [run, List.foldlM_append, Option.bind_eq_bind, Option.bind_eq_some_iff]

theorem served_append (ran : listener.run front = some mid) :
    listener.served (front ++ back) = listener.served front ++ mid.served back := by
  induction front generalizing listener with
  | nil =>
    obtain rfl := Option.some.inj ran
    rfl
  | cons event front ih =>
    obtain ⟨after, happened, goesOn⟩ := Option.bind_eq_some_iff.mp ran
    simp only [List.cons_append, served, happened, ih goesOn, List.append_assoc]

/-! ## The flag -/

/-- The flag is raised by a request to stop and stays up. -/
theorem stopping_of_step (happened : listener.step event = some after) :
    after.stopping = true ↔ listener.stopping = true ∨ event = .raiseFlag := by
  cases stepped_of_step happened with
  | @consume number caller phase known => cases ended : caller.ended <;> simp [take, ended]
  | raiseFlag => simp
  | _ => simp [enqueue, arrive, modifyCaller]

theorem stopping_of_run (ran : listener.run events = some last) :
    last.stopping = true ↔ listener.stopping = true ∨ .raiseFlag ∈ events := by
  induction events generalizing listener with
  | nil =>
    obtain rfl := Option.some.inj ran
    simp
  | cons event events ih =>
    obtain ⟨after, happened, goesOn⟩ := Option.bind_eq_some_iff.mp ran
    rw [ih goesOn, stopping_of_step happened, List.mem_cons, or_assoc, @eq_comm _ event]

/-- Nobody is served whose check finds the flag raised. -/
theorem begins_of_stopping (raised : listener.stopping = true)
    (happened : listener.step event = some after) : after.begins event = [] := by
  cases stepped_of_step happened with
  | decide phase => simp only [begins, raised, if_true]
  | _ => rfl

theorem served_of_stopping (raised : listener.stopping = true) : listener.served events = [] := by
  induction events generalizing listener with
  | nil => rfl
  | cons event events ih =>
    unfold served
    split
    next after happened =>
      have still := (stopping_of_step happened).mpr (.inl raised)
      rw [begins_of_stopping raised happened, ih still, List.append_nil]
    next => rfl

/-! ## The end of listening -/

/-- Holds of an event at which a listener looks at its flag. -/
def Checks (listener : Listener) : Event → Prop
  | .decide => ∃ caller, listener.phase = .accepted caller
  | .acceptFails => listener.phase = .listening
  | _ => False

theorem checks_of_stop (running : listener.phase ≠ .stopped)
    (happened : listener.step event = some after) (stopped : after.phase = .stopped) :
    listener.Checks event ∧ listener.stopping = true := by
  cases stepped_of_step happened with
  | acceptFails phase =>
    refine ⟨phase, ?_⟩
    cases raised : listener.stopping with
    | true => rfl
    | false => simp [raised] at stopped
  | @decide number phase =>
    refine ⟨⟨number, phase⟩, ?_⟩
    cases raised : listener.stopping with
    | true => rfl
    | false => simp [raised] at stopped
  | accept => exact nomatch stopped
  | @consume number caller phase known =>
    cases ended : caller.ended with
    | true => simp [take, ended] at stopped
    | false => simp [take, ended, phase] at stopped
  | _ => exact absurd stopped running

/-- A listener that has stopped did so where it looked at its flag and found it raised. -/
theorem exists_check_of_stopped (running : listener.phase ≠ .stopped)
    (ran : listener.run events = some last) (stopped : last.phase = .stopped) :
    ∃ front check back mid, events = front ++ check :: back ∧ listener.run front = some mid ∧
      mid.Checks check ∧ mid.stopping = true := by
  induction events generalizing listener with
  | nil =>
    obtain rfl := Option.some.inj ran
    exact absurd stopped running
  | cons event events ih =>
    obtain ⟨after, happened, goesOn⟩ := Option.bind_eq_some_iff.mp ran
    by_cases here : after.phase = .stopped
    · obtain ⟨checks, raised⟩ := checks_of_stop running happened here
      exact ⟨[], event, events, listener, rfl, rfl, checks, raised⟩
    · obtain ⟨front, check, back, mid, rfl, reached, checks, raised⟩ := ih here goesOn
      refine ⟨event :: front, check, back, mid, rfl, ?_, checks, raised⟩
      exact Option.bind_eq_some_iff.mpr ⟨after, happened, reached⟩

/-! ## No call is awaited in vain -/

/-- Holds of a listener whose flag is raised and which cannot come to await a call with nobody
waiting: before it can listen again it has somebody to accept. -/
structure Woken (listener : Listener) : Prop where
  raised : listener.stopping = true
  somebody : listener.phase = .listening ∨ (∃ caller, listener.phase = .serving caller) →
    listener.waiting ≠ []

theorem woken_of_wake (raised : listener.stopping = true)
    (happened : listener.step .wake = some after) : after.Woken := by
  cases stepped_of_step happened with
  | wake nobody => exact ⟨raised, fun _ => by simp [enqueue]⟩
  | wakeInVain somebody => exact ⟨raised, fun _ => somebody⟩

theorem Woken.step (woken : listener.Woken) (happened : listener.step event = some after) :
    after.Woken := by
  refine ⟨(stopping_of_step happened).mpr (.inl woken.raised), ?_⟩
  cases stepped_of_step happened with
  | call | wake => simp [enqueue]
  | send | hangUp | raiseFlag | wakeInVain => exact woken.somebody
  -- Whoever is accepted next finds the flag raised, so the listener does not come back from there.
  | accept => simp
  | acceptFails => simp [woken.raised]
  | decide => simp [woken.raised]
  | @consume number caller phase known =>
    have waits := woken.somebody (.inr ⟨number, phase⟩)
    cases ended : caller.ended <;> exact fun _ => by simpa [take, ended] using waits

theorem Woken.run (woken : listener.Woken) (ran : listener.run events = some last) :
    last.Woken :=
  run_keeps Woken.step woken ran

/-- A request to stop that is through has woken the listener, whatever happened between its two
parts and after them. -/
theorem woken_of_shutdown (ran : listener.run events = some last)
    (through : shutdown.Sublist events) : last.Woken := by
  obtain ⟨front, rest, rfl, flag, woke⟩ := List.cons_sublist_iff.mp through
  obtain ⟨mid, first, goesOn⟩ := run_append.mp ran
  have raised := (stopping_of_run first).mpr (.inr flag)
  obtain ⟨between, behind, rfl⟩ := List.append_of_mem (List.singleton_sublist.mp woke)
  obtain ⟨reached, second, later⟩ := run_append.mp goesOn
  obtain ⟨after, happened, remains⟩ := Option.bind_eq_some_iff.mp later
  have still := (stopping_of_run second).mpr (.inl raised)
  exact (woken_of_wake still happened).run remains

/-! ## A woken listener left to itself -/

theorem settle_of_stopped (stopped : listener.phase = .stopped) :
    listener.settle.phase = .stopped := by
  have stays : listener.step listener.ownMove = none := by
    simp [ownMove, Listener.step, stopped]
  rw [settle, stays]
  exact stopped

namespace Woken

theorem settle_of_accepted (woken : listener.Woken) (phase : listener.phase = .accepted caller) :
    listener.settle.phase = .stopped := by
  have moved : listener.step listener.ownMove = some { listener with phase := .stopped } := by
    simp only [ownMove, Listener.step, phase, woken.raised, if_true]
  rw [settle_of_step moved (by simp [busyness, phase])]
  exact settle_of_stopped rfl

theorem settle_of_listening (woken : listener.Woken) (phase : listener.phase = .listening) :
    listener.settle.phase = .stopped := by
  obtain ⟨caller, rest, waits⟩ := List.exists_cons_of_ne_nil (woken.somebody (.inl phase))
  have moved : listener.step listener.ownMove =
      some { listener with waiting := rest, phase := .accepted caller } := by
    simp only [ownMove, Listener.step, phase, waits]
  have less : Listener.busyness { listener with waiting := rest, phase := .accepted caller } <
      listener.busyness := by
    simp only [busyness, phase, waits, List.length_cons]
    omega
  rw [settle_of_step moved less]
  exact (woken.step moved).settle_of_accepted rfl

/-- A woken listener stops once the caller whom it is serving has ended. -/
theorem settle (woken : listener.Woken)
    (ended : ∀ caller, listener.phase = .serving caller → listener.Through [caller]) :
    listener.settle.phase = .stopped := by
  cases phase : listener.phase with
  | listening => exact woken.settle_of_listening phase
  | accepted caller => exact woken.settle_of_accepted phase
  | stopped => exact settle_of_stopped phase
  | serving caller =>
    obtain ⟨entry, known, last⟩ :=
      Option.map_eq_some_iff.mp (ended caller phase caller (List.mem_singleton_self _))
    have moved : listener.step listener.ownMove = some (listener.take caller entry) := by
      simp only [ownMove, Listener.step, phase, known, Option.map_some]
    have idle : (listener.take caller entry).phase = .listening := by simp [take, last]
    have less : (listener.take caller entry).busyness < listener.busyness := by
      simp [busyness, take, last, phase]
    rw [settle_of_step moved less]
    exact (woken.step moved).settle_of_listening idle

end Woken

/-! ## The whole of it -/

/-- However calls, the pieces that callers send, what the listener does and any number of requests
to stop are interleaved: the callers who are served are the first of those who are accepted, each to
its own end; nobody is served whose check comes after the flag; the listener stops only after a
check that found the flag raised; and after a request that is through it is past accepting, or
somebody waits, so that it stops once the caller whom it is serving has ended. -/
theorem run_heeds_shutdown {config : Config} {store : Store} {alloc : Allocator}
    (started : start config store alloc = .ok listener) (ran : listener.run events = some last) :
    let order := listener.accepted events
    let served := listener.served events
    served <+: order ∧
    (∃ finished, last.Attends served finished ∧ last.Through finished ∧
      let inTurn := serveInTurn alloc config.limits store (finished.map (sent events))
      finished.map (fun caller => (last.connection? caller).map Connection.output) =
        inTurn.1.map some ∧
      (served = finished → last.store = inTurn.2)) ∧
    (∀ caller ∉ served, ∀ connection, last.connection? caller = some connection →
      connection = ⟨sent events caller, []⟩) ∧
    (∀ front rest mid, events = front ++ rest → listener.run front = some mid →
      .raiseFlag ∈ front → served = listener.served front ∧
        ∀ caller, mid.phase = .accepted caller → caller ∉ served) ∧
    (last.phase = .stopped → ∃ front check rest mid, events = front ++ check :: rest ∧
      listener.run front = some mid ∧ mid.Checks check ∧ .raiseFlag ∈ front) ∧
    (shutdown.Sublist events →
      (last.phase ≠ .listening ∨ last.waiting ≠ []) ∧
      ((∀ caller, last.phase = .serving caller → last.Through [caller]) →
        last.settle.phase = .stopped)) := by
  have raised {front : List Event} {mid : Listener} (first : listener.run front = some mid) :
      mid.stopping = true ↔ .raiseFlag ∈ front := by
    obtain ⟨-, rfl⟩ := start_eq_ok_iff.mp started
    rw [stopping_of_run first]
    exact or_iff_right Bool.false_ne_true
  refine ⟨served_prefix_accepted started ran, exists_finished started ran,
    fun caller unserved connection => connection_of_unserved started ran unserved,
    ?_, fun stopped => ?_, fun through => ?_⟩
  · rintro front rest mid rfl first flag
    have whole : listener.served (front ++ rest) = listener.served front := by
      rw [served_append first, served_of_stopping ((raised first).mpr flag), List.append_nil]
    refine ⟨whole, fun caller phase => ?_⟩
    rw [whole]
    exact unserved_of_accepted started first phase
  · have running : listener.phase ≠ .stopped := by
      obtain ⟨-, rfl⟩ := start_eq_ok_iff.mp started
      exact nofun
    obtain ⟨front, check, rest, mid, split, first, checks, found⟩ :=
      exists_check_of_stopped running ran stopped
    exact ⟨front, check, rest, mid, split, first, checks, (raised first).mp found⟩
  · have woken := woken_of_shutdown ran through
    refine ⟨?_, woken.settle⟩
    by_cases phase : last.phase = .listening
    · exact .inr (woken.somebody (.inl phase))
    · exact .inl phase

/-- A request to stop that arrives while one caller is being served and another waits. The first is
served to its end, and the other finds the listener gone. -/
theorem run_heeds_shutdown_of_two_callers :
    let stream := Utf8.encode "CREATE 7 2\nhiREAD 7\n"
    let events : List Event :=
      [.call, .send 0 (stream.take 4), .accept, .decide, .call, .raiseFlag, .consume, .wake,
        .send 0 (stream.drop 4), .hangUp 0, .consume, .accept, .decide]
    ∃ listener last, start {} ∅ .unlimited = .ok listener ∧ listener.run events = some last ∧
      last.phase = .stopped ∧ listener.accepted events = [0, 1] ∧ listener.served events = [0] ∧
      last.Through [0] ∧
      [0].map (fun caller => (last.connection? caller).map Connection.output) =
        (serveInTurn .unlimited {} ∅ [stream]).1.map some ∧
      last.connection? 1 = some ⟨[], []⟩ ∧ last.settle.phase = .stopped := by
  intro stream events
  let listener : Listener := {}
  have started : start {} ∅ .unlimited = .ok listener := rfl
  obtain ⟨last, ran⟩ : ∃ last, listener.run events = some last :=
    Option.isSome_iff_exists.mp (by decide +kernel)
  have order : listener.accepted events = [0, 1] := by decide +kernel
  have first : listener.served events = [0] := by decide +kernel
  have whole : [0].map (sent events) = [stream] := by decide +kernel
  have ends : (listener.run events).map (fun last => (last.phase, last.callers.length)) =
      some (.stopped, 2) := by decide +kernel
  rw [ran, Option.map_some, Option.some.injEq, Prod.mk.injEq] at ends
  obtain ⟨stopped, length⟩ := ends
  obtain ⟨-, ⟨finished, attends, through, outputs, -⟩, untouched, -, -, woken⟩ :=
    run_heeds_shutdown started ran
  rw [first] at attends untouched
  obtain rfl := attends.eq_of_not_serving fun caller phase => nomatch stopped.symm.trans phase
  rw [whole] at outputs
  have other : (last.connection? 1).isSome := by simp [connection?, length]
  obtain ⟨connection, known⟩ := Option.isSome_iff_exists.mp other
  have nothing : sent events 1 = [] := by decide +kernel
  have kept := untouched 1 (by decide) connection known
  rw [nothing] at kept
  have settled := (woken (by decide)).2 fun caller phase => nomatch stopped.symm.trans phase
  exact ⟨listener, last, started, ran, stopped, order, first, through, outputs, kept ▸ known,
    settled⟩

end WireStore.Listener
