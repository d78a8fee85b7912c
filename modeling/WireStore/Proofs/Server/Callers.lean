import WireStore.Proofs.Server.Arrivals
import WireStore.Proofs.Server.Delivery
import WireStore.Server.Listener

/-!
# Callers served one after another

However the events at a listener are interleaved, it serves its callers in the order in which they
called, each from the store that those before it left. `Tracks` says where it stands: the callers
below some number have been served to their end, that one may be under way, and what the others
have sent is untouched. Every event that is possible keeps this up (`Tracks.step`), so a run of
events does, and so does a listener that is left to itself; if all callers have ended, it serves all
of them and listens again (`Tracks.settle`).
-/

namespace WireStore.Listener

open Connection

/-- The bytes that an event brings from a caller. -/
def Event.bytesFrom (number : Nat) : Event → Bytes
  | .send caller bytes => if caller = number then bytes else []
  | _ => []

/-- All bytes that a caller sends in a run of events. -/
def sent (events : List Event) (number : Nat) : Bytes :=
  events.flatMap (Event.bytesFrom number)

/-- The store that a listener leaves to a caller if all callers before it sent these bytes. -/
def storeBefore (origin : Listener) (streams : Nat → Bytes) : Nat → Store
  | 0 => origin.store
  | number + 1 =>
    ((storeBefore origin streams number).answers origin.alloc
      (Opening.frames origin.limits (streams number)).1).2

/-- The answers to the frames that a caller sent. -/
def answersTo (origin : Listener) (streams : Nat → Bytes) (number : Nat) : List Reply :=
  ((storeBefore origin streams number).answers origin.alloc
    (Opening.frames origin.limits (streams number)).1).1

/-- The replies to a caller, the farewell included. -/
def repliesTo (origin : Listener) (streams : Nat → Bytes) (number : Nat) : List Reply :=
  repliesDue origin.alloc origin.limits (storeBefore origin streams number) (streams number) .closed

/-- Holds if memory is granted for all values that callers send. -/
def Supplied (origin : Listener) (streams : Nat → Bytes) : Prop :=
  ∀ number, ∀ outcome ∈ (Opening.frames origin.limits (streams number)).1,
    Opening.Granted origin.alloc outcome

/-- Holds of a listener with these settings that has accepted all callers below `next` and has
not begun to serve any from `number` on. -/
structure Line (origin : Listener) (streams : Nat → Bytes) (next number : Nat)
    (listener : Listener) : Prop where
  alloc : listener.alloc = origin.alloc
  limits : listener.limits = origin.limits
  waiting : List.range next ++ listener.waiting = List.range listener.callers.length
  untouched : ∀ caller entry, number ≤ caller → listener.callers[caller]? = some entry →
    entry.connection = ⟨streams caller, []⟩
  silent : ∀ caller, listener.callers.length ≤ caller → streams caller = []

/-- Holds of a listener with these settings that has served all callers below `number` and accepted
none from `next` on, and that nobody asks to stop. -/
structure Queue (origin : Listener) (streams : Nat → Bytes) (number next : Nat)
    (listener : Listener) : Prop where
  alloc : listener.alloc = origin.alloc
  limits : listener.limits = origin.limits
  willing : listener.stopping = false
  waiting : List.range next ++ listener.waiting = List.range listener.callers.length
  finished : ∀ caller < number,
    listener.callers[caller]? = some ⟨⟨[], (repliesTo origin streams caller).reverse⟩, true⟩
  untouched : ∀ caller entry, next ≤ caller → listener.callers[caller]? = some entry →
    entry.connection = ⟨streams caller, []⟩
  silent : ∀ caller, listener.callers.length ≤ caller → streams caller = []

/-- Where a listener stands that has served all callers below `number`. -/
inductive Tracks (origin : Listener) (streams : Nat → Bytes) (number : Nat)
    (listener : Listener) : Prop
  | idle (queue : Queue origin streams number number listener)
    (phase : listener.phase = .listening)
    (store : listener.store = storeBefore origin streams number)
  | busy {connection : Connection} {ended : Bool} {front : Bytes}
    (queue : Queue origin streams number (number + 1) listener)
    (phase : listener.phase = .accepted number ∨ listener.phase = .serving number)
    (known : listener.callers[number]? = some ⟨connection, ended⟩)
    (underWay : UnderWay origin.alloc origin.limits (storeBefore origin streams number)
      (streams number) front connection listener.store)

variable {origin listener after : Listener} {streams later : Nat → Bytes} {number next caller : Nat}
  {entry : Caller} {bytes : Bytes}

/-! ## What callers below a number are owed -/

theorem storeBefore_congr (same : ∀ caller < number, later caller = streams caller) :
    storeBefore origin later number = storeBefore origin streams number := by
  induction number with
  | zero => rfl
  | succ number ih =>
    simp only [storeBefore]
    rw [ih fun caller below => same caller (Nat.lt_succ_of_lt below),
      same number number.lt_succ_self]

theorem repliesTo_congr (same : ∀ caller ≤ number, later caller = streams caller) :
    repliesTo origin later number = repliesTo origin streams number := by
  unfold repliesTo
  rw [storeBefore_congr fun caller below => same caller (Nat.le_of_lt below),
    same number (Nat.le_refl _)]

namespace Line

/-- The caller who has waited longest is the first that has not been accepted. -/
theorem first_of_waiting {rest : List Nat} (line : Line origin streams next number listener)
    (waits : listener.waiting = caller :: rest) :
    caller = next ∧ next < listener.callers.length ∧
      List.range (next + 1) ++ rest = List.range listener.callers.length := by
  have whole := line.waiting
  rw [waits] at whole
  have lengths := congrArg List.length whole
  simp only [List.length_append, List.length_range, List.length_cons] at lengths
  have here := congrArg (·[next]?) whole
  simp only [List.getElem?_append_right, List.length_range, Nat.le_refl, Nat.sub_self,
    List.getElem?_cons_zero] at here
  rw [List.getElem?_range (by omega)] at here
  obtain rfl := Option.some.inj here
  refine ⟨rfl, by omega, ?_⟩
  rw [← whole, List.range_succ, List.append_assoc]
  rfl

theorem le_length (line : Line origin streams next number listener) :
    next ≤ listener.callers.length := by
  have lengths := congrArg List.length line.waiting
  simp only [List.length_append, List.length_range] at lengths
  omega

theorem of_same (line : Line origin streams next number listener)
    (alloc : after.alloc = listener.alloc) (limits : after.limits = listener.limits)
    (waiting : after.waiting = listener.waiting) (callers : after.callers = listener.callers) :
    Line origin streams next number after where
  alloc := alloc.trans line.alloc
  limits := limits.trans line.limits
  waiting := by rw [waiting, callers, line.waiting]
  untouched := by
    rw [callers]
    exact line.untouched
  silent := by
    rw [callers]
    exact line.silent

theorem enqueue (line : Line origin streams next number listener) (ended : Bool) :
    Line origin streams next number (listener.enqueue { ended }) where
  alloc := line.alloc
  limits := line.limits
  waiting := by
    simp only [Listener.enqueue, List.length_append, List.length_singleton]
    rw [← List.append_assoc, line.waiting, List.range_succ]
  untouched := by
    intro caller entry beyond known
    simp only [Listener.enqueue] at known
    by_cases inside : caller < listener.callers.length
    · rw [List.getElem?_append_left inside] at known
      exact line.untouched caller entry beyond known
    · have outside := Nat.le_of_not_lt inside
      rw [List.getElem?_append_right outside] at known
      obtain rfl : entry = { ended } := by simpa using List.mem_of_getElem? known
      rw [line.silent caller outside]
  silent := by
    intro caller outside
    simp only [Listener.enqueue, List.length_append, List.length_singleton] at outside
    exact line.silent caller (by omega)

/-- What a caller adds to its bytes waits for it to be served. -/
theorem modify {change : Caller → Caller} {more : Bytes}
    (line : Line origin streams next number listener)
    (known : listener.callers[caller]? = some entry)
    (adds : ∀ entry, (change entry).connection =
      { entry.connection with pending := entry.connection.pending ++ more })
    (grown : ∀ other, later other = streams other ++ if caller = other then more else []) :
    Line origin later next number (listener.modifyCaller caller change) := by
  have inside : caller < listener.callers.length := (List.getElem?_eq_some_iff.mp known).1
  refine ⟨line.alloc, line.limits, ?_, ?_, ?_⟩
  · simpa [modifyCaller] using line.waiting
  · intro other found beyond here
    simp only [modifyCaller] at here
    by_cases same : caller = other
    · subst same
      rw [List.getElem?_modify_eq, known] at here
      obtain rfl := Option.some.inj here
      rw [adds, line.untouched caller entry beyond known, grown, if_pos rfl]
    · rw [List.getElem?_modify_ne _ _ same] at here
      rw [line.untouched other found beyond here, grown, if_neg same, List.append_nil]
  · intro other outside
    simp only [modifyCaller, List.length_modify] at outside
    rw [grown, if_neg (by omega), List.append_nil, line.silent other outside]

/-- Serving a caller leaves those who have not been begun with as they are. -/
theorem of_current (line : Line origin streams (number + 1) (number + 1) listener)
    (change : Caller → Caller) (store : Store) (phase : Phase) :
    Line origin streams (number + 1) (number + 1)
      { listener with store, phase, callers := listener.callers.modify number change } where
  alloc := line.alloc
  limits := line.limits
  waiting := by simpa using line.waiting
  untouched := by
    intro caller entry beyond known
    rw [List.getElem?_modify_ne change _ (by omega)] at known
    exact line.untouched caller entry beyond known
  silent := by simpa using line.silent

end Line

namespace Queue

/-- Apart from the callers served, a queue is a line nobody of whom has been begun with. -/
theorem line (queue : Queue origin streams number next listener) :
    Line origin streams next next listener :=
  { queue with }

theorem eq_length_of_nobody_waits (queue : Queue origin streams number next listener)
    (nobody : listener.waiting = []) : next = listener.callers.length := by
  have lengths := congrArg List.length queue.waiting
  simpa [nobody] using lengths

/-- A caller who may still send has not been served to its end. -/
theorem le_of_open (queue : Queue origin streams number next listener)
    (known : listener.callers[caller]? = some entry) (sending : entry.ended = false) :
    number ≤ caller := by
  refine Nat.le_of_not_lt fun below => ?_
  have done := known.symm.trans (queue.finished caller below)
  rw [Option.some.inj done] at sending
  exact nomatch sending

theorem enqueue (queue : Queue origin streams number next listener) :
    Queue origin streams number next (listener.enqueue {}) :=
  { queue.line.enqueue false with
    willing := queue.willing
    finished := by
      intro caller below
      have here := queue.finished caller below
      obtain ⟨inside, -⟩ := List.getElem?_eq_some_iff.mp here
      exact (List.getElem?_append_left inside).trans here }

/-- What a caller adds to its bytes leaves the others as they are, if it has not been served to its
end. -/
theorem modify {change : Caller → Caller} {more : Bytes}
    (queue : Queue origin streams number next listener)
    (known : listener.callers[caller]? = some entry) (remaining : number ≤ caller)
    (adds : ∀ entry, (change entry).connection =
      { entry.connection with pending := entry.connection.pending ++ more })
    (grown : ∀ other, later other = streams other ++ if caller = other then more else []) :
    Queue origin later number next (listener.modifyCaller caller change) :=
  { queue.line.modify known adds grown with
    willing := queue.willing
    finished := by
      intro other below
      have same : repliesTo origin later other = repliesTo origin streams other := by
        refine repliesTo_congr fun earlier upTo => ?_
        rw [grown, if_neg (by omega), List.append_nil]
      rw [same, ← queue.finished other below]
      exact List.getElem?_modify_ne _ _ (by omega) }

/-- Only the caller being served is changed by serving it. -/
theorem of_current (queue : Queue origin streams number (number + 1) listener)
    (change : Caller → Caller) (store : Store) (phase : Phase) :
    Queue origin streams number (number + 1)
      { listener with store, phase, callers := listener.callers.modify number change } :=
  { queue.line.of_current change store phase with
    willing := queue.willing
    finished := by
      intro caller below
      rw [← queue.finished caller below]
      exact List.getElem?_modify_ne change _ (by omega) }

theorem finish (queue : Queue origin streams number (number + 1) listener)
    (done : listener.callers[number]? =
      some ⟨⟨[], (repliesTo origin streams number).reverse⟩, true⟩) :
    Queue origin streams (number + 1) (number + 1) listener :=
  { queue with
    finished := by
      intro caller below
      rcases Nat.lt_succ_iff_lt_or_eq.mp below with earlier | rfl
      · exact queue.finished caller earlier
      · exact done }

end Queue

namespace Tracks

/-! ## Events -/

theorem of_call (tracks : Tracks origin streams number listener) :
    Tracks origin streams number (listener.enqueue {}) := by
  cases tracks with
  | idle queue phase store => exact .idle queue.enqueue phase store
  | @busy connection ended front queue phase known underWay =>
    obtain ⟨inside, -⟩ := List.getElem?_eq_some_iff.mp known
    have still : (listener.callers ++ [({} : Caller)])[number]? = some ⟨connection, ended⟩ :=
      (List.getElem?_append_left inside).trans known
    exact .busy queue.enqueue phase still underWay

theorem of_modify {change : Caller → Caller} {more : Bytes}
    (tracks : Tracks origin streams number listener)
    (known : listener.callers[caller]? = some entry) (sending : entry.ended = false)
    (adds : ∀ entry, (change entry).connection =
      { entry.connection with pending := entry.connection.pending ++ more })
    (grown : ∀ other, later other = streams other ++ if caller = other then more else []) :
    Tracks origin later number (listener.modifyCaller caller change) := by
  have others (other : Nat) (differs : caller ≠ other) : later other = streams other := by
    rw [grown, if_neg differs, List.append_nil]
  cases tracks with
  | idle queue phase store =>
    have remaining := queue.le_of_open known sending
    refine .idle (queue.modify known remaining adds grown) phase (store.trans ?_)
    exact (storeBefore_congr fun other below => others other (by omega)).symm
  | @busy connection ended front queue phase here underWay =>
    have remaining := queue.le_of_open known sending
    have before : storeBefore origin later number = storeBefore origin streams number :=
      storeBefore_congr fun other below => others other (by omega)
    have queue := queue.modify known remaining adds grown
    -- Bytes from the caller being served join its pending ones; bytes from another change nothing
    -- that has been answered.
    by_cases same : caller = number
    · subst same
      have changed : (listener.modifyCaller caller change).callers[caller]? =
          some ⟨{ connection with pending := connection.pending ++ more },
            (change ⟨connection, ended⟩).ended⟩ := by
        simp only [modifyCaller]
        rw [List.getElem?_modify_eq, here, ← adds ⟨connection, ended⟩]
        rfl
      have arrives := underWay.arrive more
      rw [← before] at arrives
      exact .busy queue phase changed (by rw [grown, if_pos rfl]; exact arrives)
    · have still := (List.getElem?_modify_ne change listener.callers same).trans here
      rw [← before, ← others number same] at underWay
      exact .busy queue phase still underWay

theorem of_accept (tracks : Tracks origin streams number listener)
    (accepted : listener.step .accept = some after) : Tracks origin streams number after := by
  cases tracks with
  | busy queue phase =>
    rcases phase with phase | phase <;> simp [step, phase] at accepted
  | idle queue phase store =>
    cases waits : listener.waiting with
    | nil => simp [step, phase, waits] at accepted
    | cons caller rest =>
      simp only [step, phase, waits, Option.some.injEq] at accepted
      subst accepted
      obtain ⟨rfl, inside, behind⟩ := queue.line.first_of_waiting waits
      obtain ⟨entry, known⟩ : ∃ entry, listener.callers[caller]? = some entry :=
        ⟨_, List.getElem?_eq_getElem inside⟩
      have fresh := queue.untouched caller entry (Nat.le_refl _) known
      have underWay : UnderWay origin.alloc origin.limits (storeBefore origin streams caller)
          (streams caller) [] entry.connection listener.store := by
        rw [fresh, store]
        exact underWay_fresh ..
      refine .busy ⟨queue.alloc, queue.limits, queue.willing, behind, queue.finished, ?_,
        queue.silent⟩ (.inl rfl) known underWay
      exact fun other entry beyond => queue.untouched other entry (Nat.le_of_succ_le beyond)

/-- A listener that nobody asks to stop tries again after an attempt that failed. -/
theorem of_acceptFails (tracks : Tracks origin streams number listener)
    (failed : listener.step .acceptFails = some after) : Tracks origin streams number after := by
  cases tracks with
  | busy queue phase =>
    rcases phase with phase | phase <;> simp [step, phase] at failed
  | idle queue phase store =>
    simp only [step, phase, queue.willing, Bool.false_eq_true, if_false, Option.some.injEq]
      at failed
    subst failed
    exact .idle ⟨queue.alloc, queue.limits, rfl, queue.waiting, queue.finished, queue.untouched,
      queue.silent⟩ rfl store

theorem of_decide (tracks : Tracks origin streams number listener)
    (looked : listener.step .decide = some after) : Tracks origin streams number after := by
  cases tracks with
  | idle queue phase => simp [step, phase] at looked
  | busy queue phase known underWay =>
    rcases phase with phase | phase
    · simp only [step, phase, queue.willing, Bool.false_eq_true, if_false, Option.some.injEq]
        at looked
      subst looked
      exact .busy ⟨queue.alloc, queue.limits, rfl, queue.waiting, queue.finished,
        queue.untouched, queue.silent⟩ (.inr rfl) known underWay
    · simp [step, phase] at looked

/-- A caller who has sent all it will is served to its end, and the next one is due. -/
theorem of_consume (tracks : Tracks origin streams number listener)
    (supplied : Supplied origin streams) (taken : listener.step .consume = some after) :
    Tracks origin streams number after ∨ Tracks origin streams (number + 1) after := by
  cases tracks with
  | idle queue phase => simp [step, phase] at taken
  | @busy connection ended front queue phase known underWay =>
    rcases phase with phase | phase
    · simp [step, phase] at taken
    simp only [step, phase, known, Option.map_some, Option.some.injEq] at taken
    subst taken
    have settings : advance listener.alloc listener.limits listener.store connection =
        advance origin.alloc origin.limits listener.store connection := by
      rw [queue.alloc, queue.limits]
    have own (change : Caller → Caller) : (listener.callers.modify number change)[number]? =
        some (change ⟨connection, ended⟩) := by
      rw [List.getElem?_modify_eq, known]
      rfl
    unfold take
    simp only [settings, advance_of_underWay underWay (supplied number)]
    -- A caller who may send more stays the one being served; one who has ended is let go.
    cases ended with
    | false =>
      left
      obtain ⟨front, underWay⟩ := underWay_advanced origin.alloc origin.limits
        (storeBefore origin streams number) (streams number)
      exact .busy (queue.of_current ..) (.inr phase) (own _) underWay
    | true =>
      right
      have partly : ∀ outcome rest, Opening.of listener.limits
          (Opening.frames origin.limits (streams number)).2 ≠ .frame outcome rest := by
        rw [queue.limits]
        exact Opening.partial_of_frames origin.limits (streams number)
      rw [if_pos rfl, close_of_partial _ _ partly]
      refine .idle ((queue.of_current ..).finish ((own _).trans ?_)) rfl rfl
      simp only [repliesTo, repliesDue, queue.limits, List.reverse_append]
      cases Ending.closed.farewell origin.limits
        (Opening.frames origin.limits (streams number)).2 <;> rfl

/-- Whatever happens but a request to stop, a listener serves its callers in turn. -/
theorem step {event : Event} (tracks : Tracks origin streams number listener)
    (supplied : Supplied origin streams) (unstopped : event ≠ .raiseFlag ∧ event ≠ .wake)
    (happened : listener.step event = some after) :
    ∃ reached, Tracks origin (fun caller => streams caller ++ event.bytesFrom caller) reached
      after := by
  have silent {reached : Nat} (same : Tracks origin streams reached after) :
      Tracks origin (fun caller => streams caller ++ []) reached after := by
    simpa only [List.append_nil] using same
  cases stepped_of_step happened with
  | call => exact ⟨number, silent tracks.of_call⟩
  | send bytes known sending =>
    exact ⟨number, tracks.of_modify known sending (fun _ => rfl) fun _ => rfl⟩
  | hangUp known sending =>
    refine ⟨number, tracks.of_modify known sending (fun entry => ?_)
      fun other => (congrArg _ (ite_self _)).symm⟩
    rw [List.append_nil]
  | accept => exact ⟨number, silent (tracks.of_accept happened)⟩
  | acceptFails => exact ⟨number, silent (tracks.of_acceptFails happened)⟩
  | decide => exact ⟨number, silent (tracks.of_decide happened)⟩
  | consume =>
    rcases tracks.of_consume supplied happened with still | done
    · exact ⟨number, silent still⟩
    · exact ⟨number + 1, silent done⟩
  | raiseFlag => exact absurd rfl unstopped.1
  | wake | wakeInVain => exact absurd rfl unstopped.2

end Tracks

theorem Supplied.of_append {more : Nat → Bytes}
    (supplied : Supplied origin fun caller => streams caller ++ more caller) :
    Supplied origin streams := by
  intro number outcome mem
  apply supplied number
  rw [Opening.frames_append]
  exact List.mem_append_left _ mem

/-- A run of events keeps up what each event keeps up. -/
theorem Tracks.run {events : List Event} {last : Listener}
    (tracks : Tracks origin streams number listener)
    (supplied : Supplied origin fun caller => streams caller ++ sent events caller)
    (unstopped : ∀ event ∈ events, event ≠ .raiseFlag ∧ event ≠ .wake)
    (ran : listener.run events = some last) :
    ∃ reached, Tracks origin (fun caller => streams caller ++ sent events caller) reached last := by
  induction events generalizing listener streams number with
  | nil =>
    obtain rfl := Option.some.inj ran
    simp only [sent, List.flatMap_nil, List.append_nil]
    exact ⟨number, tracks⟩
  | cons event events ih =>
    obtain ⟨after, happened, goesOn⟩ := Option.bind_eq_some_iff.mp ran
    have grown : (fun caller => streams caller ++ sent (event :: events) caller) =
        fun caller => streams caller ++ event.bytesFrom caller ++ sent events caller := by
      funext caller
      simp only [sent, List.flatMap_cons, List.append_assoc]
    rw [grown] at supplied ⊢
    obtain ⟨reached, tracks⟩ := tracks.step supplied.of_append.of_append
      (unstopped event List.mem_cons_self) happened
    exact ih tracks supplied (fun other mem => unstopped other (List.mem_cons_of_mem _ mem)) goesOn

theorem tracks_start {config : Config} {store : Store} {alloc : Allocator}
    (started : start config store alloc = .ok listener) :
    listener.alloc = alloc ∧ listener.limits = config.limits ∧ listener.store = store ∧
      Tracks listener (fun _ => []) 0 listener := by
  obtain ⟨-, rfl⟩ := start_eq_ok_iff.mp started
  refine ⟨rfl, rfl, rfl, .idle ⟨rfl, rfl, rfl, rfl, ?_, ?_, fun _ _ => rfl⟩ rfl rfl⟩
  · intro caller below
    exact absurd below (Nat.not_lt_zero _)
  · intro caller entry _ known
    exact nomatch known

/-! ## A listener left to itself -/

/-- Each move of a listener all of whose callers have ended brings it nearer to having nothing to
do, and leaves them ended. -/
theorem Tracks.ownMove (tracks : Tracks origin streams number listener)
    (ended : ∀ entry ∈ listener.callers, entry.ended = true)
    (moved : listener.step listener.ownMove = some after) :
    after.busyness < listener.busyness ∧ after.callers.length = listener.callers.length ∧
      ∀ entry ∈ after.callers, entry.ended = true := by
  cases tracks with
  | idle queue phase store =>
    cases waits : listener.waiting with
    | nil => simp [Listener.ownMove, Listener.step, phase, waits] at moved
    | cons caller rest =>
      simp only [Listener.ownMove, Listener.step, phase, waits, Option.some.injEq] at moved
      subst moved
      refine ⟨?_, rfl, ended⟩
      simp only [busyness, phase, waits, List.length_cons]
      omega
  | @busy connection last front queue phase known underWay =>
    rcases phase with phase | phase
    · simp only [Listener.ownMove, Listener.step, phase, queue.willing, Bool.false_eq_true,
        if_false, Option.some.injEq] at moved
      subst moved
      refine ⟨?_, rfl, ended⟩
      simp only [busyness, phase]
      omega
    · obtain rfl : last = true := ended _ (List.mem_of_getElem? known)
      simp only [Listener.ownMove, Listener.step, phase, known, Option.map_some,
        Option.some.injEq, take, if_true] at moved
      subst moved
      refine ⟨?_, by simp, ?_⟩
      · simp only [busyness, phase]
        omega
      · intro entry mem
        obtain ⟨place, here⟩ := List.mem_iff_getElem?.mp mem
        rw [List.getElem?_modify] at here
        obtain ⟨old, known, rfl⟩ := Option.map_eq_some_iff.mp here
        have hungUp := ended old (List.mem_of_getElem? known)
        split <;> exact hungUp

theorem Tracks.of_no_move (tracks : Tracks origin streams number listener)
    (stays : listener.step listener.ownMove = none) :
    listener.phase = .listening ∧ listener.waiting = [] ∧ number = listener.callers.length := by
  cases tracks with
  | idle queue phase store =>
    cases waits : listener.waiting with
    | nil => exact ⟨phase, rfl, queue.eq_length_of_nobody_waits waits⟩
    | cons caller rest => simp [Listener.ownMove, Listener.step, phase, waits] at stays
  | busy queue phase known underWay =>
    rcases phase with phase | phase
    · simp [Listener.ownMove, Listener.step, phase] at stays
    · simp [Listener.ownMove, Listener.step, phase, known] at stays

theorem ownMove_unstopped (listener : Listener) :
    listener.ownMove ≠ .raiseFlag ∧ listener.ownMove ≠ .wake := by
  unfold ownMove
  cases listener.phase <;> exact ⟨nofun, nofun⟩

theorem bytesFrom_ownMove (listener : Listener) (caller : Nat) :
    listener.ownMove.bytesFrom caller = [] := by
  unfold ownMove
  cases listener.phase <;> rfl

/-- A listener all of whose callers have ended serves them all and listens again. -/
theorem Tracks.settle (tracks : Tracks origin streams number listener)
    (supplied : Supplied origin streams) (ended : ∀ entry ∈ listener.callers, entry.ended = true) :
    Tracks origin streams listener.callers.length listener.settle ∧
      listener.settle.callers.length = listener.callers.length ∧
      listener.settle.phase = .listening ∧ listener.settle.waiting = [] := by
  -- Each own move makes the listener less busy, so it comes to one that is not possible.
  induction size : listener.busyness using Nat.strongRecOn generalizing listener number with
  | _ size ih =>
    subst size
    cases moved : listener.step listener.ownMove with
    | some after =>
      obtain ⟨less, length, still⟩ := tracks.ownMove ended moved
      obtain ⟨reached, goesOn⟩ :=
        tracks.step supplied (ownMove_unstopped listener) moved
      simp only [bytesFrom_ownMove, List.append_nil] at goesOn
      obtain ⟨served, all, phase, nobody⟩ := ih after.busyness less goesOn still rfl
      rw [Listener.settle, moved]
      simp only [if_pos less]
      rw [length] at served all
      exact ⟨served, all, phase, nobody⟩
    | none =>
      obtain ⟨phase, nobody, rfl⟩ := tracks.of_no_move moved
      rw [Listener.settle, moved]
      exact ⟨tracks, rfl, phase, nobody⟩

/-- A listener that listens has done with all callers that it tracks. -/
theorem Tracks.of_listening (tracks : Tracks origin streams number listener)
    (phase : listener.phase = .listening) :
    listener.store = storeBefore origin streams number ∧
      ∀ caller < number, listener.connection? caller =
        some ⟨[], (repliesTo origin streams caller).reverse⟩ := by
  cases tracks with
  | idle queue _ store =>
    refine ⟨store, fun caller below => ?_⟩
    unfold connection?
    rw [queue.finished caller below]
    rfl
  | busy queue busy => rcases busy with busy | busy <;> exact nomatch phase.symm.trans busy

end WireStore.Listener
