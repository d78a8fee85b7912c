import WireStore.Server.Config
import WireStore.Server.Connection

/-!
# Accepting connections

A listener serves its callers one at a time, in the order in which they called.
While one is being served the others wait: what they send is kept for them, and
nothing is answered. A request to stop raises a flag and then places a call of
its own, which wakes a listener that has nobody to serve; the flag is looked at
once for each accepted caller, before anything is read from it, and once for
each attempt to accept one that fails.

`step` says which events are possible and what they do. `settle` lets the
listener make all the moves it can make without hearing from a caller.
-/

namespace WireStore

/-- The near end of one caller's connection. -/
structure Caller where
  /-- What has arrived and what has been replied. -/
  connection : Connection := {}
  /-- The caller has ended its sending side. -/
  ended : Bool := false
  deriving Repr

/-- What a listener is doing. Callers are numbered in the order of their calls. -/
inductive Phase where
  /-- It awaits a call. -/
  | listening
  /-- It has accepted a caller and has yet to look at the flag. -/
  | accepted (caller : Nat)
  | serving (caller : Nat)
  | stopped
  deriving DecidableEq, Repr

/-- A server: what it was started with, its store, and everyone who ever called. -/
structure Listener where
  alloc : Allocator := .unlimited
  limits : Limits := {}
  store : Store := ∅
  callers : List Caller := []
  /-- The callers not yet accepted, first come first. -/
  waiting : List Nat := []
  phase : Phase := .listening
  /-- The flag that asks the listener to stop. -/
  stopping : Bool := false

namespace Listener

/-- What can happen to a listener. -/
inductive Event where
  /-- Somebody calls. -/
  | call
  | send (caller : Nat) (bytes : Bytes)
  /-- A caller ends its sending side. -/
  | hangUp (caller : Nat)
  /-- The caller who has waited longest is accepted. -/
  | accept
  /-- An attempt to accept a caller fails, and the flag is looked at. -/
  | acceptFails
  /-- The flag is looked at. -/
  | decide
  /-- What has arrived from the caller being served is taken in. -/
  | consume
  /-- Somebody asks the listener to stop. -/
  | raiseFlag
  /-- A call is placed for the sake of waking the listener. -/
  | wake
  deriving DecidableEq, Repr

/-- A listener with these settings, if they are admissible. -/
def start (config : Config) (store : Store) (alloc : Allocator) : Except Error Listener :=
  config.validate.map fun _ => { alloc, limits := config.limits, store }

theorem start_eq_ok_iff {config : Config} {store : Store} {alloc : Allocator}
    {listener : Listener} : start config store alloc = .ok listener ↔
      config.validate = .ok () ∧ listener = { alloc, limits := config.limits, store } := by
  unfold start
  cases config.validate <;> simp [Except.map, eq_comm]

/-- A further caller joins the queue. -/
def enqueue (listener : Listener) (caller : Caller) : Listener :=
  { listener with
    callers := listener.callers ++ [caller]
    waiting := listener.waiting ++ [listener.callers.length] }

/-- Changes what is known of one caller. -/
def modifyCaller (listener : Listener) (caller : Nat) (change : Caller → Caller) : Listener :=
  { listener with callers := listener.callers.modify caller change }

/-- The connection of a caller. -/
def connection? (listener : Listener) (caller : Nat) : Option Connection :=
  listener.callers[caller]?.map Caller.connection

/-- Bytes arrive from a caller, whether or not it is being served. -/
def arrive (listener : Listener) (caller : Nat) (bytes : Bytes) : Listener :=
  listener.modifyCaller caller fun entry =>
    { entry with
      connection := { entry.connection with pending := entry.connection.pending ++ bytes } }

/-- Answers what has arrived from the caller being served, and lets go of it if
it has ended its side. -/
def take (listener : Listener) (number : Nat) (caller : Caller) : Listener :=
  let (connection, store) :=
    caller.connection.advance listener.alloc listener.limits listener.store
  if caller.ended then
    let last := connection.close listener.alloc listener.limits store
    { listener with
      store
      callers := listener.callers.modify number ({ · with connection := last })
      phase := .listening }
  else
    { listener with
      store
      callers := listener.callers.modify number ({ · with connection := connection }) }

/-- The listener after an event, if the event is possible. -/
def step (listener : Listener) : Event → Option Listener
  | .call => some (listener.enqueue {})
  | .send number bytes =>
    match listener.callers[number]? with
    | some caller => if caller.ended then none else some (listener.arrive number bytes)
    | none => none
  | .hangUp number =>
    match listener.callers[number]? with
    | some caller =>
      if caller.ended then none
      else some (listener.modifyCaller number ({ · with ended := true }))
    | none => none
  | .accept =>
    match listener.phase, listener.waiting with
    | .listening, number :: waiting => some { listener with waiting, phase := .accepted number }
    | _, _ => none
  | .acceptFails =>
    match listener.phase with
    | .listening =>
      some { listener with phase := if listener.stopping then .stopped else .listening }
    | _ => none
  | .decide =>
    match listener.phase with
    | .accepted number =>
      some { listener with phase := if listener.stopping then .stopped else .serving number }
    | _ => none
  | .consume =>
    match listener.phase with
    | .serving number => listener.callers[number]?.map (listener.take number)
    | _ => none
  | .raiseFlag => some { listener with stopping := true }
  | .wake =>
    if listener.waiting.isEmpty then some (listener.enqueue { ended := true }) else some listener

/-- What each event asks of a listener, and what it makes of it. -/
inductive Stepped (listener : Listener) : Event → Listener → Prop where
  | call : Stepped listener .call (listener.enqueue {})
  | send {number : Nat} {caller : Caller} (bytes : Bytes)
      (known : listener.callers[number]? = some caller) (sending : caller.ended = false) :
      Stepped listener (.send number bytes) (listener.arrive number bytes)
  | hangUp {number : Nat} {caller : Caller} (known : listener.callers[number]? = some caller)
      (sending : caller.ended = false) :
      Stepped listener (.hangUp number) (listener.modifyCaller number ({ · with ended := true }))
  | accept {number : Nat} {waiting : List Nat} (phase : listener.phase = .listening)
      (waits : listener.waiting = number :: waiting) :
      Stepped listener .accept { listener with waiting, phase := .accepted number }
  | acceptFails (phase : listener.phase = .listening) :
      Stepped listener .acceptFails
        { listener with phase := if listener.stopping then .stopped else .listening }
  | decide {number : Nat} (phase : listener.phase = .accepted number) :
      Stepped listener .decide
        { listener with phase := if listener.stopping then .stopped else .serving number }
  | consume {number : Nat} {caller : Caller} (phase : listener.phase = .serving number)
      (known : listener.callers[number]? = some caller) :
      Stepped listener .consume (listener.take number caller)
  | raiseFlag : Stepped listener .raiseFlag { listener with stopping := true }
  | wake (nobody : listener.waiting = []) :
      Stepped listener .wake (listener.enqueue { ended := true })
  | wakeInVain (somebody : listener.waiting ≠ []) : Stepped listener .wake listener

theorem stepped_of_step {listener after : Listener} {event : Event}
    (happened : listener.step event = some after) : listener.Stepped event after := by
  cases event with
  | call =>
    cases happened
    exact .call
  | send number bytes =>
    simp only [step] at happened
    split at happened
    next caller known =>
      split at happened
      · cases happened
      next sending =>
        cases happened
        exact .send bytes known (by simpa using sending)
    · cases happened
  | hangUp number =>
    simp only [step] at happened
    split at happened
    next caller known =>
      split at happened
      · cases happened
      next sending =>
        cases happened
        exact .hangUp known (by simpa using sending)
    · cases happened
  | accept =>
    simp only [step] at happened
    split at happened
    next number waiting phase waits =>
      cases happened
      exact .accept phase waits
    · cases happened
  | acceptFails =>
    simp only [step] at happened
    split at happened
    next phase =>
      cases happened
      exact .acceptFails phase
    · cases happened
  | decide =>
    simp only [step] at happened
    split at happened
    next number phase =>
      cases happened
      exact .decide phase
    · cases happened
  | consume =>
    simp only [step] at happened
    split at happened
    next number phase =>
      obtain ⟨caller, known, rfl⟩ := Option.map_eq_some_iff.mp happened
      exact .consume phase known
    · cases happened
  | raiseFlag =>
    cases happened
    exact .raiseFlag
  | wake =>
    simp only [step] at happened
    split at happened
    next nobody =>
      cases happened
      exact .wake (by simpa using nobody)
    next somebody =>
      cases happened
      exact .wakeInVain (by simpa using somebody)

/-- The listener after a run of events, if each was possible in its turn. -/
def run (listener : Listener) (events : List Event) : Option Listener :=
  events.foldlM step listener

/-- What every event keeps up is kept up by a run of events. -/
theorem run_keeps {holds : Listener → Prop} {events : List Event} {listener last : Listener}
    (kept : ∀ {listener after : Listener} {event : Event}, holds listener →
      listener.step event = some after → holds after)
    (begun : holds listener) (ran : listener.run events = some last) : holds last := by
  induction events generalizing listener with
  | nil =>
    obtain rfl := Option.some.inj ran
    exact begun
  | cons event events ih =>
    obtain ⟨after, happened, goesOn⟩ := Option.bind_eq_some_iff.mp ran
    exact ih (kept begun happened) goesOn

/-- What a listener does next of its own accord. -/
def ownMove (listener : Listener) : Event :=
  match listener.phase with
  | .listening | .stopped => .accept
  | .accepted _ => .decide
  | .serving _ => .consume

/-- How far a listener is from having nothing to do. -/
def busyness (listener : Listener) : Nat :=
  3 * listener.waiting.length +
    match listener.phase with
    | .listening | .stopped => 0
    | .serving _ => 1
    | .accepted _ => 2

/-- Makes every move that needs no caller. -/
def settle (listener : Listener) : Listener :=
  match listener.step listener.ownMove with
  | none => listener
  | some next => if next.busyness < listener.busyness then next.settle else next
termination_by listener.busyness

theorem settle_of_step {listener after : Listener}
    (moved : listener.step listener.ownMove = some after)
    (less : after.busyness < listener.busyness) : listener.settle = after.settle := by
  rw [settle, moved]
  exact if_pos less

/-- Lets an event happen, if it can, and then everything that follows from it. -/
def react (listener : Listener) (event : Event) : Listener :=
  ((listener.step event).getD listener).settle

/-- One caller from beginning to end: a call, some bytes, and the end of them.
Gives what the caller is answered. -/
def visit (listener : Listener) (bytes : Bytes) : Bytes × Listener :=
  let caller := listener.callers.length
  let after := ((listener.react .call).react (.send caller bytes)).react (.hangUp caller)
  (((after.connection? caller).map Connection.output).getD [], after)

/-- How a listener is asked to stop: the flag first, then the call that wakes it. -/
def shutdown : List Event := [.raiseFlag, .wake]

end Listener

end WireStore
