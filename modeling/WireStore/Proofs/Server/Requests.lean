import WireStore.Proofs.Frame.Replies
import WireStore.Proofs.Frame.Requests
import WireStore.Proofs.Server.Arrivals

/-!
# Requests at a server

A server that has enough memory for every value shorter than some bound, and
admits headers of thirty-eight octets, answers each request written for it as
the partial map of its bindings does, values beyond its limit refused. This is
said of one move, of a connection served from beginning to end, and of one that
is under way.
-/

namespace WireStore

namespace Bindings

/-- The reply to a request of a server that keeps no value longer than `maxSize`, and the map
after it. -/
def carryOut (maxSize : Nat) (bindings : Bindings) (request : Request) : Reply × Bindings :=
  if maxSize < request.size then (.error "malformed command", bindings)
  else bindings.execute request

/-- The replies to requests one after another, and the map after them. -/
def carryOutAll (maxSize : Nat) (bindings : Bindings) : List Request → List Reply × Bindings
  | [] => ([], bindings)
  | request :: others =>
    let (reply, changed) := bindings.carryOut maxSize request
    let (replies, last) := carryOutAll maxSize changed others
    (reply :: replies, last)

/-- Holds of maps whose values are all shorter than `bound`. -/
def Below (bound : Nat) (bindings : Bindings) : Prop :=
  ∀ key value, bindings key = some value → value.length < bound

variable {bindings : Bindings} {request : Request} {bound : Nat}

theorem answer_judged (bindings : Bindings) (request : Request) (limits : Limits) :
    bindings.answer (request.judged limits) = bindings.carryOut limits.maxValueSize request := by
  unfold carryOut Request.judged
  split
  next key => rfl
  next => split <;> rfl

/-- The texts with which a request can be refused. -/
def refusals : List String :=
  ["malformed command", "key exists", "size must be > 0", "no such key"]

/-- A request is refused, is answered with the value of a key, or changes the binding of one key,
to the value that it carries or to none. -/
theorem carryOut_cases (maxSize : Nat) (bindings : Bindings) (request : Request) :
    (∃ text ∈ refusals, bindings.carryOut maxSize request = (.error text, bindings)) ∨
      (∃ key value, bindings key = some value ∧
        bindings.carryOut maxSize request = (.value value, bindings)) ∨
      ∃ key changed, (∀ value, changed = some value → value.length = request.size) ∧
        bindings.carryOut maxSize request = (.ok, bindings.set key changed) := by
  by_cases large : maxSize < request.size
  · have refused : bindings.carryOut maxSize request = (.error "malformed command", bindings) := by
      simp only [carryOut, large, if_true]
    exact .inl ⟨"malformed command", by decide, refused⟩
  have carried : bindings.carryOut maxSize request = bindings.execute request := by
    simp only [carryOut, large, if_false]
  rw [carried]
  cases request with
  | create key value =>
    cases found : bindings key with
    | none =>
      have changed : bindings.execute (.create key value) =
          (.ok, bindings.set key (some value)) := by simp only [execute, found]
      exact .inr (.inr ⟨key, some value, fun other same => by cases same; rfl, changed⟩)
    | some old => exact .inl ⟨"key exists", by decide, by simp only [execute, found]⟩
  | update key value =>
    by_cases empty : value = []
    · exact .inl ⟨"size must be > 0", by decide, by simp only [execute, empty, if_true]⟩
    · cases found : bindings key with
      | none =>
        exact .inl ⟨"no such key", by decide, by simp only [execute, empty, found, if_false]⟩
      | some old =>
        have changed : bindings.execute (.update key value) =
            (.ok, bindings.set key (some value)) := by simp only [execute, empty, found, if_false]
        exact .inr (.inr ⟨key, some value, fun other same => by cases same; rfl, changed⟩)
  | read key =>
    cases found : bindings key with
    | none => exact .inl ⟨"no such key", by decide, by simp only [execute, found]⟩
    | some value => exact .inr (.inl ⟨key, value, found, by simp only [execute, found]⟩)
  | delete key =>
    cases found : bindings key with
    | none => exact .inl ⟨"no such key", by decide, by simp only [execute, found]⟩
    | some old =>
      have changed : bindings.execute (.delete key) = (.ok, bindings.set key none) := by
        simp only [execute, found]
      exact .inr (.inr ⟨key, none, by simp, changed⟩)

/-- Carrying out a request whose value is short leaves all values short. -/
theorem below_carryOut (maxSize : Nat) (below : bindings.Below bound)
    (sized : request.size < bound) :
    (bindings.carryOut maxSize request).2.Below bound := by
  rcases carryOut_cases maxSize bindings request with
    ⟨text, -, same⟩ | ⟨key, value, -, same⟩ | ⟨key, changed, carried, same⟩
  · rw [same]
    exact below
  · rw [same]
    exact below
  · rw [same]
    intro other value found
    simp only [set] at found
    split at found
    · rw [carried value found]
      exact sized
    · exact below other value found

/-- The reply to a request can be told from a short line and what follows it. -/
theorem readable_carryOut (maxSize : Nat) (request : Request) (below : bindings.Below bound)
    (small : bound ≤ 2 ^ 63) :
    (bindings.carryOut maxSize request).1.Readable ∧
      (bindings.carryOut maxSize request).1.header.length ≤ 22 := by
  rcases carryOut_cases maxSize bindings request with
    ⟨text, mem, same⟩ | ⟨key, value, found, same⟩ | ⟨key, changed, -, same⟩
  · rw [same]
    have said : ∀ text ∈ refusals, (Utf8.lossy (Utf8.encode text) = text ∧
        Bytes.Unbroken (Utf8.encode text) ∧
        (Utf8.encode text).getLast? ≠ some Bytes.carriageReturn) ∧
        (Reply.error text).header.length ≤ 22 := by decide
    exact said text mem
  · rw [same]
    have short := Nat.lt_of_lt_of_le (below key value found) small
    exact ⟨Nat.lt_trans short (by decide), Reply.length_header_value_le value short⟩
  · rw [same]
    exact ⟨trivial, (by decide : Reply.ok.header.length ≤ 22)⟩

end Bindings

/-- Holds of an end of a connection at which header lines of `headers` octets are admitted and
memory is granted for every value shorter than `bound`. -/
structure Ample (headers bound : Nat) (alloc : Allocator) (limits : Limits) : Prop where
  small : bound ≤ 2 ^ 63
  header : headers ≤ limits.maxHeaderLength
  memory : ∀ size < bound, alloc size = true

variable {alloc : Allocator} {limits : Limits} {bound : Nat} {store changed : Store}
  {source rest : Source} {sink : Sink} {request : Request} {requests : List Request}
  {tail : Bytes} {more : List Signal} {reply : Reply} {replies : List Reply}

/-! ## One request -/

theorem Move.next_of_request (ample : Ample 38 bound alloc limits) (store : Store)
    (sized : request.size < bound)
    (same : source.signals = Signal.octets (request.encode ++ tail) ++ more) :
    ∃ changed after,
      Move.next alloc limits store source =
        (.answer (Bindings.carryOut limits.maxValueSize store.find? request).1 changed, after) ∧
      changed.find? = (Bindings.carryOut limits.maxValueSize store.find? request).2 ∧
      after.signals = Signal.octets tail ++ more := by
  have size := Nat.lt_of_lt_of_le sized ample.small
  have fits := Nat.le_trans (request.length_header_le size) ample.header
  have found := request.of_encode (Nat.lt_trans size (by decide)) fits tail
  have granted : Opening.Granted alloc (request.judged limits) :=
    Request.granted_judged (ample.memory _ sized)
  rw [← Bindings.answer_judged store.find? request limits]
  exact Move.next_of_frame store granted found same

/-! ## A connection from beginning to end -/

/-- Serving a connection on which requests have been written goes through all of them, whatever
is written on it behind them. -/
theorem serve_of_requests (ample : Ample 38 bound alloc limits) (store : Store)
    (sized : ∀ request ∈ requests, request.size < bound)
    (same : source.signals = Signal.octets (requests.flatMap Request.encode) ++ more)
    (reliable : sink.Reliable) :
    ∃ changed rest after,
      serve alloc limits store source sink = serve alloc limits changed rest after ∧
      rest.signals = more ∧
      changed.find? = (Bindings.carryOutAll limits.maxValueSize store.find? requests).2 ∧
      after.Reliable ∧
      after.written = sink.written ++
        (Bindings.carryOutAll limits.maxValueSize store.find? requests).1.flatMap
          Reply.encode := by
  induction requests generalizing store source sink with
  | nil => exact ⟨store, source, sink, rfl, same, rfl, reliable, by simp [Bindings.carryOutAll]⟩
  | cons request others ih =>
    rw [List.flatMap_cons] at same
    obtain ⟨changed, rest, next, bindings, behind⟩ :=
      Move.next_of_request ample store (sized request List.mem_cons_self) same
    obtain ⟨after, written, afterReliable, all⟩ :=
      reliable.write (Bindings.carryOut limits.maxValueSize store.find? request).1
    obtain ⟨last, left, final, goesOn, signals, stored, finalReliable, output⟩ :=
      ih changed (fun other mem => sized other (List.mem_cons_of_mem _ mem)) behind afterReliable
    refine ⟨last, left, final, ?_, signals, ?_, finalReliable, ?_⟩
    · rw [serve_of_answer next written, goesOn]
    · rw [stored, bindings]
      rfl
    · rw [output, all, bindings, List.append_assoc]
      rfl

/-- A client that writes requests and closes its side has each of them answered. -/
theorem serve_of_requests_closed (ample : Ample 38 bound alloc limits) (store : Store)
    (sized : ∀ request ∈ requests, request.size < bound)
    (same : source.signals = Signal.octets (requests.flatMap Request.encode))
    (reliable : sink.Reliable) :
    let served := serve alloc limits store source sink
    let (replies, bindings) := Bindings.carryOutAll limits.maxValueSize store.find? requests
    served.result = .ok () ∧ served.store.find? = bindings ∧
      served.sink.written = sink.written ++ replies.flatMap Reply.encode := by
  rw [← List.append_nil (Signal.octets _)] at same
  obtain ⟨last, left, final, goesOn, signals, stored, -, output⟩ :=
    serve_of_requests ample store sized same reliable
  obtain ⟨after, stops⟩ := @Move.next_of_partial limits left [] .closed alloc last
    Opening.partial_nil signals
  have silent : (sendFarewell final.buffered none).close = final := final.close_buffered
  rw [goesOn, serve_of_stop stops]
  exact ⟨rfl, stored, (congrArg Sink.written silent).trans output⟩

/-! ## A connection under way -/

namespace Connection

theorem advance_of_nothing (alloc : Allocator) (limits : Limits) (store : Store)
    (replies : List Reply) :
    advance alloc limits store ⟨[], replies⟩ = (⟨[], replies⟩, store) := by
  unfold advance
  rw [answerAll_of_partial alloc store replies Opening.partial_nil (signals_arrived [])]
  rfl

/-- A request that arrives where nothing is pending is answered, and nothing is left of it. -/
theorem receive_of_request (ample : Ample 38 bound alloc limits) (store : Store)
    (sized : request.size < bound) (replies : List Reply) :
    ∃ changed,
      receive alloc limits store ⟨[], replies⟩ request.encode =
        (⟨[], (Bindings.carryOut limits.maxValueSize store.find? request).1 :: replies⟩,
          changed) ∧
      changed.find? = (Bindings.carryOut limits.maxValueSize store.find? request).2 := by
  have same := signals_arrived request.encode
  rw [← List.append_nil request.encode] at same
  obtain ⟨changed, rest, next, bindings, behind⟩ := Move.next_of_request ample store sized same
  refine ⟨changed, ?_, bindings⟩
  have nothing : rest.bytes = [] := bytes_of_arrived behind
  unfold receive advance
  rw [List.nil_append, ← List.append_nil request.encode, answerAll_of_answer next,
    answerAll_of_partial alloc changed _ Opening.partial_nil behind]
  simp only [nothing]

end Connection

end WireStore
