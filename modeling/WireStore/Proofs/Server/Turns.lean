import WireStore.Proofs.Frame.Requests
import WireStore.Proofs.Server.Requests
import WireStore.Proofs.Server.Transcript
import WireStore.Server.Config

/-!
# The turns of a connection

What a server does on a connection is a row of turns: it reads a header line,
reads or skips what it takes to be its payload, and replies. The last turn finds
no request and is often silent. `turns` records all of them, and the replies in
it are those that are written (`written_serve_eq_turns`).

Requests that a client writes are answered turn by turn (`turns_of_requests`),
and each turn takes the bytes of one request, if the header of every request that
carries a non-empty value is within the limit: a line beyond the limit is skipped
by itself, for what it announces is not looked at. A header beyond the limit
with nothing behind it does no harm.
-/

namespace WireStore

/-- The bytes that were taken off a source to leave `rest` of it. -/
def Source.takenTo (source rest : Source) : Bytes :=
  source.bytes.take (source.size - rest.size)

/-- One turn of a server. -/
structure Turn where
  /-- The bytes read as a header line, those of a line that is skipped included. -/
  line : Bytes
  /-- The bytes read or skipped behind it. -/
  payload : Bytes
  reply : Option Reply
  deriving DecidableEq, Repr

/-- The turn in which a server goes from one source to another. -/
def Turn.of (limits : Limits) (source rest : Source) (reply : Option Reply) : Turn :=
  let behind := (Line.read limits.maxHeaderLength source).2
  ⟨source.takenTo behind, behind.takenTo rest, reply⟩

/-- The turns of a server on one connection. -/
def turns (alloc : Allocator) (limits : Limits) (store : Store) (source : Source)
    (out : Buffered) : List Turn :=
  match _ : Move.next alloc limits store source with
  | (.stop farewell _, rest) => [Turn.of limits source rest farewell]
  | (.answer reply changed, rest) =>
    Turn.of limits source rest (some reply) ::
      match reply.write out with
      | (.ok (), after) => turns alloc limits changed rest after
      | (.error _, _) => []
termination_by source.size
decreasing_by exact Move.size_next_lt ‹_›

variable {alloc : Allocator} {limits : Limits} {store changed : Store} {source rest : Source}
  {out after : Buffered} {sink : Sink} {request : Request} {requests : List Request}
  {reply : Reply} {tail : Bytes} {more : List Signal}

theorem turns_of_stop {farewell : Option Reply} {result : Except Error Unit}
    (next : Move.next alloc limits store source = (.stop farewell result, rest)) :
    turns alloc limits store source out = [Turn.of limits source rest farewell] := by
  rw [turns]
  split
  next next' =>
    obtain ⟨⟨rfl, -⟩, rfl⟩ := by simpa using next.symm.trans next'
    rfl
  next next' => cases next.symm.trans next'

theorem turns_of_answer
    (next : Move.next alloc limits store source = (.answer reply changed, rest))
    (written : reply.write out = (.ok (), after)) :
    turns alloc limits store source out =
      Turn.of limits source rest (some reply) :: turns alloc limits changed rest after := by
  rw [turns]
  split
  next next' => cases next.symm.trans next'
  next next' =>
    obtain ⟨⟨rfl, rfl⟩, rfl⟩ := by simpa using next.symm.trans next'
    rw [written]

/-- On a sink that takes everything, what is written is the replies of the turns. -/
theorem written_serve_eq_turns (alloc : Allocator) (limits : Limits) (store : Store)
    (source : Source) (reliable : sink.Reliable) :
    (serve alloc limits store source sink).sink.written =
      sink.written ++
        ((turns alloc limits store source sink.buffered).filterMap Turn.reply).flatMap
          Reply.encode := by
  induction size : source.size using Nat.strongRecOn generalizing store source sink with
  | _ size ih =>
    subst size
    rcases next : Move.next alloc limits store source with ⟨_ | _, rest⟩
    next reply changed =>
      obtain ⟨after, written, afterReliable, all⟩ := reliable.write reply
      have later := ih rest.size (Move.size_next_lt next) changed rest afterReliable rfl
      rw [serve_of_answer next written, turns_of_answer next written, later, all]
      simp [Turn.of]
    next farewell result =>
      rw [serve_of_stop next, turns_of_stop next]
      cases farewell <;> simp [written_sendFarewell reliable, Turn.of]

/-! ## The turn of one request -/

namespace Source

theorem takenTo_of_signals {front : Bytes}
    (same : source.signals = Signal.octets front ++ more) (left : rest.signals = more) :
    source.takenTo rest = front := by
  have whole : source.bytes = front ++ rest.bytes := bytes_of_signals (left ▸ same)
  have count : source.size - rest.size = front.length := by
    rw [← length_bytes, ← length_bytes, whole, List.length_append]
    omega
  unfold takenTo
  rw [count, whole, List.take_left]

theorem takenTo_of_size (nothing : source.size = 0) (rest : Source) :
    source.takenTo rest = [] := by
  unfold takenTo
  rw [nothing, Nat.zero_sub, List.take_zero]

end Source

theorem Turn.of_end (limits : Limits) (same : source.signals = []) (rest : Source)
    (reply : Option Reply) : Turn.of limits source rest reply = ⟨[], [], reply⟩ := by
  have nothing : source.size = 0 := by
    rw [← Source.length_bytes, Source.bytes_eq_signals, same]
    rfl
  have behind : (Line.read limits.maxHeaderLength source).2.size = 0 :=
    Nat.eq_zero_of_le_zero (nothing ▸ Line.size_read_le limits.maxHeaderLength source)
  simp only [Turn.of, Source.takenTo_of_size nothing, Source.takenTo_of_size behind]

namespace Request

/-- What a server with these limits makes of a request: one whose header is beyond the limit is
refused. -/
def outcome (limits : Limits) (request : Request) : Except Error Request :=
  if limits.maxHeaderLength < request.header.length then .error .malformed
  else request.judged limits

theorem granted_outcome (memory : alloc request.size = true) :
    Opening.Granted alloc (request.outcome limits) := by
  unfold outcome
  split
  · exact fun _ _ same => nomatch same
  · exact granted_judged memory

/-- A request that is written is found, and what follows it is left, if its header is within the
limit or nothing stands behind it. -/
theorem of_encode_outcome (request : Request) (sized : request.size < Numeral.sizeBound)
    (fits : request.size ≠ 0 → request.header.length ≤ limits.maxHeaderLength) (tail : Bytes) :
    Opening.of limits (request.encode ++ tail) = .frame (request.outcome limits) tail := by
  unfold outcome
  split
  next long =>
    have empty : request.value?.getD [] = [] := by
      refine List.eq_nil_of_length_eq_zero (Decidable.byContradiction fun filled => ?_)
      exact Nat.not_le_of_lt long (fits filled)
    rw [of_encode_line, empty, List.nil_append]
    simp only [Opening.ofLine, long, if_true]
  next short => exact request.of_encode sized (Nat.le_of_not_lt short) tail

end Request

/-- A turn that takes the bytes of a request takes its header for a header line, and its value
for the payload. -/
theorem Turn.of_request (limits : Limits)
    (same : source.signals = Signal.octets request.encode ++ more) (left : rest.signals = more)
    (reply : Option Reply) :
    Turn.of limits source rest reply =
      ⟨request.header ++ [Bytes.lineFeed], request.value?.getD [], reply⟩ := by
  have unbroken : Bytes.Unbroken request.header :=
    Bytes.unbroken_of_printable request.printable_header
  rw [Request.encode, Signal.octets_append, Signal.octets_cons, List.append_assoc,
    List.cons_append] at same
  obtain ⟨behind, read, payload⟩ := Line.read_of_line limits.maxHeaderLength unbroken same
  have line : source.signals = Signal.octets (request.header ++ [Bytes.lineFeed]) ++
      (Signal.octets (request.value?.getD []) ++ more) := by
    rw [same, Signal.octets_append, List.append_assoc]
    rfl
  unfold Turn.of
  rw [read]
  simp only [Source.takenTo_of_signals line payload, Source.takenTo_of_signals payload left]

/-- A request is answered in a turn that takes its bytes, and no others. -/
theorem Move.next_of_written (store : Store) (sized : request.size < Numeral.sizeBound)
    (fits : request.size ≠ 0 → request.header.length ≤ limits.maxHeaderLength)
    (memory : alloc request.size = true)
    (same : source.signals = Signal.octets (request.encode ++ tail) ++ more) :
    ∃ changed rest,
      Move.next alloc limits store source =
        (.answer (Bindings.answer store.find? (request.outcome limits)).1 changed, rest) ∧
      changed.find? = (Bindings.answer store.find? (request.outcome limits)).2 ∧
      rest.signals = Signal.octets tail ++ more ∧
      ∀ reply, Turn.of limits source rest reply =
        ⟨request.header ++ [Bytes.lineFeed], request.value?.getD [], reply⟩ := by
  have found := request.of_encode_outcome sized fits tail
  have granted : Opening.Granted alloc (request.outcome limits) :=
    Request.granted_outcome memory
  obtain ⟨changed, rest, next, bindings, behind⟩ := Move.next_of_frame store granted found same
  rw [Signal.octets_append, List.append_assoc] at same
  exact ⟨changed, rest, next, bindings, behind, Turn.of_request limits same behind⟩

/-! ## The turns of requests -/

namespace Bindings

/-- The turns of a server to which requests are written, and the map after them. -/
def turns (limits : Limits) (bindings : Bindings) : List Request → List Turn × Bindings
  | [] => ([⟨[], [], none⟩], bindings)
  | request :: others =>
    let (reply, changed) := bindings.answer (request.outcome limits)
    let (later, last) := turns limits changed others
    (⟨request.header ++ [Bytes.lineFeed], request.value?.getD [], some reply⟩ :: later, last)

theorem parts_turns (limits : Limits) (bindings : Bindings) (requests : List Request) :
    (turns limits bindings requests).1.map (fun turn => (turn.line, turn.payload)) =
      requests.map (fun request => (request.header ++ [Bytes.lineFeed], request.value?.getD [])) ++
        [([], [])] := by
  induction requests generalizing bindings with
  | nil => rfl
  | cons request others ih =>
    simp only [turns, List.map_cons, List.cons_append]
    rw [ih]

theorem length_replies_turns (limits : Limits) (bindings : Bindings) (requests : List Request) :
    ((turns limits bindings requests).1.filterMap Turn.reply).length = requests.length := by
  induction requests generalizing bindings with
  | nil => rfl
  | cons request others ih =>
    simp only [turns, List.filterMap_cons, List.length_cons]
    rw [ih]

end Bindings

/-- A server to which requests are written takes one turn for each, and one more at the end of
the source. -/
theorem turns_of_requests (store : Store)
    (sized : ∀ request ∈ requests, request.size < Numeral.sizeBound)
    (fits : ∀ request ∈ requests, request.size ≠ 0 →
      request.header.length ≤ limits.maxHeaderLength)
    (memory : ∀ request ∈ requests, alloc request.size = true)
    (arrives : source.signals = Signal.octets (requests.flatMap Request.encode))
    (reliable : sink.Reliable) :
    turns alloc limits store source sink.buffered = (Bindings.turns limits store.find? requests).1 ∧
      (serve alloc limits store source sink).result = .ok () ∧
      (serve alloc limits store source sink).store.find? =
        (Bindings.turns limits store.find? requests).2 := by
  induction requests generalizing store source sink with
  | nil =>
    obtain ⟨rest, stops⟩ := @Move.next_of_partial limits source [] .closed alloc store
      Opening.partial_nil arrives
    rw [serve_of_stop stops, turns_of_stop stops, Turn.of_end limits arrives]
    exact ⟨rfl, rfl, rfl⟩
  | cons request others ih =>
    rw [List.flatMap_cons, ← List.append_nil (Signal.octets _)] at arrives
    obtain ⟨changed, rest, next, bindings, behind, turn⟩ :=
      Move.next_of_written store (sized request List.mem_cons_self)
        (fits request List.mem_cons_self) (memory request List.mem_cons_self) arrives
    rw [List.append_nil] at behind
    obtain ⟨after, written, afterReliable, -⟩ :=
      reliable.write (Bindings.answer store.find? (request.outcome limits)).1
    -- the others are written where the turn of the first left the source
    obtain ⟨later, result, stored⟩ := ih changed
      (fun other mem => sized other (List.mem_cons_of_mem _ mem))
      (fun other mem => fits other (List.mem_cons_of_mem _ mem))
      (fun other mem => memory other (List.mem_cons_of_mem _ mem)) behind afterReliable
    rw [bindings] at later stored
    rw [serve_of_answer next written, turns_of_answer next written, turn, later]
    exact ⟨rfl, result, stored⟩

/-- Holds if a server and the client that wrote these requests agree on where each begins and
ends, and the client gets a reply to each. -/
structure Aligned (alloc : Allocator) (limits : Limits) (store : Store) (requests : List Request)
    (source : Source) (sink : Sink) : Prop where
  result : (serve alloc limits store source sink).result = .ok ()
  written : (serve alloc limits store source sink).sink.written =
    sink.written ++
      ((turns alloc limits store source sink.buffered).filterMap Turn.reply).flatMap Reply.encode
  replies : ((turns alloc limits store source sink.buffered).filterMap Turn.reply).length =
    requests.length
  /-- The server takes the headers for header lines and the values for payloads, and then finds
  the end. -/
  parts : (turns alloc limits store source sink.buffered).map
      (fun turn => (turn.line, turn.payload)) =
    requests.map (fun request => (request.header ++ [Bytes.lineFeed], request.value?.getD [])) ++
      [([], [])]

/-- Every request is answered, and no byte of a value is read as part of a header, if the header
of each request that carries a non-empty value is within the limit. -/
theorem aligned_of_headers_within_limit (store : Store)
    (sized : ∀ request ∈ requests, request.size < 2 ^ 63)
    (fits : ∀ request ∈ requests, request.size ≠ 0 →
      request.header.length ≤ limits.maxHeaderLength)
    (memory : ∀ request ∈ requests, alloc request.size = true)
    (arrives : source.signals = Signal.octets (requests.flatMap Request.encode))
    (reliable : sink.Reliable) : Aligned alloc limits store requests source sink := by
  have bounded : ∀ request ∈ requests, request.size < Numeral.sizeBound :=
    fun request mem => Nat.lt_trans (sized request mem) (by decide)
  obtain ⟨taken, result, -⟩ := turns_of_requests store bounded fits memory arrives reliable
  have written := written_serve_eq_turns alloc limits store source reliable
  refine ⟨result, written, ?_, ?_⟩
  · rw [taken, Bindings.length_replies_turns]
  · rw [taken, Bindings.parts_turns]

/-- A header exactly at the limit with a value that looks like a request, and a header beyond the
limit with nothing behind it. -/
theorem aligned_of_header_at_limit :
    let limits : Limits := { maxHeaderLength := 10 }
    let requests : List Request :=
      [.create 7 (Utf8.encode "DELETE 1\n"), .delete (-2000000000), .read 7]
    let source : Source := .ofBytes (requests.flatMap Request.encode)
    requests.map (fun request => request.header.length) = [10, 18, 6] ∧
      Aligned .unlimited limits ∅ requests source {} := by
  intro limits requests source
  have lengths : requests.map (fun request => request.header.length) = [10, 18, 6] := by
    decide +kernel
  have sized : ∀ request ∈ requests, request.size < 2 ^ 63 := by decide
  have fits : ∀ request ∈ requests, request.size ≠ 0 →
      request.header.length ≤ limits.maxHeaderLength := by decide +kernel
  have memory : ∀ request ∈ requests, Allocator.unlimited request.size = true := by decide
  have arrives : source.signals = Signal.octets (requests.flatMap Request.encode) :=
    List.append_nil _
  have reliable : Sink.Reliable {} := ⟨rfl, nofun, rfl⟩
  exact ⟨lengths, aligned_of_headers_within_limit ∅ sized fits memory arrives reliable⟩

/-- With settings that are accepted, a header of ten octets is skipped where eight are allowed,
and the value behind it is carried out as a request: it removes a binding. -/
theorem not_aligned_of_header_beyond_limit :
    let config : Config := { limits := { maxHeaderLength := 8 } }
    let store : Store := ⟨[(1, [97])], by decide⟩
    let requests : List Request := [.create 7 (Utf8.encode "DELETE 1\n")]
    let source : Source := .ofBytes (requests.flatMap Request.encode)
    config.validate = .ok () ∧ (∀ request ∈ requests, request.size < 2 ^ 63) ∧
      (∀ request ∈ requests, Allocator.unlimited request.size = true) ∧
      turns .unlimited config.limits store source (Sink.buffered {}) =
        [⟨Utf8.encode "CREATE 7 9\n", [], some (.error "malformed command")⟩,
          ⟨Utf8.encode "DELETE 1\n", [], some .ok⟩, ⟨[], [], none⟩] ∧
      store.find? 1 = some [97] ∧
      (serve .unlimited config.limits store source {}).store.find? 1 = none ∧
      ¬Aligned .unlimited config.limits store requests source {} := by
  intro config store requests source
  have turned : turns .unlimited config.limits store source (Sink.buffered {}) =
      [⟨Utf8.encode "CREATE 7 9\n", [], some (.error "malformed command")⟩,
        ⟨Utf8.encode "DELETE 1\n", [], some .ok⟩, ⟨[], [], none⟩] := by
    decide +kernel
  have removed : (serve .unlimited config.limits store source {}).store.find? 1 = none := by
    decide +kernel
  refine ⟨rfl, by decide, by decide, turned, rfl, removed, fun aligned => ?_⟩
  have replies := aligned.replies
  rw [turned] at replies
  exact absurd replies (by decide)

end WireStore
