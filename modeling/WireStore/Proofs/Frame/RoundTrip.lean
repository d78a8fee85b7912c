import WireStore.Proofs.Frame.Memory
import WireStore.Proofs.Frame.Replies
import WireStore.Proofs.Frame.Requests
import WireStore.Proofs.Stream.Taking

/-!
# Frames written one after another

Requests written one after another are read back one by one, and so are replies:
no byte of a payload is taken for part of a header, and where the last frame ends
the next reader begins. `Incoming.outcomes_of_requests` says what a server makes of
each request; `Reply.outcomes_of_replies` says that a client gets the replies that
were written, whatever texts of errors are among them, and then finds the source
at its end.
-/

namespace WireStore

variable {alloc : Allocator} {limits : Limits} {source : Source}

namespace Incoming

variable {request : Request} {requests : List Request} {tail : List Signal}

/-- A request that is written is taken for what a reader with these limits makes of it. -/
theorem takes_encode (sized : request.size < Numeral.sizeBound)
    (fits : request.header.length ≤ limits.maxHeaderLength)
    (memory : alloc request.size = true) :
    Reader.Takes (read alloc limits) request.encode
      (.ok (ofOutcome (request.judged limits))) := by
  intro source more same
  have found := request.of_encode sized fits []
  rw [List.append_nil] at found
  exact read_of_frame (Request.granted_judged memory) found same

/-- A frame is read whether it is a request or is refused, and reading goes on after it. -/
theorem goesOn_ofOutcome (resumed : Bool) (outcome : Except Error Request) :
    goesOn resumed (.ok (ofOutcome outcome)) = true := by
  cases outcome <;> rfl

/-- Requests that are written one after another are found one by one, as they were written but
for two rules: an update to nothing is refused, and so is a value beyond the limit. What is behind
the last of them, whatever it is, is left. -/
theorem outcomes_of_requests (resumed : Bool)
    (sized : ∀ request ∈ requests, request.size < Numeral.sizeBound)
    (fits : ∀ request ∈ requests, request.header.length ≤ limits.maxHeaderLength)
    (memory : ∀ request ∈ requests, alloc request.size = true)
    (same : source.signals = Signal.octets (requests.flatMap Request.encode) ++ tail) :
    let readings := Reader.outcomes (read alloc limits) (goesOn resumed) requests.length source
    readings.map Prod.fst =
        requests.map (fun request => .ok (ofOutcome (request.judged limits))) ∧
      ((readings.map Prod.snd).getLastD source).signals = tail := by
  have takes : ∀ request ∈ requests, Reader.Takes (read alloc limits) request.encode
      (.ok (ofOutcome (request.judged limits))) := fun request mem =>
    takes_encode (sized request mem) (fits request mem) (memory request mem)
  obtain ⟨readings, last, read, results, ends, left⟩ :=
    Reader.outcomes_of_takes takes (fun request _ => goesOn_ofOutcome resumed _) same
  have all : Reader.outcomes (Incoming.read alloc limits) (goesOn resumed) requests.length source =
      readings := (read 0).trans (List.append_nil readings)
  rw [all]
  refine ⟨results, ?_⟩
  rw [ends]
  exact left

/-- Two requests that carry what looks like further requests, one of them too large, and an update
to nothing between them, with less than a request behind them. -/
theorem outcomes_of_requests_inside_values :
    let limits : Limits := { maxValueSize := 7, maxHeaderLength := 38 }
    let requests : List Request :=
      [.create (-1) (Utf8.encode "READ 1\n"), .update 2 [], .update 3 (Utf8.encode "DELETE 2\n")]
    let source : Source :=
      .ofBytes (requests.flatMap Request.encode ++ Utf8.encode "REA")
    let readings := Reader.outcomes (read .unlimited limits) (goesOn false) 3 source
    readings.map Prod.fst =
        [.ok (.request (.create (-1) (Utf8.encode "READ 1\n"))), .ok (.rejected .emptyUpdate),
          .ok (.rejected .malformed)] ∧
      ((readings.map Prod.snd).getLastD source).signals = Signal.octets (Utf8.encode "REA") := by
  intro limits requests source readings
  have sized : ∀ request ∈ requests, request.size < Numeral.sizeBound := by decide
  have memory : ∀ request ∈ requests, Allocator.unlimited request.size = true := by decide
  have short : ∀ request ∈ requests, request.size < 2 ^ 63 := by decide
  have fits : ∀ request ∈ requests, request.header.length ≤ limits.maxHeaderLength :=
    fun request mem => request.length_header_le (short request mem)
  have same : source.signals = Signal.octets (requests.flatMap Request.encode) ++
      Signal.octets (Utf8.encode "REA") := by
    rw [← Signal.octets_append]
    exact List.append_nil _
  obtain ⟨results, left⟩ := outcomes_of_requests false sized fits memory same
  exact ⟨results, left⟩

end Incoming

namespace Reply

variable {reply : Reply} {replies : List Reply}

/-- Holds of replies that are read as they were written by a client with these limits. -/
inductive Legible (limits : Limits) : Reply → Prop where
  | ok : Legible limits .ok
  | value (content : Bytes) (kept : content.length ≤ limits.maxValueSize)
      (sized : content.length < Numeral.sizeBound) : Legible limits (.value content)
  /-- Whatever the error says, and in whatever characters. -/
  | ofError (error : Error) : Legible limits (.ofError error)
  | error (text : String) (oneLine : '\n' ∉ text.toList)
      (clean : text.toList.getLast? ≠ some '\r') : Legible limits (.error text)

/-- A text is told from its line if it has no line end in it and none at its end. -/
theorem readable_error {text : String} (oneLine : '\n' ∉ text.toList)
    (clean : text.toList.getLast? ≠ some '\r') : (error text).Readable := by
  refine ⟨Utf8.lossy_encode text, fun mem => ?_, fun last => ?_⟩
  · exact oneLine (Utf8.mem_toList_of_ascii mem (by decide))
  · exact clean (Utf8.getLast?_toList_of_ascii last (by decide))

/-- A flattened message is on one line. -/
theorem not_mem_flatten {char : Char} (breaks : char = '\r' ∨ char = '\n') (message : String) :
    char ∉ (flatten message).toList := by
  rw [flatten, String.toList_ofList]
  intro mem
  obtain ⟨old, -, new⟩ := List.mem_map.mp mem
  split at new
  · rcases breaks with rfl | rfl <;> exact absurd new (by decide)
  next clean => exact clean (new ▸ breaks)

theorem Legible.readable (legible : reply.Legible limits) : reply.Readable := by
  cases legible with
  | ok => trivial
  | value content kept sized => exact sized
  | ofError error =>
    refine readable_error (not_mem_flatten (.inr rfl) error.message) fun last => ?_
    exact not_mem_flatten (.inl rfl) error.message (List.mem_of_getLast? last)
  | error text oneLine clean => exact readable_error oneLine clean

theorem Legible.received (legible : reply.Legible limits)
    (memory : ∀ content, reply = .value content → alloc content.length = true) :
    reply.received alloc limits = .ok reply := by
  cases legible with
  | value content kept sized =>
    simp only [Reply.received, Nat.not_lt_of_le kept, memory content rfl, if_true, if_false]
  | ok | ofError error | error text oneLine clean => rfl

/-- Reading goes on after a reply, and after an error that leaves the source between two. -/
def goesOn : Except Error Reply → Bool
  | .ok _ => true
  | .error reason => !reason.isTransport

theorem goesOn_received (alloc : Allocator) (limits : Limits) (reply : Reply) :
    goesOn (reply.received alloc limits) = true := by
  unfold received
  split
  · split
    · rfl
    · split <;> rfl
  · rfl

theorem read_of_end (alloc : Allocator) (limits : Limits) (same : source.signals = []) :
    (read alloc limits source).1 = .error .connectionClosed := by
  have unbroken : Bytes.Unbroken [] := List.not_mem_nil
  have ended := Line.read_of_end limits.maxHeaderLength unbroken same
  unfold read
  rcases line : Line.read limits.maxHeaderLength source with ⟨result, rest⟩
  rw [line] at ended
  obtain rfl : result = .ok .ended := ended
  rfl

theorem Legible.takes (legible : reply.Legible limits)
    (fits : reply.header.length ≤ limits.maxHeaderLength)
    (memory : ∀ content, reply = .value content → alloc content.length = true) :
    Reader.Takes (read alloc limits) reply.encode (.ok reply) := by
  intro source more here
  rw [← legible.received memory]
  exact read_of_encode alloc legible.readable fits here

/-- A reader of replies that takes one after another finds the end behind the last of them, and
stops there. -/
theorem outcomes_to_end (further : Nat)
    (takes : ∀ reply ∈ replies, Reader.Takes (read alloc limits) reply.encode (.ok reply))
    (same : source.signals = Signal.octets (replies.flatMap Reply.encode)) :
    (Reader.outcomes (read alloc limits) goesOn (replies.length + (further + 1)) source).map
        Prod.fst =
      replies.map .ok ++ [.error .connectionClosed] := by
  rw [← List.append_nil (Signal.octets _)] at same
  have goes : ∀ reply ∈ replies, goesOn (.ok reply) = true := fun reply _ => rfl
  obtain ⟨readings, last, readAll, results, -, left⟩ := Reader.outcomes_of_takes takes goes same
  rcases closed : read alloc limits last with ⟨result, rest⟩
  have ended := read_of_end alloc limits left
  rw [closed] at ended
  obtain rfl : result = .error .connectionClosed := ended
  have stops : goesOn (.error .connectionClosed) = false := rfl
  rw [readAll, List.map_append, results]
  unfold Reader.outcomes
  rw [List.replicate_succ]
  simp only [Reader.inTurn, closed, stops, Bool.false_eq_true, if_false, List.map_cons,
    List.map_nil]

/-- Replies that are written one after another are read as they were written, and then the source
is found at its end, where reading stops. -/
theorem outcomes_of_replies (further : Nat)
    (legible : ∀ reply ∈ replies, reply.Legible limits)
    (fits : ∀ reply ∈ replies, reply.header.length ≤ limits.maxHeaderLength)
    (memory : ∀ content, .value content ∈ replies → alloc content.length = true)
    (same : source.signals = Signal.octets (replies.flatMap Reply.encode)) :
    (Reader.outcomes (read alloc limits) goesOn (replies.length + (further + 1)) source).map
        Prod.fst =
      replies.map .ok ++ [.error .connectionClosed] := by
  refine outcomes_to_end further (fun reply mem => ?_) same
  refine (legible reply mem).takes (fits reply mem) fun content carried => ?_
  exact memory content (carried ▸ mem)

/-- A value that looks like a reply, an error whose message has line ends and a letter beyond
ASCII, one without a message and one whose message looks like a reply. -/
theorem outcomes_of_replies_alike :
    let replies : List Reply :=
      [.value (Utf8.encode "OK\n"), .ofError (.io ⟨.other, "\u00E9\r\nOK 3\n"⟩), .error "",
        .error "ERR OK", .ok]
    let source : Source := .ofBytes (replies.flatMap Reply.encode)
    (Reader.outcomes (read .unlimited {}) goesOn 9 source).map Prod.fst =
      [.ok (.value (Utf8.encode "OK\n")), .ok (.error "IO error: \u00E9  OK 3 "), .ok (.error ""),
        .ok (.error "ERR OK"), .ok .ok, .error .connectionClosed] := by
  intro replies source
  have legible : ∀ reply ∈ replies, reply.Legible {} := by
    intro reply mem
    simp only [replies, List.mem_cons, List.not_mem_nil, or_false] at mem
    rcases mem with rfl | rfl | rfl | rfl | rfl
    · exact .value _ (by decide) (by decide)
    · exact .ofError _
    · exact .error _ (by decide) (by decide)
    · exact .error _ (by decide) (by decide)
    · exact .ok
  have fits : ∀ reply ∈ replies, reply.header.length ≤ 4096 := by
    intro reply mem
    simp only [replies, List.mem_cons, List.not_mem_nil, or_false] at mem
    rcases mem with rfl | rfl | rfl | rfl | rfl
    · exact Nat.le_trans (length_header_value_le _ (by decide)) (by decide)
    all_goals decide
  have memory : ∀ content, .value content ∈ replies →
      Allocator.unlimited content.length = true := by
    intro content mem
    obtain rfl : content = Utf8.encode "OK\n" := by simpa [replies, ofError] using mem
    decide
  have same : source.signals = Signal.octets (replies.flatMap Reply.encode) := List.append_nil _
  have flat : ofError (.io ⟨.other, "\u00E9\r\nOK 3\n"⟩) = .error "IO error: \u00E9  OK 3 " := by
    decide
  refine (outcomes_of_replies 3 legible fits memory same).trans ?_
  simp only [replies, flat, List.map_cons, List.map_nil, List.cons_append, List.nil_append]

end Reply

end WireStore
