import Mathlib.Control.Monad.Basic
import WireStore.Loopback.Scripted
import WireStore.Proofs.Client.Refinement
import WireStore.Proofs.Frame.RoundTrip

/-!
# A link that is kept is aligned

A client keeps its link after every error that does not end the stream, so each
of these errors has to leave the source behind the whole reply. They do where
the header line of the reply is within the client's limit, and where nothing
stands behind that line (`replies_aligned`).

A value behind a longer header line is the one exception, and `read_of_readable`
says what becomes of it: the line alone is let by, the error is none that ends
the stream, and the value is `stranded`, to be taken for the replies that
follow (`misaligned_of_long_header`). Limits of twenty-two octets or more leave
no room for it (`stranded_of_genuine`).
-/

namespace WireStore

variable {limits : Limits} {source : Source} {more : List Signal}

namespace Reply

variable {reply : Reply} {turns : List (Allocator × Reply)}

/-- Holds of the replies that a server gives. -/
inductive Genuine : Reply → Prop where
  | ok : Genuine .ok
  | value (content : Bytes) (sized : content.length < 2 ^ 63) : Genuine (.value content)
  | ofError (error : Error) : Genuine (.ofError error)

theorem Genuine.readable (genuine : reply.Genuine) : reply.Readable := by
  cases genuine with
  | ok => trivial
  | value content sized =>
    have bound : 2 ^ 63 ≤ Numeral.sizeBound := by decide
    exact Nat.lt_of_lt_of_le sized bound
  | ofError error =>
    have legible : Legible {} (Reply.ofError error) := .ofError error
    exact legible.readable

/-! ## One reply -/

/-- What a client makes of a reply, whatever the length of its header line. -/
def delivered (alloc : Allocator) (limits : Limits) (reply : Reply) : Except Error Reply :=
  if reply.header.length ≤ limits.maxHeaderLength then reply.received alloc limits
  else .error (.unexpectedReply "header line too long")

/-- What is left of a reply that has been read. -/
def stranded (limits : Limits) (reply : Reply) : Bytes :=
  if reply.header.length ≤ limits.maxHeaderLength then [] else reply.payload

theorem stranded_eq_nil_iff :
    reply.stranded limits = [] ↔
      reply.header.length ≤ limits.maxHeaderLength ∨ reply.payload = [] := by
  unfold stranded
  split
  next fits => exact ⟨fun _ => .inl fits, fun _ => rfl⟩
  next long => exact ⟨.inr, fun passes => passes.resolve_left long⟩

theorem stranded_of_genuine (genuine : reply.Genuine) (header : 22 ≤ limits.maxHeaderLength) :
    reply.stranded limits = [] := by
  rw [stranded_eq_nil_iff]
  cases genuine with
  | ok => exact .inr rfl
  | value content sized => exact .inl (Nat.le_trans (length_header_value_le content sized) header)
  | ofError error => exact .inr rfl

/-- No error that comes of a reply ends the stream. -/
theorem goesOn_delivered (alloc : Allocator) (limits : Limits) (reply : Reply) :
    goesOn (reply.delivered alloc limits) = true := by
  unfold delivered
  split
  · exact goesOn_received alloc limits reply
  · rfl

/-- A reply is read for what it is if its header line is kept. Of one whose header line is too
long only that line is consumed. -/
theorem read_of_readable (alloc : Allocator) (limits : Limits) (readable : reply.Readable)
    (same : source.signals = Signal.octets reply.encode ++ more) :
    ∃ after, read alloc limits source = (reply.delivered alloc limits, after) ∧
      after.signals = Signal.octets (reply.stranded limits) ++ more := by
  unfold delivered stranded
  by_cases fits : reply.header.length ≤ limits.maxHeaderLength
  · rw [if_pos fits, if_pos fits]
    exact read_of_encode alloc readable fits same
  · rw [if_neg fits, if_neg fits]
    rw [encode_eq, Signal.octets_append, Signal.octets_cons, List.append_assoc,
      List.cons_append] at same
    obtain ⟨after, line, left⟩ :=
      Line.read_of_line limits.maxHeaderLength (unbroken_header readable) same
    rw [Line.ofLine, stripLast_header readable, if_neg fits] at line
    refine ⟨after, ?_, left⟩
    unfold read
    rw [line]

/-- Where nothing is stranded, a reader takes the reply, and nothing but it. -/
theorem takes_encode (alloc : Allocator) (readable : reply.Readable)
    (passes : reply.stranded limits = []) :
    Reader.Takes (read alloc limits) reply.encode (reply.delivered alloc limits) := by
  intro source more same
  obtain ⟨after, found, left⟩ := read_of_readable alloc limits readable same
  rw [passes] at left
  exact ⟨after, found, left⟩

/-! ## Reply after reply -/

/-- Replies of which nothing is stranded are read one by one, and what is unread after each of
them begins with the next one. -/
theorem readings_of_replies
    (readable : ∀ turn ∈ turns, turn.2.Readable)
    (passes : ∀ turn ∈ turns, turn.2.stranded limits = [])
    (same : source.signals = Signal.octets (turns.flatMap fun turn => turn.2.encode) ++ more) :
    let readings := Reader.inTurn goesOn (turns.map fun turn => read turn.1 limits) source
    readings.map Prod.fst = turns.map (fun turn => turn.2.delivered turn.1 limits) ∧
      ∀ index result rest, readings[index]? = some (result, rest) →
        rest.signals =
          Signal.octets ((turns.drop (index + 1)).flatMap fun turn => turn.2.encode) ++ more :=
  Reader.inTurn_of_takes
    (fun turn mem => takes_encode turn.1 (readable turn mem) (passes turn mem))
    (fun turn _ => goesOn_delivered turn.1 limits turn.2) same

end Reply

namespace Session

variable {ν : Type} [Network ν] {session : Session ν} {link : Link} {reply : Reply}
  {requests : List Request} {replies : List Reply}

/-! ## Request after request -/

/-- Holds of a network on which these requests can be sent one after another, if after each of
them its reply is there to be read: what is still unread, and what arrives then, begin with it. -/
inductive Answers : List Signal → ν → List Request → List Reply → Prop where
  | done (unread : List Signal) (network : ν) : Answers unread network [] []
  | reply {unread behind : List Signal} {network after : ν} {arrived : Source}
      {request : Request} {reply : Reply} {requests : List Request} {replies : List Reply}
      (sent : Network.send network request.encode = (.ok arrived, after))
      (same : unread ++ arrived.signals = Signal.octets reply.encode ++ behind)
      (later : Answers behind after requests replies) :
      Answers unread network (request :: requests) (reply :: replies)

/-- A peer that has sent all replies beforehand needs nothing but that requests can be sent. -/
theorem Answers.of_arrived {peer : ScriptedPeer} {bytes : Bytes} {more : List Signal}
    (script : peer.current = .sends bytes) (count : requests.length = replies.length) :
    Answers (Signal.octets (replies.flatMap Reply.encode) ++ more) peer requests replies := by
  induction replies generalizing requests peer with
  | nil =>
    obtain rfl := List.length_eq_zero_iff.mp count
    exact .done _ peer
  | cons reply replies ih =>
    obtain ⟨request, requests, rfl⟩ := List.exists_cons_of_length_eq_add_one count
    have sent : Network.send peer request.encode =
        (.ok Source.ended, peer.note request.encode) := by
      simp only [Network.send, script]
    refine .reply sent ?_ (@ih requests (peer.note request.encode) script (Nat.succ.inj count))
    have nothing : Source.ended.signals = [] := rfl
    rw [nothing, List.append_nil, List.flatMap_cons, Signal.octets_append, List.append_assoc]

/-- The link is kept, whatever comes of a reply. -/
theorem receive_of_delivered {rest : Source} (session : Session ν)
    (read : Reply.read session.alloc session.limits link.incoming =
      (reply.delivered session.alloc session.limits, rest)) :
    session.receive link =
      (reply.delivered session.alloc session.limits,
        { session with link := some { link with incoming := rest } }) := by
  unfold Reply.delivered at read ⊢
  split
  next fits =>
    rw [if_pos fits] at read
    exact receive_of_received session read
  next long =>
    rw [if_neg long] at read
    unfold receive
    rw [read]
    rfl

/-- Each request is answered by its own reply, on a link that is kept and from which the replies to
the requests after it are read. -/
theorem requests_of_answers (linked : session.link = some link)
    (readable : ∀ reply ∈ replies, reply.Readable)
    (passes : ∀ reply ∈ replies, reply.stranded session.limits = [])
    (answers : Answers link.incoming.signals session.network requests replies) :
    let answered := session.requests requests
    answered.map Prod.fst = replies.map (·.delivered session.alloc session.limits) ∧
      ∀ index result after, answered[index]? = some (result, after) →
        ∃ kept, after.link = some kept ∧ kept.peer = link.peer ∧
          Answers kept.incoming.signals after.network (requests.drop (index + 1))
            (replies.drop (index + 1)) := by
  induction requests generalizing session link replies with
  | nil =>
    cases answers
    exact ⟨rfl, fun index result after found => nomatch found⟩
  | cons request requests ih =>
    cases answers with
    | @reply _ behind _ network arrived _ reply _ replies sent same later =>
      let due : Link := { link with incoming := link.incoming ++ arrived }
      have signals : due.incoming.signals = Signal.octets reply.encode ++ behind :=
        (Source.signals_append _ _).trans same
      obtain ⟨rest, found, left⟩ := Reply.takes_encode session.alloc
        (readable reply List.mem_cons_self) (passes reply List.mem_cons_self) _ _ signals
      have received := @receive_of_delivered _ _ due _ _ { session with network } found
      have asked := (request_of_sent session linked sent).trans received
      subst left
      obtain ⟨results, kept⟩ := @ih
        { session with network, link := some { due with incoming := rest } }
        { due with incoming := rest } replies rfl
        (fun other mem => readable other (List.mem_cons_of_mem _ mem))
        (fun other mem => passes other (List.mem_cons_of_mem _ mem)) later
      simp only [Session.requests, asked, List.map_cons]
      refine ⟨by rw [results], fun index result after here => ?_⟩
      cases index with
      | zero =>
        obtain ⟨rfl, rfl⟩ := Prod.mk.inj (Option.some.inj here)
        exact ⟨_, rfl, rfl, later⟩
      | succ index => exact kept index result after here

/-- If no value stands behind a header line that is too long, a client that reads reply after reply
is at the next one whenever reading goes on, whatever limits it has and whatever memory it is given;
and each request on its link gets its own reply. -/
theorem replies_aligned {turns : List (Allocator × Reply)}
    (genuine : ∀ turn ∈ turns, turn.2.Genuine)
    (passes : ∀ turn ∈ turns,
      turn.2.header.length ≤ limits.maxHeaderLength ∨ turn.2.payload = []) :
    (∀ source more,
      source.signals = Signal.octets (turns.flatMap fun turn => turn.2.encode) ++ more →
      let readings :=
        Reader.inTurn Reply.goesOn (turns.map fun turn => Reply.read turn.1 limits) source
      readings.map Prod.fst = turns.map (fun turn => turn.2.delivered turn.1 limits) ∧
        ∀ index result rest, readings[index]? = some (result, rest) →
          rest.signals =
            Signal.octets ((turns.drop (index + 1)).flatMap fun turn => turn.2.encode) ++ more) ∧
    ∀ (session : Session ν) link requests,
      session.limits = limits → session.link = some link →
      Answers link.incoming.signals session.network requests (turns.map Prod.snd) →
      let answered := session.requests requests
      answered.map Prod.fst = turns.map (fun turn => turn.2.delivered session.alloc limits) ∧
        ∀ index result after, answered[index]? = some (result, after) →
          ∃ kept, after.link = some kept ∧ kept.peer = link.peer ∧
            Answers kept.incoming.signals after.network (requests.drop (index + 1))
              ((turns.map Prod.snd).drop (index + 1)) := by
  have readable : ∀ turn ∈ turns, turn.2.Readable := fun turn mem => (genuine turn mem).readable
  have nothing : ∀ turn ∈ turns, turn.2.stranded limits = [] := fun turn mem =>
    Reply.stranded_eq_nil_iff.mpr (passes turn mem)
  refine ⟨fun source more same => Reply.readings_of_replies readable nothing same, ?_⟩
  rintro session link requests rfl linked answers
  have readable' : ∀ reply ∈ turns.map Prod.snd, reply.Readable := by
    intro reply mem
    obtain ⟨turn, here, rfl⟩ := List.mem_map.mp mem
    exact readable turn here
  have nothing' : ∀ reply ∈ turns.map Prod.snd, reply.stranded session.limits = [] := by
    intro reply mem
    obtain ⟨turn, here, rfl⟩ := List.mem_map.mp mem
    exact nothing turn here
  obtain ⟨results, kept⟩ := requests_of_answers linked readable' nothing' answers
  rw [List.map_map] at results
  exact ⟨results, kept⟩

/-- A value beyond the limit that looks like a reply, one for which there is no memory, and an error
whose line is too long: each is reported, and the last reply is the one that was given. -/
theorem replies_aligned_of_reported_values :
    let limits : Limits := { maxValueSize := 2, maxHeaderLength := 4 }
    let replies : List Reply :=
      [.value (Utf8.encode "OK\n"), .value (Utf8.encode "a"), .ofError .keyNotFound, .ok]
    let allocs : List Allocator := [.unlimited, .upTo 0, .unlimited, .unlimited]
    let source : Source := .ofBytes (replies.flatMap Reply.encode)
    let address : Address := ⟨.loopback, 5000⟩
    let session : Session ScriptedPeer :=
      { network := { address, scripts := [] }, limits, alloc := .upTo 0,
        link := some ⟨address, source⟩ }
    let results : List (Except Error Reply) :=
      [.error (.valueTooLarge 3 2), .error .outOfMemory,
        .error (.unexpectedReply "header line too long"), .ok .ok]
    (Reader.inTurn Reply.goesOn (allocs.map (Reply.read · limits)) source).map Prod.fst =
        results ∧
      (session.requests [.read 1, .read 2, .read 3, .delete 1]).map Prod.fst = results := by
  intro limits replies allocs source address session results
  let turns := allocs.zip replies
  have genuine : ∀ turn ∈ turns, turn.2.Genuine := by
    intro turn mem
    simp only [turns, allocs, replies, List.zip_cons_cons, List.zip_nil_right, List.mem_cons,
      List.not_mem_nil, or_false] at mem
    rcases mem with rfl | rfl | rfl | rfl
    · exact .value _ (by decide)
    · exact .value _ (by decide)
    · exact .ofError _
    · exact .ok
  have passes : ∀ turn ∈ turns,
      turn.2.header.length ≤ limits.maxHeaderLength ∨ turn.2.payload = [] := by
    decide +kernel
  have arrived : source.signals = Signal.octets (replies.flatMap Reply.encode) ++ [] := rfl
  have answers : Answers source.signals session.network
      [.read 1, .read 2, .read 3, .delete 1] replies := by
    rw [arrived]
    have silent : session.network.current = .sends [] := rfl
    exact .of_arrived silent rfl
  obtain ⟨reads, asks⟩ := @replies_aligned limits ScriptedPeer _ turns genuine passes
  obtain ⟨results, -⟩ := reads source [] arrived
  obtain ⟨results', -⟩ := asks session ⟨address, source⟩ _ rfl rfl answers
  exact ⟨results.trans (by decide +kernel), results'.trans (by decide +kernel)⟩

/-- A header line of four octets where three are allowed. The error is none that ends the stream,
but the value is unread and is taken for a reply that nobody gave, on the link that is kept. -/
theorem misaligned_of_long_header :
    let limits : Limits := { maxHeaderLength := 3 }
    let replies : List Reply := [.value (Utf8.encode "OK\n")]
    let source : Source := .ofBytes (replies.flatMap Reply.encode)
    let address : Address := ⟨.loopback, 5000⟩
    let session : Session ScriptedPeer :=
      { network := { address, scripts := [] }, limits, link := some ⟨address, source⟩ }
    let tooLong : Error := .unexpectedReply "header line too long"
    let reading := Reply.read .unlimited limits source
    (∀ reply ∈ replies, reply.Genuine) ∧ tooLong.isTransport = false ∧
      reading.1 = .error tooLong ∧ reading.2.bytes = Utf8.encode "OK\n" ∧
      reading.2.bytes ≠ (replies.drop 1).flatMap Reply.encode ∧
      (session.requests [.read 1, .delete 1]).map Prod.fst = [.error tooLong, .ok .ok] := by
  intro limits replies source address session tooLong reading
  refine ⟨fun reply mem => ?_, rfl, by decide +kernel, by decide +kernel, by decide +kernel,
    by decide +kernel⟩
  obtain rfl := List.mem_singleton.mp mem
  exact .value _ (by decide)

end Session

end WireStore
