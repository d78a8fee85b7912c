import WireStore.Proofs.Frame.Extent
import WireStore.Proofs.Frame.Headers
import WireStore.Proofs.Frame.Memory

/-!
# Every frame takes a line feed

A frame, whether it is a request or is refused, takes a line with its line feed and behind it as
many bytes as the line announces, all of them even if they are not kept (`occupies_of_read`). Bytes
of a payload may be line feeds, too, so the line feeds that are left grow fewer by one at least.
They bound the frames of a stream: however often a reader is asked for frames, it finds no more of
them than there are line feeds, and asked once more than that it has come to the end of the source
or to an error (`countP_inTurn_le`, `exists_last_of_inTurn`).
-/

namespace WireStore

variable {alloc : Allocator} {limits : Limits} {source rest : Source} {content : Bytes}

namespace Source

/-- How many line feeds are still to be delivered. -/
def lineFeeds (source : Source) : Nat := source.bytes.count Bytes.lineFeed

theorem lineFeeds_of_signals {front : Bytes}
    (same : source.signals = Signal.octets front ++ rest.signals) :
    source.lineFeeds = front.count Bytes.lineFeed + rest.lineFeeds := by
  rw [lineFeeds, bytes_of_signals same, List.count_append]
  rfl

end Source

/-! ## One frame -/

namespace Header

/-- How many bytes a line announces behind it: none unless it is a header. -/
def announced (content : Bytes) : Nat :=
  match parse content with
  | .ok header => header.size
  | .error _ => 0

/-- A verb that carries no value announces none. -/
theorem size_of_bare {header : Header} (parsed : parse content = .ok header)
    (bare : header.method.carriesValue = false) : header.size = 0 := by
  obtain ⟨-, arguments⟩ := parse_eq_ok_iff.mp parsed
  obtain ⟨-, -, rest, sized, -⟩ := arguments?_eq_some_iff.mp arguments
  rw [size?_of_no_value bare] at sized
  exact (Prod.mk.inj (Option.some.inj sized)).1.symm

end Header

namespace Incoming

variable {incoming : Incoming}

/-- Holds where a frame takes these bytes, and no others, for its line and for its payload. -/
structure Occupies (limits : Limits) (source rest : Source) (incoming : Incoming)
    (line payload : Bytes) : Prop where
  unbroken : line.Unbroken
  consumed : source.signals = Signal.octets (line ++ Bytes.lineFeed :: payload) ++ rest.signals
  /-- A line beyond the limit is not looked at, and announces nothing. -/
  length : payload.length =
    let content := line.stripLast Bytes.carriageReturn
    if content.length ≤ limits.maxHeaderLength then Header.announced content else 0
  value : ∀ request, incoming = .request request → request.value?.getD [] = payload

theorem Occupies.lineFeeds_lt {line payload : Bytes}
    (occupies : Occupies limits source rest incoming line payload) :
    rest.lineFeeds < source.lineFeeds := by
  have taken := Source.lineFeeds_of_signals occupies.consumed
  rw [List.count_append, List.count_cons_self] at taken
  omega

theorem payload_of_readPayload {header : Header} (carries : header.method.carriesValue = true)
    (found : readPayload alloc limits header source = (.ok incoming, rest)) :
    ∃ payload, source.signals = Signal.octets payload ++ rest.signals ∧
      payload.length = header.size ∧
      ∀ request, incoming = .request request → request.value?.getD [] = payload := by
  unfold readPayload at found
  rcases body : Payload.read alloc limits.maxValueSize header.size source with
    ⟨shortfall | became, after⟩
  · rw [body] at found
    cases shortfall <;> exact nomatch (Prod.mk.inj found).1
  · obtain ⟨payload, length, judged, consumed⟩ := Payload.exists_of_read body
    rw [body] at found
    refine ⟨payload, ?_, length, ?_⟩
    · cases became <;> (obtain ⟨-, rfl⟩ := Prod.mk.inj found; exact consumed)
    · rintro request rfl
      cases became with
      | tooLarge => cases found
      | unreservable => cases found
      | kept value =>
        -- What was kept is what stood there.
        obtain rfl : value = payload := by
          unfold Payload.judge at judged
          split at judged
          · cases judged
          · split at judged
            · exact Payload.kept.inj judged
            · cases judged
        obtain ⟨⟨rfl⟩, -⟩ := Prod.mk.inj found
        cases method : header.method with
        | create | update => simp [Request.ofHeader, method, Request.value?]
        | read | delete => simp [method, Method.carriesValue] at carries

/-- Behind a line a frame takes what the line announces. -/
theorem payload_of_readAfterLine
    (found : readAfterLine alloc limits content source = (.ok incoming, rest)) :
    ∃ payload, source.signals = Signal.octets payload ++ rest.signals ∧
      payload.length = Header.announced content ∧
      ∀ request, incoming = .request request → request.value?.getD [] = payload := by
  unfold readAfterLine at found
  unfold Header.announced
  cases parsed : Header.parse content with
  | error reason =>
    rw [parsed] at found
    obtain ⟨⟨rfl⟩, rfl⟩ := Prod.mk.inj found
    exact ⟨[], rfl, rfl, nofun⟩
  | ok header =>
    simp only [parsed] at found ⊢
    split at found
    next empty =>
      obtain ⟨⟨rfl⟩, rfl⟩ := Prod.mk.inj found
      exact ⟨[], rfl, empty.2.symm, nofun⟩
    next =>
      split at found
      next carries => exact payload_of_readPayload carries found
      next bare =>
        obtain ⟨⟨rfl⟩, rfl⟩ := Prod.mk.inj found
        have bare : header.method.carriesValue = false := by simpa using bare
        refine ⟨[], rfl, (Header.size_of_bare parsed bare).symm, ?_⟩
        rintro request ⟨rfl⟩
        cases method : header.method with
        | read | delete => simp [Request.ofHeader, method, Request.value?]
        | create | update => simp [method, Method.carriesValue] at bare

/-- A frame takes its line, with the line feed, and what the line announces. -/
theorem occupies_of_read (found : read alloc limits source = (.ok incoming, rest))
    (present : incoming ≠ .ended) :
    ∃ line payload, Occupies limits source rest incoming line payload := by
  unfold read at found
  rcases first : Line.read limits.maxHeaderLength source with ⟨_ | here, behind⟩
  · rw [first] at found
    cases (Prod.mk.inj found).1
  have due : here ≠ .ended := by
    rintro rfl
    rw [first] at found
    exact present (Except.ok.inj (Prod.mk.inj found).1).symm
  obtain ⟨line, unbroken, same, consumed⟩ := Line.exists_of_read first due
  rw [first] at found
  by_cases fits : (line.stripLast Bytes.carriageReturn).length ≤ limits.maxHeaderLength
  · obtain rfl : here = .complete (line.stripLast Bytes.carriageReturn) := by
      rw [same, Line.ofLine, if_pos fits]
    obtain ⟨payload, behindLine, length, value⟩ := payload_of_readAfterLine found
    refine ⟨line, payload, unbroken, ?_, ?_, value⟩
    · rw [consumed, behindLine, ← List.append_assoc, ← Signal.octets_append, List.append_assoc]
      rfl
    · simp only [fits, if_true]
      exact length
  · obtain rfl : here = .tooLong := by rw [same, Line.ofLine, if_neg fits]
    obtain ⟨⟨rfl⟩, rfl⟩ := Prod.mk.inj found
    refine ⟨line, [], unbroken, consumed, ?_, fun request same => by cases same⟩
    simp only [fits, if_false, List.length_nil]

theorem size_read_le (alloc : Allocator) (limits : Limits) (source : Source) :
    (read alloc limits source).2.size ≤ source.size := by
  have line := Line.size_read_le limits.maxHeaderLength source
  unfold read
  split
  next content behind first =>
    have payload := size_readAfterLine_le alloc limits content behind
    rw [first] at line
    exact Nat.le_trans payload line
  all_goals
    rename_i first
    rw [first] at line
    exact line

/-- Where reading goes on, a frame was found, and a line feed is gone. -/
theorem lineFeeds_lt_of_goesOn (goes : goesOn false (read alloc limits source).1 = true) :
    (read alloc limits source).2.lineFeeds < source.lineFeeds := by
  rcases found : read alloc limits source with ⟨result, rest⟩
  rw [found] at goes
  cases result with
  | error reason => cases goes
  | ok incoming =>
    have present : incoming ≠ .ended := by
      rintro rfl
      cases goes
    obtain ⟨line, payload, occupies⟩ := occupies_of_read found present
    exact occupies.lineFeeds_lt

end Incoming

/-! ## Frame after frame -/

namespace Reader

variable {α : Type} {goesOn : Except Error α → Bool} {left : Source → Nat}
  {readers : List (Reader α)}

/-- Readers that use something up whenever reading goes on find no more than there was of it. -/
theorem countP_inTurn_le
    (uses : ∀ reader ∈ readers, ∀ source, goesOn (reader source).1 = true →
      left (reader source).2 < left source) (source : Source) :
    (inTurn goesOn readers source).countP (fun reading => goesOn reading.1) ≤ left source := by
  induction readers generalizing source with
  | nil => exact Nat.zero_le _
  | cons reader readers ih =>
    simp only [inTurn, List.countP_cons]
    by_cases goes : goesOn (reader source).1 = true
    · have used := uses reader List.mem_cons_self source goes
      have later := ih (fun other mem => uses other (List.mem_cons_of_mem _ mem)) (reader source).2
      simp only [goes, if_true]
      omega
    · rw [if_neg goes, if_neg goes]
      exact Nat.zero_le _

/-- If there are more of them than that, they come to where reading does not go on. -/
theorem exists_last_of_inTurn
    (uses : ∀ reader ∈ readers, ∀ source, goesOn (reader source).1 = true →
      left (reader source).2 < left source)
    (enough : left source < readers.length) :
    ∃ last ∈ (inTurn goesOn readers source).getLast?, goesOn last.1 = false := by
  induction readers generalizing source with
  | nil => exact absurd enough (Nat.not_lt_zero _)
  | cons reader readers ih =>
    simp only [inTurn]
    by_cases goes : goesOn (reader source).1 = true
    · have used := uses reader List.mem_cons_self source goes
      rw [List.length_cons] at enough
      obtain ⟨last, mem, stops⟩ :=
        @ih (reader source).2 (fun other mem => uses other (List.mem_cons_of_mem _ mem)) (by omega)
      refine ⟨last, ?_, stops⟩
      rw [if_pos goes, List.getLast?_cons, Option.mem_def.mp mem]
      rfl
    · rw [if_neg goes]
      exact ⟨_, rfl, by simpa using goes⟩

end Reader

end WireStore
