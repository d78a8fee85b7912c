import WireStore.Frame.Reply
import WireStore.Proofs.Frame.Opening
import WireStore.Proofs.Stream.Taking

/-!
# Frames are determined by their own bytes

A reader that has come to a request, to a refusal or to a reply has done so on
the bytes it consumed. Whatever stands behind them in another source, the same
bytes are taken for the same result, and nothing behind them is asked for: a
line goes to its line feed and no further, also where it fills the first stage
exactly or has to be skipped, and a payload to its announced size, also where it
fills its buffer exactly or is let by.

A reading that succeeds is first taken apart into the bytes of its stages; that
these bytes alone are enough is then said by the stages put together.
-/

namespace WireStore

variable {source rest : Source} {alloc other : Allocator} {limits : Limits}

/-- The octets at the front of some signals go up to the end or to a fault. -/
theorem Signal.exists_octets (signals : List Signal) :
    ∃ bytes, signals = octets bytes ∨
      ∃ reason later, signals = octets bytes ++ fault reason :: later := by
  induction signals with
  | nil => exact ⟨[], .inl rfl⟩
  | cons signal signals ih =>
    cases signal with
    | fault reason => exact ⟨[], .inr ⟨reason, signals, rfl⟩⟩
    | octet value =>
      obtain ⟨bytes, rfl | ⟨reason, later, rfl⟩⟩ := ih
      · exact ⟨value :: bytes, .inl rfl⟩
      · exact ⟨value :: bytes, .inr ⟨reason, later, rfl⟩⟩

namespace Line

variable {maxLength : Nat} {line : Bytes} {found : Line}

theorem takes_line (maxLength : Nat) (unbroken : line.Unbroken) :
    Reader.Takes (read maxLength) (line ++ [Bytes.lineFeed]) (.ok (ofLine maxLength line)) := by
  intro source more same
  rw [Signal.octets_append, List.append_assoc] at same
  exact read_of_line maxLength unbroken same

/-- Where a line was found, what stands before its line feed is what it was found in. -/
theorem exists_of_read (here : read maxLength source = (.ok found, rest))
    (present : found ≠ .ended) :
    ∃ line, Bytes.Unbroken line ∧ found = ofLine maxLength line ∧
      source.signals = Signal.octets (line ++ [Bytes.lineFeed]) ++ rest.signals := by
  obtain ⟨bytes, ends⟩ := Signal.exists_octets source.signals
  cases cut : bytes.cutLine? with
  | some parts =>
    obtain ⟨line, behind⟩ := parts
    obtain ⟨unbroken, rfl⟩ := Bytes.cutLine?_eq_some_iff.mp cut
    obtain ⟨more, same⟩ : ∃ more, source.signals =
        Signal.octets line ++ .octet Bytes.lineFeed :: more := by
      rcases ends with same | ⟨reason, later, same⟩
      · exact ⟨Signal.octets behind, by rw [same, Signal.octets_append]; rfl⟩
      · refine ⟨Signal.octets behind ++ .fault reason :: later, ?_⟩
        rw [same, Signal.octets_append, List.append_assoc]
        rfl
    obtain ⟨after, result, left⟩ := read_of_line maxLength unbroken same
    obtain ⟨⟨rfl⟩, rfl⟩ := Prod.mk.inj (here.symm.trans result)
    refine ⟨line, unbroken, rfl, ?_⟩
    rw [same, left, Signal.octets_append, List.append_assoc]
    rfl
  | none =>
    have unbroken := Bytes.cutLine?_eq_none_iff.mp cut
    rcases ends with same | ⟨reason, later, same⟩
    · have ended := read_of_end maxLength unbroken same
      rw [here] at ended
      cases bytes with
      | nil => exact absurd (Except.ok.inj ended) present
      | cons octet octets => exact nomatch ended
    · obtain ⟨after, raised, -⟩ := read_of_fault maxLength unbroken same
      exact nomatch (Prod.mk.inj (here.symm.trans raised)).1

theorem takes_of_read (here : read maxLength source = (.ok found, rest))
    (present : found ≠ .ended) :
    ∃ front, source.signals = Signal.octets front ++ rest.signals ∧
      Reader.Takes (read maxLength) front (.ok found) := by
  obtain ⟨line, unbroken, rfl, consumed⟩ := exists_of_read here present
  exact ⟨line ++ [Bytes.lineFeed], consumed, takes_line maxLength unbroken⟩

theorem fault_of_read {failure : Error}
    (here : read maxLength source = (.error failure, rest)) : ∃ fault, failure = .io fault := by
  simp only [read, skip, ofEnd] at here
  repeat' split at here
  all_goals cases here <;> exact ⟨_, rfl⟩

end Line

namespace Payload

variable {maxSize size : Nat} {value : Bytes} {payload : Payload}

theorem takes_value (alloc : Allocator) (maxSize : Nat) (value : Bytes) :
    Reader.Takes (read alloc maxSize value.length) value
      (.ok (judge alloc maxSize value value.length)) := by
  intro source more same
  obtain ⟨after, kept, left⟩ := keep_of_enough (Nat.le_refl value.length) same
  rw [List.take_length] at kept
  rw [List.drop_length] at left
  refine ⟨after, ?_, left⟩
  rw [read_eq, kept]
  rfl

theorem signals_of_keep (kept : keep size source = (.ok value, rest)) :
    source.signals = Signal.octets value ++ rest.signals := by
  obtain ⟨bytes, ends⟩ := Signal.exists_octets source.signals
  by_cases short : bytes.length < size
  · rcases ends with same | ⟨reason, later, same⟩
    · have ended := keep_of_end short same
      rw [kept] at ended
      exact nomatch ended
    · obtain ⟨after, raised, -⟩ := keep_of_fault short same
      exact nomatch (Prod.mk.inj (kept.symm.trans raised)).1
  · obtain ⟨more, same⟩ : ∃ more, source.signals = Signal.octets bytes ++ more := by
      rcases ends with same | ⟨reason, later, same⟩
      · exact ⟨[], by rw [same, List.append_nil]⟩
      · exact ⟨_, same⟩
    obtain ⟨after, taken, left⟩ := keep_of_enough (Nat.le_of_not_lt short) same
    obtain ⟨⟨rfl⟩, rfl⟩ := Prod.mk.inj (kept.symm.trans taken)
    rw [left, ← List.append_assoc, ← Signal.octets_append, List.take_append_drop, same]

/-- Where something became of a payload, it stood there in full. -/
theorem exists_of_read (here : read alloc maxSize size source = (.ok payload, rest)) :
    ∃ value, value.length = size ∧ payload = judge alloc maxSize value size ∧
      source.signals = Signal.octets value ++ rest.signals := by
  rw [read_eq] at here
  rcases kept : keep size source with ⟨shortfall | value, after⟩
  · rw [kept] at here
    exact nomatch (Prod.mk.inj here).1
  · rw [kept] at here
    obtain ⟨⟨rfl⟩, rfl⟩ := Prod.mk.inj here
    exact ⟨value, length_of_keep kept, rfl, signals_of_keep kept⟩

/-- What becomes of a payload depends on whether there is memory for just that payload. -/
theorem judge_congr (alike : other value.length = alloc value.length) :
    judge other maxSize value value.length = judge alloc maxSize value value.length := by
  unfold judge
  rw [alike]

end Payload

namespace Reader

variable {β γ : Type}

/-- Holds of a reading, from `source` to `rest`, that came to its result on the bytes it consumed:
wherever they come next they are taken for it, if memory is granted or refused as it was. Only one
size matters, that of a payload among the bytes. -/
def Determined (reader : Allocator → Source → β × Source) (alloc : Allocator)
    (source rest : Source) (result : β) : Prop :=
  ∃ front, source.signals = Signal.octets front ++ rest.signals ∧
    ∃ size ≤ front.length, ∀ other : Allocator, other size = alloc size →
      Takes (reader other) front result

variable {reader next : Allocator → Source → γ × Source} {first : Source → β × Source}
  {front : Bytes} {found : β} {result : γ} {behind : Source}

theorem Determined.nothing (source : Source) (result : γ) :
    Determined (fun _ source => (result, source)) alloc source source result :=
  ⟨[], rfl, 0, Nat.le_refl _, fun _ _ => takes_nil result⟩

theorem Determined.andThen (head : Takes first front found)
    (consumed : source.signals = Signal.octets front ++ behind.signals)
    (tail : Determined next alloc behind rest result)
    (goesOn : ∀ other source rest, first source = (found, rest) →
      reader other source = next other rest) :
    Determined reader alloc source rest result := by
  obtain ⟨back, left, size, small, taken⟩ := tail
  refine ⟨front ++ back, ?_, size, ?_, fun other alike => ?_⟩
  · rw [consumed, left, Signal.octets_append, List.append_assoc]
  · rw [List.length_append]
    omega
  · exact head.andThen (taken other alike) (goesOn other)

theorem Determined.ofPayload {maxSize size : Nat} {payload : Payload}
    (here : Payload.read alloc maxSize size source = (.ok payload, rest))
    (follows : ∀ other source rest, Payload.read other maxSize size source = (.ok payload, rest) →
      reader other source = (result, rest)) :
    Determined reader alloc source rest result := by
  obtain ⟨value, rfl, rfl, same⟩ := Payload.exists_of_read here
  refine ⟨value, same, value.length, Nat.le_refl _, fun other alike => ?_⟩
  have taken := Payload.takes_value other maxSize value
  rw [Payload.judge_congr alike] at taken
  exact taken.restate (follows other)

/-- Where a source is consumed by a determined reading, the bytes consumed are taken. -/
theorem Determined.takes (determined : Determined reader alloc source rest result)
    (consumed : source.bytes = front ++ rest.bytes) :
    ∃ size ≤ front.length, ∀ other : Allocator, other size = alloc size →
      Takes (reader other) front result := by
  obtain ⟨bytes, same, size, small, taken⟩ := determined
  obtain rfl : front = bytes :=
    List.append_cancel_right (consumed.symm.trans (Source.bytes_of_signals same))
  exact ⟨size, small, taken⟩

end Reader

namespace Incoming

variable {header : Header} {content : Bytes} {incoming : Incoming}

theorem readPayload_determined
    (found : readPayload alloc limits header source = (.ok incoming, rest)) :
    Reader.Determined (fun alloc => readPayload alloc limits header) alloc source rest
      (.ok incoming) := by
  unfold readPayload at found
  rcases body : Payload.read alloc limits.maxValueSize header.size source with
    ⟨shortfall | payload, after⟩
  · rw [body] at found
    cases shortfall <;> exact nomatch (Prod.mk.inj found).1
  · rw [body] at found
    cases payload
    all_goals
      obtain ⟨⟨rfl⟩, rfl⟩ := Prod.mk.inj found
      refine .ofPayload body fun other source rest here => ?_
      unfold readPayload
      rw [here]

theorem readAfterLine_determined
    (found : readAfterLine alloc limits content source = (.ok incoming, rest)) :
    Reader.Determined (fun alloc => readAfterLine alloc limits content) alloc source rest
      (.ok incoming) := by
  unfold readAfterLine at found ⊢
  cases parsed : Header.parse content with
  | error reason =>
    rw [parsed] at found
    obtain ⟨⟨rfl⟩, rfl⟩ := Prod.mk.inj found
    exact .nothing source _
  | ok header =>
    simp only [parsed] at found ⊢
    split at found
    next empty =>
      obtain ⟨⟨rfl⟩, rfl⟩ := Prod.mk.inj found
      simp only [empty, and_self, if_true]
      exact .nothing source _
    next filled =>
      simp only [filled, if_false]
      split at found
      next carries =>
        simp only [carries, if_true]
        exact readPayload_determined found
      next bare =>
        obtain ⟨⟨rfl⟩, rfl⟩ := Prod.mk.inj found
        simp only [bare]
        exact .nothing source _

theorem read_determined (found : read alloc limits source = (.ok incoming, rest))
    (present : incoming ≠ .ended) :
    Reader.Determined (fun alloc => read alloc limits) alloc source rest (.ok incoming) := by
  unfold read at found
  rcases line : Line.read limits.maxHeaderLength source with ⟨_ | (content | _ | _), behind⟩
  · rw [line] at found
    exact nomatch (Prod.mk.inj found).1
  · rw [line] at found
    obtain ⟨front, consumed, taken⟩ := Line.takes_of_read line (by simp)
    refine .andThen taken consumed (readAfterLine_determined found) fun other source rest here => ?_
    simp only [read, here]
  · rw [line] at found
    obtain ⟨front, consumed, taken⟩ := Line.takes_of_read line (by simp)
    obtain ⟨⟨rfl⟩, rfl⟩ := Prod.mk.inj found
    refine .andThen taken consumed (.nothing behind _) fun other source rest here => ?_
    simp only [read, here]
  · rw [line] at found
    exact absurd (Except.ok.inj (Prod.mk.inj found).1).symm present

end Incoming

namespace Reply

variable {content : Bytes} {size : Nat} {result : Except Error Reply}

/-- Holds of the results after which a source stands behind a reply, which was read or let by. -/
def Settled : Except Error Reply → Prop
  | .ok _ | .error (.valueTooLarge _ _) | .error .outOfMemory | .error (.unexpectedReply _) => True
  | _ => False

theorem readValue_determined (found : readValue alloc limits size source = (result, rest))
    (settled : Settled result) :
    Reader.Determined (fun alloc => readValue alloc limits size) alloc source rest result := by
  unfold readValue at found
  rcases body : Payload.read alloc limits.maxValueSize size source with
    ⟨shortfall | payload, after⟩
  · rw [body] at found
    cases shortfall <;> (obtain ⟨rfl, -⟩ := Prod.mk.inj found; exact settled.elim)
  · rw [body] at found
    cases payload
    all_goals
      obtain ⟨rfl, rfl⟩ := Prod.mk.inj found
      refine .ofPayload body fun other source rest here => ?_
      unfold readValue
      rw [here]

theorem readAfterLine_determined
    (found : readAfterLine alloc limits content source = (result, rest))
    (settled : Settled result) :
    Reader.Determined (fun alloc => readAfterLine alloc limits content) alloc source rest
      result := by
  unfold readAfterLine at found ⊢
  cases said : announcement content with
  | value size =>
    rw [said] at found
    exact readValue_determined found settled
  | ok | error text | unexpected =>
    rw [said] at found
    obtain ⟨rfl, rfl⟩ := Prod.mk.inj found
    exact .nothing source _

theorem read_determined (found : read alloc limits source = (result, rest))
    (settled : Settled result) :
    Reader.Determined (fun alloc => read alloc limits) alloc source rest result := by
  unfold read at found
  rcases line : Line.read limits.maxHeaderLength source with ⟨failure | (content | _ | _), behind⟩
  · rw [line] at found
    obtain ⟨fault, rfl⟩ := Line.fault_of_read line
    obtain ⟨rfl, -⟩ := Prod.mk.inj found
    exact settled.elim
  · rw [line] at found
    obtain ⟨front, consumed, taken⟩ := Line.takes_of_read line (by simp)
    refine .andThen taken consumed (readAfterLine_determined found settled)
      fun other source rest here => ?_
    simp only [read, here]
  · rw [line] at found
    obtain ⟨front, consumed, taken⟩ := Line.takes_of_read line (by simp)
    obtain ⟨rfl, rfl⟩ := Prod.mk.inj found
    refine .andThen taken consumed (.nothing behind _) fun other source rest here => ?_
    simp only [read, here]
  · rw [line] at found
    obtain ⟨rfl, -⟩ := Prod.mk.inj found
    exact settled.elim

end Reply

/-! ## Requests and replies -/

/-- A request, a refusal and a reply are determined by their own bytes. What a reader came to on
the bytes `front` it comes to wherever they come next, however they are delivered and whatever is
signalled behind them, and it leaves what is behind them as it was; memory has to be granted or
refused as it was for one size, that of the payload. So no reader asks for anything behind the
frame, and a peer that awaits the answer before it sends more is not awaited. -/
theorem takes_of_same_front (alloc : Allocator) (limits : Limits) (source rest : Source)
    (front : Bytes) (consumed : source.bytes = front ++ rest.bytes) :
    (∀ incoming, Incoming.read alloc limits source = (.ok incoming, rest) → incoming ≠ .ended →
      ∃ size ≤ front.length, ∀ other : Allocator, other size = alloc size →
        Reader.Takes (Incoming.read other limits) front (.ok incoming)) ∧
    (∀ result, Reply.read alloc limits source = (result, rest) → Reply.Settled result →
      ∃ size ≤ front.length, ∀ other : Allocator, other size = alloc size →
        Reader.Takes (Reply.read other limits) front result) := by
  refine ⟨fun incoming found present => ?_, fun result found settled => ?_⟩
  · exact (Incoming.read_determined found present).takes consumed
  · exact (Reply.read_determined found settled).takes consumed

/-- A payload that fills its buffer exactly, with a fault behind it that is still to be raised, and
a reply too large for its reader. -/
theorem takes_of_same_front_with_fault_behind :
    let late : Fault := ⟨.timedOut, "late"⟩
    let request := Utf8.encode "CREATE 7 3\r\nabc"
    let reply := Utf8.encode "OK 3\nabc"
    (∃ rest, Incoming.read .unlimited {} (.chunk request (.fault late .ended)) =
        (.ok (.request (.create 7 [97, 98, 99])), rest) ∧
      rest.signals = [.fault late]) ∧
    ∃ rest, Reply.read .unlimited { maxValueSize := 2 } (.chunk reply (.fault late .ended)) =
        (.error (.valueTooLarge 3 2), rest) ∧
      rest.signals = [.fault late] := by
  intro late request reply
  have requestBytes : request = [67, 82, 69, 65, 84, 69, 32, 55, 32, 51, 13, 10, 97, 98, 99] := by
    decide
  have replyBytes : reply = [79, 75, 32, 51, 10, 97, 98, 99] := by decide
  -- the frames are seen first where nothing follows them
  have first := takes_of_same_front .unlimited {} (.ofBytes request) .ended request rfl
  have second := takes_of_same_front .unlimited { maxValueSize := 2 } (.ofBytes reply) .ended
    reply rfl
  rw [requestBytes] at first ⊢
  rw [replyBytes] at second ⊢
  obtain ⟨_, -, asked⟩ := first.1 (.request (.create 7 [97, 98, 99])) rfl nofun
  obtain ⟨_, -, answered⟩ := second.2 (.error (.valueTooLarge 3 2)) rfl trivial
  exact ⟨asked .unlimited rfl _ _ rfl, answered .unlimited rfl _ _ rfl⟩

end WireStore
