import WireStore.Proofs.Frame.Extent
import WireStore.Proofs.Frame.RoundTrip

/-!
# Limits on values, and memory, do not move replies

Two clients that differ in the largest value they keep, and in the memory they
are given for it, read one source in step. After each reply they leave the same
source, and they come to the same, except where a header is followed by all of
the value that it announces: there each of them comes to what its own limit and
memory make of that value (`Reply.received`). How a value falls short depends on
neither.

Everything is said of signals: what stands where a reply is due is a line, and
the line decides whether a value is announced at all.
-/

namespace WireStore.Reply

variable {maxHeaderLength size : Nat} {signals behind : List Signal} {source rest : Source}

/-! ## What is announced -/

/-- A reply is due, and there stands the header of a value of `size` bytes with these signals
behind it. -/
def Announces (maxHeaderLength : Nat) (signals : List Signal) (size : Nat)
    (behind : List Signal) : Prop :=
  ∃ line content, Bytes.Unbroken line ∧
    signals = Signal.octets line ++ .octet Bytes.lineFeed :: behind ∧
    Line.ofLine maxHeaderLength line = .complete content ∧ announcement content = .value size

theorem announces_iff {found : Except Error Line}
    (line : Line.read maxHeaderLength source = (found, rest)) :
    Announces maxHeaderLength source.signals size behind ↔
      ∃ content, found = .ok (.complete content) ∧ announcement content = .value size ∧
        rest.signals = behind := by
  constructor
  · rintro ⟨octets, content, unbroken, same, complete, announced⟩
    obtain ⟨after, result, left⟩ := Line.read_of_line maxHeaderLength unbroken same
    obtain ⟨rfl, rfl⟩ := Prod.mk.inj (line.symm.trans result)
    exact ⟨content, by rw [complete], announced, left⟩
  · rintro ⟨content, rfl, announced, rfl⟩
    obtain ⟨octets, unbroken, complete, same⟩ := Line.exists_of_read line (by simp)
    refine ⟨octets, content, unbroken, ?_, complete.symm, announced⟩
    rw [same, Signal.octets_append, List.append_assoc]
    rfl

/-- Two outcomes of reading a reply off the same signals, by clients of whom one makes `left` of a
value that has arrived and the other `right`. -/
inductive Agree (maxHeaderLength : Nat) (signals : List Signal)
    (left right : Reply → Except Error Reply) : Except Error Reply → Except Error Reply → Prop
  | same (outcome : Except Error Reply)
      (unannounced : ∀ size behind, ¬Announces maxHeaderLength signals size behind) :
      Agree maxHeaderLength signals left right outcome outcome
  | arrived (content : Bytes) (more : List Signal)
      (announced : Announces maxHeaderLength signals content.length
        (Signal.octets content ++ more)) :
      Agree maxHeaderLength signals left right (left (.value content)) (right (.value content))
  | ended (part : Bytes) {size : Nat} (short : part.length < size)
      (announced : Announces maxHeaderLength signals size (Signal.octets part)) :
      Agree maxHeaderLength signals left right (.error (.truncatedValue size part.length))
        (.error (.truncatedValue size part.length))
  | fault (part : Bytes) (reason : Fault) (more : List Signal) {size : Nat}
      (short : part.length < size)
      (announced : Announces maxHeaderLength signals size
        (Signal.octets part ++ .fault reason :: more)) :
      Agree maxHeaderLength signals left right (.error (.io reason)) (.error (.io reason))

/-! ## One reply -/

variable {firstMax secondMax : Nat} {firstAlloc secondAlloc : Allocator}

/-- A value that is announced has arrived, or was cut short by the end or by a fault. -/
theorem readValue_agree
    (announced : Announces maxHeaderLength signals size rest.signals) :
    let first := readValue firstAlloc ⟨firstMax, maxHeaderLength⟩ size rest
    let second := readValue secondAlloc ⟨secondMax, maxHeaderLength⟩ size rest
    Agree maxHeaderLength signals (received firstAlloc ⟨firstMax, maxHeaderLength⟩)
      (received secondAlloc ⟨secondMax, maxHeaderLength⟩) first.1 second.1 ∧
      first.2 = second.2 := by
  obtain ⟨bytes, ends⟩ := Signal.exists_octets rest.signals
  by_cases short : bytes.length < size
  · rcases kept : Payload.keep size rest with ⟨result, after⟩
    rcases ends with same | ⟨reason, later, same⟩
    · have ended := Payload.keep_of_end short same
      rw [kept] at ended
      obtain rfl : result = .error (.ended bytes.length) := ended
      rw [readValue_of_shortfall _ _ kept, readValue_of_shortfall _ _ kept]
      exact ⟨.ended bytes short (same ▸ announced), rfl⟩
    · obtain ⟨behind, raised, -⟩ := Payload.keep_of_fault short same
      obtain ⟨rfl, rfl⟩ := Prod.mk.inj (kept.symm.trans raised)
      rw [readValue_of_shortfall _ _ kept, readValue_of_shortfall _ _ kept]
      exact ⟨.fault bytes reason later short (same ▸ announced), rfl⟩
  · obtain ⟨more, same⟩ : ∃ more, rest.signals = Signal.octets bytes ++ more := by
      rcases ends with same | ⟨reason, later, same⟩
      · exact ⟨[], by rw [same, List.append_nil]⟩
      · exact ⟨_, same⟩
    have enough := Nat.le_of_not_lt short
    obtain ⟨after, kept, -⟩ := Payload.keep_of_enough enough same
    rw [readValue_of_keep _ _ kept, readValue_of_keep _ _ kept]
    refine ⟨.arrived (bytes.take size) (Signal.octets (bytes.drop size) ++ more) ?_, rfl⟩
    rw [List.length_take_of_le enough, ← List.append_assoc, ← Signal.octets_append,
      List.take_append_drop, ← same]
    exact announced

theorem readAfterLine_agree {content : Bytes}
    (line : Line.read maxHeaderLength source = (.ok (.complete content), rest)) :
    let first := readAfterLine firstAlloc ⟨firstMax, maxHeaderLength⟩ content rest
    let second := readAfterLine secondAlloc ⟨secondMax, maxHeaderLength⟩ content rest
    Agree maxHeaderLength source.signals (received firstAlloc ⟨firstMax, maxHeaderLength⟩)
      (received secondAlloc ⟨secondMax, maxHeaderLength⟩) first.1 second.1 ∧
      first.2 = second.2 := by
  unfold readAfterLine
  cases said : announcement content with
  | value size => exact readValue_agree ((announces_iff line).mpr ⟨content, rfl, said, rfl⟩)
  | ok | error text | unexpected =>
    refine ⟨.same _ fun size behind announced => ?_, rfl⟩
    obtain ⟨other, same, value, -⟩ := (announces_iff line).mp announced
    cases same
    exact nomatch said.symm.trans value

/-- A reply is consumed alike, and comes to the same but for what becomes of its value. -/
theorem read_agree (firstMax secondMax : Nat) (firstAlloc secondAlloc : Allocator)
    (maxHeaderLength : Nat) (source : Source) :
    let first := read firstAlloc ⟨firstMax, maxHeaderLength⟩ source
    let second := read secondAlloc ⟨secondMax, maxHeaderLength⟩ source
    Agree maxHeaderLength source.signals (received firstAlloc ⟨firstMax, maxHeaderLength⟩)
      (received secondAlloc ⟨secondMax, maxHeaderLength⟩) first.1 second.1 ∧
      first.2 = second.2 := by
  unfold read
  rcases line : Line.read maxHeaderLength source with ⟨failure | (content | _ | _), rest⟩
  case ok.complete => exact readAfterLine_agree line
  -- where no line was found, or none that is kept, nothing is announced
  all_goals
    refine ⟨.same _ fun size behind announced => ?_, rfl⟩
    obtain ⟨content, same, -⟩ := (announces_iff line).mp announced
    exact nomatch same

/-! ## Reply after reply -/

theorem Agree.goesOn_eq {first second : Except Error Reply}
    (agree : Agree maxHeaderLength signals (received firstAlloc ⟨firstMax, maxHeaderLength⟩)
      (received secondAlloc ⟨secondMax, maxHeaderLength⟩) first second) :
    goesOn first = goesOn second := by
  cases agree with
  | same | ended | fault => rfl
  | arrived content more announced => rw [goesOn_received, goesOn_received]

/-- Two series of readings that started from one source and stayed in step, with the memory that
there was at each turn in the one and in the other. -/
inductive InStep (maxHeaderLength firstMax secondMax : Nat) :
    List (Allocator × Allocator) → Source → List (Except Error Reply × Source) →
      List (Except Error Reply × Source) → Prop
  | done (turns : List (Allocator × Allocator)) (source : Source) :
      InStep maxHeaderLength firstMax secondMax turns source [] []
  | reply {turn : Allocator × Allocator} {turns : List (Allocator × Allocator)}
      {source rest : Source} {first second : Except Error Reply}
      {firsts seconds : List (Except Error Reply × Source)}
      (agree : Agree maxHeaderLength source.signals (received turn.1 ⟨firstMax, maxHeaderLength⟩)
        (received turn.2 ⟨secondMax, maxHeaderLength⟩) first second)
      (later : InStep maxHeaderLength firstMax secondMax turns rest firsts seconds) :
      InStep maxHeaderLength firstMax secondMax (turn :: turns) source ((first, rest) :: firsts)
        ((second, rest) :: seconds)

/-- Whatever the two limits on values are, and whichever buffers can be reserved at each turn in
the one case and in the other, replies are read in step, whether or not reading is resumed after
errors that end a connection. -/
theorem readings_inStep (maxHeaderLength firstMax secondMax : Nat)
    (turns : List (Allocator × Allocator)) (resumed : Bool) (source : Source) :
    InStep maxHeaderLength firstMax secondMax turns source
      (Reader.inTurn (fun outcome => resumed || goesOn outcome)
        (turns.map fun turn => read turn.1 ⟨firstMax, maxHeaderLength⟩) source)
      (Reader.inTurn (fun outcome => resumed || goesOn outcome)
        (turns.map fun turn => read turn.2 ⟨secondMax, maxHeaderLength⟩) source) := by
  induction turns generalizing source with
  | nil => exact .done [] source
  | cons turn turns ih =>
    obtain ⟨agree, left⟩ := read_agree firstMax secondMax turn.1 turn.2 maxHeaderLength source
    simp only [List.map_cons, Reader.inTurn]
    rw [← left, ← agree.goesOn_eq]
    refine .reply agree ?_
    split
    · exact ih _
    · exact .done turns _

end WireStore.Reply
