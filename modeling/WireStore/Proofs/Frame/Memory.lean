import WireStore.Frame.Incoming
import WireStore.Stream.Reader

/-!
# Limits on values, and memory, do not move frames

How large a payload may be, and whether room for it can be reserved, decides
what becomes of the request that carries it and nothing else. Two servers that
differ in these only and read the same source read it in step: after each frame
they leave the same source, and they find the same, except that where a header
is followed by all of the payload it announces each may find the request, or
refuse it as too large, or refuse it for want of memory.
-/

namespace WireStore.Incoming

variable {maxHeaderLength : Nat} {limits : Limits} {alloc : Allocator} {header : Header}
  {value : Bytes} {source rest : Source}

/-! ## One frame -/

/-- What may become of a request whose payload arrived in full. -/
inductive Fate (header : Header) (value : Bytes) : Except Error Incoming → Prop where
  | kept : Fate header value (.ok (.request (.ofHeader header value)))
  | tooLarge : Fate header value (.ok (.rejected .malformed))
  | unreservable : Fate header value (.ok (.rejected .outOfMemory))

/-- The source begins with the header of a request that carries a value, and the whole of
that value follows. -/
structure Carries (maxHeaderLength : Nat) (source : Source) (header : Header) (value : Bytes) :
    Prop where
  carriesValue : header.method.carriesValue = true
  line : ∃ content rest, Line.read maxHeaderLength source = (.ok (.complete content), rest) ∧
    Header.parse content = .ok header ∧ (Payload.keep header.size rest).1 = .ok value
  length : value.length = header.size

/-- Two outcomes of reading a frame from one source that agree but for the fate of a payload. -/
inductive Agree (maxHeaderLength : Nat) (source : Source) :
    Except Error Incoming → Except Error Incoming → Prop where
  | same (outcome : Except Error Incoming) : Agree maxHeaderLength source outcome outcome
  | payload {header : Header} {value : Bytes} {first second : Except Error Incoming}
      (carried : Carries maxHeaderLength source header value) (left : Fate header value first)
      (right : Fate header value second) : Agree maxHeaderLength source first second

/-- A payload that is there in full makes a request, or is refused. -/
theorem readPayload_of_keep (kept : Payload.keep header.size source = (.ok value, rest)) :
    ∃ outcome, readPayload alloc limits header source = (outcome, rest) ∧
      Fate header value outcome := by
  unfold readPayload
  rw [Payload.read_eq, kept]
  simp only [Except.map, Payload.judge]
  by_cases large : limits.maxValueSize < header.size
  · simp only [large, if_true]
    exact ⟨_, rfl, .tooLarge⟩
  · by_cases room : alloc header.size = true
    · simp only [large, room, if_true, if_false]
      exact ⟨_, rfl, .kept⟩
    · simp only [large, room, if_false]
      exact ⟨_, rfl, .unreservable⟩

/-- The error that a payload cut short comes to. -/
def ofShortfall (header : Header) : Shortfall → Error
  | .ended received => .prematureEnd header.size received
  | .fault reason => .io reason

/-- Limit and memory have no part in how a payload falls short. -/
theorem readPayload_of_shortfall {shortfall : Shortfall}
    (short : Payload.keep header.size source = (.error shortfall, rest)) :
    readPayload alloc limits header source = (.error (ofShortfall header shortfall), rest) := by
  unfold readPayload
  rw [Payload.read_eq, short]
  cases shortfall <;> rfl

variable {firstMax secondMax : Nat} {firstAlloc secondAlloc : Allocator}

theorem readAfterLine_agree {content : Bytes}
    (line : Line.read maxHeaderLength source = (.ok (.complete content), rest)) :
    let first := readAfterLine firstAlloc ⟨firstMax, maxHeaderLength⟩ content rest
    let second := readAfterLine secondAlloc ⟨secondMax, maxHeaderLength⟩ content rest
    Agree maxHeaderLength source first.1 second.1 ∧ first.2 = second.2 := by
  unfold readAfterLine
  cases parsed : Header.parse content with
  | error reason => exact ⟨.same _, rfl⟩
  | ok header =>
    simp only
    split
    · exact ⟨.same _, rfl⟩
    · split
      next carries =>
        rcases body : Payload.keep header.size rest with ⟨shortfall | value, after⟩
        · rw [readPayload_of_shortfall body, readPayload_of_shortfall body]
          exact ⟨.same _, rfl⟩
        · obtain ⟨left, first, leftFate⟩ :=
            @readPayload_of_keep ⟨firstMax, maxHeaderLength⟩ firstAlloc _ _ _ _ body
          obtain ⟨right, second, rightFate⟩ :=
            @readPayload_of_keep ⟨secondMax, maxHeaderLength⟩ secondAlloc _ _ _ _ body
          rw [first, second]
          have carried : Carries maxHeaderLength source header value :=
            ⟨carries, ⟨content, rest, line, parsed, congrArg Prod.fst body⟩,
              Payload.length_of_keep body⟩
          exact ⟨.payload carried leftFate rightFate, rfl⟩
      · exact ⟨.same _, rfl⟩

/-- A frame is consumed alike, and found alike but for the fate of its payload. -/
theorem read_agree (firstMax secondMax : Nat) (firstAlloc secondAlloc : Allocator)
    (maxHeaderLength : Nat) (source : Source) :
    let first := read firstAlloc ⟨firstMax, maxHeaderLength⟩ source
    let second := read secondAlloc ⟨secondMax, maxHeaderLength⟩ source
    Agree maxHeaderLength source first.1 second.1 ∧ first.2 = second.2 := by
  unfold read
  rcases line : Line.read maxHeaderLength source with ⟨_ | (_ | _ | _), rest⟩
  · exact ⟨.same _, rfl⟩
  · exact readAfterLine_agree line
  · exact ⟨.same _, rfl⟩
  · exact ⟨.same _, rfl⟩

/-! ## Frame after frame -/

/-- Reading goes on after a frame; it ends with the source, and with an error unless it is to
be resumed after errors. -/
def goesOn (resumed : Bool) : Except Error Incoming → Bool
  | .ok .ended => false
  | .ok _ => true
  | .error _ => resumed

theorem Fate.goesOn {outcome : Except Error Incoming} (fate : Fate header value outcome)
    (resumed : Bool) : goesOn resumed outcome = true := by
  cases fate <;> rfl

theorem Agree.goesOn_eq {first second : Except Error Incoming}
    (agree : Agree maxHeaderLength source first second) (resumed : Bool) :
    goesOn resumed first = goesOn resumed second := by
  cases agree with
  | same => rfl
  | payload carried left right => rw [left.goesOn, right.goesOn]

/-- Two series of readings that started from one source and stayed in step: as many outcomes,
after each the same source left, and outcomes that agree. -/
inductive InStep (maxHeaderLength : Nat) :
    Source → List (Except Error Incoming × Source) → List (Except Error Incoming × Source) →
      Prop where
  | done (source : Source) : InStep maxHeaderLength source [] []
  | frame {source rest : Source} {first second : Except Error Incoming}
      {firsts seconds : List (Except Error Incoming × Source)}
      (agree : Agree maxHeaderLength source first second)
      (later : InStep maxHeaderLength rest firsts seconds) :
      InStep maxHeaderLength source ((first, rest) :: firsts) ((second, rest) :: seconds)

/-- Whatever the two limits on values are, and whichever buffers can be reserved at each call
in the one case and in the other, the same source is read in step. -/
theorem inTurn_inStep (maxHeaderLength firstMax secondMax : Nat)
    (turns : List (Allocator × Allocator)) (resumed : Bool) (source : Source) :
    InStep maxHeaderLength source
      (Reader.inTurn (goesOn resumed)
        (turns.map fun turn => read turn.1 ⟨firstMax, maxHeaderLength⟩) source)
      (Reader.inTurn (goesOn resumed)
        (turns.map fun turn => read turn.2 ⟨secondMax, maxHeaderLength⟩) source) := by
  induction turns generalizing source with
  | nil => exact .done source
  | cons turn turns ih =>
    obtain ⟨agree, left⟩ := read_agree firstMax secondMax turn.1 turn.2 maxHeaderLength source
    simp only [List.map_cons, Reader.inTurn]
    rw [← left, ← agree.goesOn_eq resumed]
    refine .frame agree ?_
    split
    · exact ih _
    · exact .done _

end WireStore.Incoming
