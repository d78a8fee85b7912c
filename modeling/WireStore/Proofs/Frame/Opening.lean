import WireStore.Frame.Incoming
import WireStore.Proofs.Frame.Stages

/-!
# What bytes begin with

The grammar of a client's byte stream, said without streams: `Opening.of` cuts
the first frame off a byte string, by position alone. A header stands before the
first line feed; a line too long, or with no header on it, is a frame of its own;
a header that announces a payload takes exactly as many bytes as it announces.

A reader of requests finds what the bytes of its source begin with, and leaves
what follows (`read_of_frame`); where they hold less than a frame it comes to
what ends the source.
-/

namespace WireStore

namespace Bytes

/-- The bytes before the first line feed, and those after it. -/
def cutLine? (bytes : Bytes) : Option (Bytes × Bytes) :=
  match bytes.dropWhile (· != lineFeed) with
  | [] => none
  | _ :: rest => some (bytes.takeWhile (· != lineFeed), rest)

theorem unbroken_takeWhile (bytes : Bytes) : Unbroken (bytes.takeWhile (· != lineFeed)) := by
  intro mem
  have := List.all_takeWhile (p := (· != lineFeed)) (l := bytes)
  simpa using List.all_eq_true.mp this _ mem

theorem cutLine?_append {line : Bytes} (unbroken : line.Unbroken) (rest : Bytes) :
    cutLine? (line ++ lineFeed :: rest) = some (line, rest) := by
  have goes : ∀ value ∈ line, (value != lineFeed) = true := by
    intro value mem
    simpa [bne] using unbroken.clear value mem
  unfold cutLine?
  rw [List.dropWhile_append_of_pos goes, List.takeWhile_append_of_pos goes]
  simp

/-- A line is cut off before the first line feed. -/
theorem cutLine?_eq_some_iff {bytes line rest : Bytes} :
    cutLine? bytes = some (line, rest) ↔ line.Unbroken ∧ bytes = line ++ lineFeed :: rest := by
  constructor
  · intro split
    unfold cutLine? at split
    split at split
    · simp at split
    next octet after here =>
      obtain ⟨rfl, rfl⟩ := by simpa using split
      refine ⟨unbroken_takeWhile bytes, ?_⟩
      have ends : octet = lineFeed := by
        have := List.head?_dropWhile_not (· != lineFeed) bytes
        rw [here] at this
        simpa using this
      have whole := List.takeWhile_append_dropWhile (p := (· != lineFeed)) (l := bytes)
      rw [here, ends] at whole
      exact whole.symm
  · rintro ⟨unbroken, rfl⟩
    exact cutLine?_append unbroken rest

theorem cutLine?_eq_none_iff {bytes : Bytes} : cutLine? bytes = none ↔ bytes.Unbroken := by
  constructor
  · intro none
    unfold cutLine? at none
    split at none
    next here =>
      have whole := List.takeWhile_append_dropWhile (p := (· != lineFeed)) (l := bytes)
      rw [here, List.append_nil] at whole
      exact whole ▸ unbroken_takeWhile bytes
    · simp at none
  · intro unbroken
    cases split : cutLine? bytes with
    | none => rfl
    | some parts =>
      obtain ⟨-, rfl⟩ := cutLine?_eq_some_iff.mp split
      exact absurd (List.mem_append_right _ List.mem_cons_self) unbroken

end Bytes

/-- What stands at the beginning of some bytes, where a request is due. -/
inductive Opening where
  /-- A frame, which is a request or is refused, and what follows it. -/
  | frame (outcome : Except Error Request) (rest : Bytes)
  /-- Less than a line. -/
  | partialLine
  /-- A header, and less than the payload that it announces. -/
  | partialPayload (expected received : Nat)

namespace Opening

/-- Goes on with a payload of `size` bytes. -/
def ofPayload (maxSize size : Nat) (complete : Bytes → Request) (bytes : Bytes) : Opening :=
  if bytes.length < size then .partialPayload size bytes.length
  else if maxSize < size then .frame (.error .malformed) (bytes.drop size)
  else .frame (.ok (complete (bytes.take size))) (bytes.drop size)

/-- Goes on behind a header. -/
def ofHeader (maxSize : Nat) (header : Header) (bytes : Bytes) : Opening :=
  match header.method with
  | .create => ofPayload maxSize header.size (.create header.key) bytes
  | .update =>
    if header.size = 0 then .frame (.error .emptyUpdate) bytes
    else ofPayload maxSize header.size (.update header.key) bytes
  | .read => .frame (.ok (.read header.key)) bytes
  | .delete => .frame (.ok (.delete header.key)) bytes

/-- Goes on behind a line. -/
def ofLine (limits : Limits) (line bytes : Bytes) : Opening :=
  if limits.maxHeaderLength < line.length then .frame (.error .malformed) bytes
  else
    match Header.parse line with
    | .error reason => .frame (.error reason) bytes
    | .ok header => ofHeader limits.maxValueSize header bytes

/-- What some bytes begin with. -/
def of (limits : Limits) (bytes : Bytes) : Opening :=
  match bytes.cutLine? with
  | none => .partialLine
  | some (line, rest) => ofLine limits (line.stripLast Bytes.carriageReturn) rest

variable {limits : Limits} {maxSize size : Nat} {header : Header} {bytes rest line : Bytes}
  {outcome : Except Error Request} {complete : Bytes → Request}

theorem length_ofPayload_le
    (found : ofPayload maxSize size complete bytes = .frame outcome rest) :
    rest.length ≤ bytes.length := by
  unfold ofPayload at found
  split at found
  · cases found
  · split at found <;> cases found <;> exact (List.drop_sublist ..).length_le

theorem length_ofLine_le (found : ofLine limits line bytes = .frame outcome rest) :
    rest.length ≤ bytes.length := by
  unfold ofLine ofHeader at found
  repeat' split at found
  all_goals first
    | exact length_ofPayload_le found
    | cases found; exact Nat.le_refl _

/-- A frame takes at least its line feed. -/
theorem length_rest_lt (found : of limits bytes = .frame outcome rest) :
    rest.length < bytes.length := by
  unfold of at found
  split at found
  · cases found
  next line after split =>
    obtain ⟨-, rfl⟩ := Bytes.cutLine?_eq_some_iff.mp split
    have := length_ofLine_le found
    simp only [List.length_append, List.length_cons]
    omega

/-- The value of a request that was found stood among the bytes. -/
theorem length_value_le {request : Request} {value : Bytes}
    (found : of limits bytes = .frame (.ok request) rest) (carried : request.value? = some value) :
    value.length ≤ bytes.length := by
  unfold of at found
  split at found
  · cases found
  next line after split =>
    obtain ⟨-, rfl⟩ := Bytes.cutLine?_eq_some_iff.mp split
    unfold ofLine ofHeader ofPayload at found
    repeat' split at found
    all_goals cases found
    all_goals simp only [Request.value?, Option.some.injEq, reduceCtorEq] at carried
    all_goals
      subst carried
      simp only [List.length_take, List.length_append, List.length_cons]
      omega

/-- Holds if memory is granted for the value of what was found, where it is a request and
carries one. -/
def Granted (alloc : Allocator) (outcome : Except Error Request) : Prop :=
  ∀ request value, outcome = .ok request → request.value? = some value → alloc value.length = true

theorem granted_of_length {alloc : Allocator} (memory : ∀ size ≤ bytes.length, alloc size = true)
    (found : of limits bytes = .frame outcome rest) : Granted alloc outcome := by
  rintro request value rfl carried
  exact memory _ (length_value_le found carried)

/-- A line that is no header is malformed, or begins with an unknown verb. -/
theorem reason_of_parse {reason : Error} (refused : Header.parse line = .error reason) :
    reason = .malformed ∨ reason = .unknownCommand := by
  unfold Header.parse at refused
  split at refused
  · exact .inl (Except.error.inj refused).symm
  · simp only at refused
    split at refused
    · exact .inl (Except.error.inj refused).symm
    · split at refused
      · exact .inr (Except.error.inj refused).symm
      · split at refused
        · exact .inl (Except.error.inj refused).symm
        · cases refused

/-- The reasons for which a frame that was consumed is refused. -/
theorem reason_of_refusal {reason : Error} (found : of limits bytes = .frame (.error reason) rest) :
    reason = .malformed ∨ reason = .unknownCommand ∨ reason = .emptyUpdate := by
  unfold of at found
  split at found
  · cases found
  · unfold ofLine at found
    split at found
    · cases found
      exact .inl rfl
    · split at found
      next refused =>
        cases found
        rcases reason_of_parse refused with rfl | rfl
        · exact .inl rfl
        · exact .inr (.inl rfl)
      · unfold ofHeader ofPayload at found
        repeat' split at found
        all_goals cases found
        all_goals first
          | exact .inl rfl
          | exact .inr (.inr rfl)

end Opening

namespace Incoming

variable {alloc : Allocator} {limits : Limits} {header : Header} {source : Source}
  {bytes rest line : Bytes} {outcome : Except Error Request} {more : List Signal}
  {reason : Fault} {expected received : Nat}

/-- What a server finds in place of a frame that is all there. -/
def ofOutcome : Except Error Request → Incoming
  | .ok content => .request content
  | .error reason => .rejected reason

/-! ## Whole frames -/

theorem readPayload_of_frame {complete : Bytes → Request}
    (granted : Opening.Granted alloc outcome)
    (completes : ∀ value, Request.ofHeader header value = complete value)
    (carries : ∀ value, (complete value).value? = some value)
    (found : Opening.ofPayload limits.maxValueSize header.size complete bytes =
      .frame outcome rest)
    (same : source.signals = Signal.octets bytes ++ more) :
    ∃ after, readPayload alloc limits header source = (.ok (ofOutcome outcome), after) ∧
      after.signals = Signal.octets rest ++ more := by
  unfold Opening.ofPayload at found
  split at found
  · cases found
  next enough =>
    obtain ⟨after, kept, left⟩ := Payload.keep_of_enough (Nat.le_of_not_lt enough) same
    unfold readPayload
    rw [Payload.read_eq, kept]
    simp only [Except.map, Payload.judge]
    split at found
    next large =>
      cases found
      simp only [large, if_true]
      exact ⟨after, rfl, left⟩
    next fits =>
      cases found
      have room := granted _ _ rfl (carries _)
      rw [List.length_take_of_le (Nat.le_of_not_lt enough)] at room
      simp only [fits, room, if_true, if_false, completes]
      exact ⟨after, rfl, left⟩

theorem readAfterLine_of_frame (granted : Opening.Granted alloc outcome)
    (parsed : Header.parse line = .ok header)
    (found : Opening.ofHeader limits.maxValueSize header bytes = .frame outcome rest)
    (same : source.signals = Signal.octets bytes ++ more) :
    ∃ after, readAfterLine alloc limits line source = (.ok (ofOutcome outcome), after) ∧
      after.signals = Signal.octets rest ++ more := by
  unfold readAfterLine
  rw [parsed]
  rcases header with ⟨method, key, size⟩
  cases method with
  | create => exact readPayload_of_frame granted (fun _ => rfl) (fun _ => rfl) found same
  | update =>
    simp only [Opening.ofHeader] at found
    split at found
    next empty =>
      cases found
      simp only [empty, and_self, if_true]
      exact ⟨source, rfl, same⟩
    next announced =>
      simp only [announced, and_false, if_false, Method.carriesValue, if_true]
      exact readPayload_of_frame granted (fun _ => rfl) (fun _ => rfl) found same
  | read =>
    cases found
    exact ⟨source, rfl, same⟩
  | delete =>
    cases found
    exact ⟨source, rfl, same⟩

/-- A line within the limit is gone on from; one beyond it is a frame of its own. -/
theorem read_of_line (alloc : Allocator) (limits : Limits) (unbroken : line.Unbroken)
    (same : source.signals = Signal.octets line ++ .octet Bytes.lineFeed :: more) :
    ∃ after, after.signals = more ∧
      read alloc limits source =
        if limits.maxHeaderLength < (line.stripLast Bytes.carriageReturn).length then
          (.ok (.rejected .malformed), after)
        else readAfterLine alloc limits (line.stripLast Bytes.carriageReturn) after := by
  obtain ⟨after, found, left⟩ := Line.read_of_line limits.maxHeaderLength unbroken same
  refine ⟨after, left, ?_⟩
  unfold read
  rw [found, Line.ofLine]
  by_cases long : limits.maxHeaderLength < (line.stripLast Bytes.carriageReturn).length
  · rw [if_pos long, if_neg (Nat.not_le_of_lt long)]
  · rw [if_neg long, if_pos (Nat.le_of_not_lt long)]

/-- A frame that is all there is found, whatever follows it, and nothing behind it is touched. -/
theorem read_of_frame (granted : Opening.Granted alloc outcome)
    (found : Opening.of limits bytes = .frame outcome rest)
    (same : source.signals = Signal.octets bytes ++ more) :
    ∃ after, read alloc limits source = (.ok (ofOutcome outcome), after) ∧
      after.signals = Signal.octets rest ++ more := by
  unfold Opening.of at found
  split at found
  · cases found
  next line behind split =>
    obtain ⟨unbroken, rfl⟩ := Bytes.cutLine?_eq_some_iff.mp split
    rw [Signal.octets_append, Signal.octets_cons, List.append_assoc, List.cons_append] at same
    obtain ⟨after, left, result⟩ := read_of_line alloc limits unbroken same
    rw [result]
    unfold Opening.ofLine at found
    split at found
    next long =>
      cases found
      rw [if_pos long]
      exact ⟨after, rfl, left⟩
    next fits =>
      rw [if_neg fits]
      split at found
      next reason refused =>
        cases found
        unfold readAfterLine
        rw [refused]
        exact ⟨after, rfl, left⟩
      next header parsed =>
        exact readAfterLine_of_frame granted parsed found left

/-! ## Less than a frame -/

theorem unbroken_of_partialLine (found : Opening.of limits bytes = .partialLine) :
    bytes.Unbroken := by
  unfold Opening.of at found
  split at found
  next none => exact Bytes.cutLine?_eq_none_iff.mp none
  · unfold Opening.ofLine Opening.ofHeader Opening.ofPayload at found
    repeat' split at found
    all_goals cases found

/-- A source that ends within a line is found to end there, and quietly only if no byte of the
line has come. -/
theorem read_of_partialLine (alloc : Allocator)
    (found : Opening.of limits bytes = .partialLine)
    (same : source.signals = Signal.octets bytes) :
    (read alloc limits source).1 =
      if bytes = [] then .ok .ended else .error (.io .brokenLine) := by
  have ended := Line.read_of_end limits.maxHeaderLength (unbroken_of_partialLine found) same
  unfold read
  rcases line : Line.read limits.maxHeaderLength source with ⟨result, rest⟩
  rw [line] at ended
  obtain rfl : result = Line.ofEnd bytes := ended
  cases bytes <;> rfl

/-- Where a payload is cut short, its header and the bytes of it that came are all there is. -/
theorem read_of_partialPayload_prefix (alloc : Allocator)
    (found : Opening.of limits bytes = .partialPayload expected received)
    (same : source.signals = Signal.octets bytes ++ more) :
    ∃ header payload after, read alloc limits source = readPayload alloc limits header after ∧
      after.signals = Signal.octets payload ++ more ∧ header.size = expected ∧
      payload.length = received ∧ received < expected := by
  unfold Opening.of at found
  split at found
  · cases found
  next line behind split =>
    obtain ⟨unbroken, rfl⟩ := Bytes.cutLine?_eq_some_iff.mp split
    rw [Signal.octets_append, Signal.octets_cons, List.append_assoc, List.cons_append] at same
    obtain ⟨after, left, result⟩ := read_of_line alloc limits unbroken same
    unfold Opening.ofLine at found
    split at found
    · cases found
    next fits =>
      rw [if_neg fits] at result
      split at found
      · cases found
      next header parsed =>
        refine ⟨header, behind, after, ?_, left, ?_⟩
        · rw [result]
          unfold readAfterLine
          rw [parsed]
          unfold Opening.ofHeader at found
          rcases header with ⟨_ | _ | _ | _, key, size⟩ <;> simp only at found
          · rfl
          · split at found
            · cases found
            next announced => simp [announced, Method.carriesValue]
          · cases found
          · cases found
        · unfold Opening.ofHeader Opening.ofPayload at found
          repeat' split at found
          all_goals cases found
          all_goals exact ⟨rfl, rfl, ‹_›⟩

theorem read_of_partialPayload (alloc : Allocator)
    (found : Opening.of limits bytes = .partialPayload expected received)
    (same : source.signals = Signal.octets bytes) :
    (read alloc limits source).1 = .error (.prematureEnd expected received) := by
  rw [← List.append_nil (Signal.octets bytes)] at same
  obtain ⟨header, payload, after, result, left, rfl, rfl, short⟩ :=
    read_of_partialPayload_prefix alloc found same
  rw [List.append_nil] at left
  have ended := Payload.keep_of_end short left
  rw [result]
  unfold readPayload
  rw [Payload.read_eq, ended]
  rfl

/-- A fault within a line or a payload is what a server finds there. -/
theorem read_of_fault (alloc : Allocator)
    (partly : ∀ outcome rest, Opening.of limits bytes ≠ .frame outcome rest)
    (same : source.signals = Signal.octets bytes ++ .fault reason :: more) :
    (read alloc limits source).1 = .error (.io reason) := by
  cases found : Opening.of limits bytes with
  | frame outcome rest => exact absurd found (partly outcome rest)
  | partialLine =>
    obtain ⟨after, raised, -⟩ := Line.read_of_fault limits.maxHeaderLength
      (unbroken_of_partialLine found) same
    unfold read
    rw [raised]
  | partialPayload expected received =>
    obtain ⟨header, payload, after, result, left, rfl, rfl, short⟩ :=
      read_of_partialPayload_prefix alloc found same
    obtain ⟨behind, raised, -⟩ := Payload.keep_of_fault short left
    rw [result]
    unfold readPayload
    rw [Payload.read_eq, raised]
    rfl

end Incoming

end WireStore
