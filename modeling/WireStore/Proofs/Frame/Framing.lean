import WireStore.Proofs.Frame.Opening

/-!
# Bytes cut into frames

Where a frame ends can be told from the frame itself: behind a line stands a payload of so many
bytes, or none (`ofLine_eq`). So bytes that come after a frame do not change it, and bytes are cut
into the same frames however much of them is looked at at once (`frames_append`). What is left in
the end is less than a frame, and what was cut is the longest front that is made of frames.
-/

namespace WireStore.Opening

variable {limits : Limits} {bytes front rest left line : Bytes} {outcome : Except Error Request}
  {outcomes : List (Except Error Request)}

/-! ## One frame -/

/-- Behind a line stands a payload whose size the line tells, or nothing. -/
theorem ofLine_eq (limits : Limits) (line : Bytes) :
    ∃ (size : Nat) (complete : Bytes → Except Error Request), ∀ bytes,
      ofLine limits line bytes =
        if bytes.length < size then .partialPayload size bytes.length
        else .frame (complete (bytes.take size)) (bytes.drop size) := by
  have payload (size : Nat) (make : Bytes → Request) :
      ∃ (number : Nat) (complete : Bytes → Except Error Request), ∀ bytes,
        ofPayload limits.maxValueSize size make bytes =
          if bytes.length < number then .partialPayload number bytes.length
          else .frame (complete (bytes.take number)) (bytes.drop number) := by
    refine ⟨size, fun value =>
      if limits.maxValueSize < size then .error .malformed else .ok (make value), fun bytes => ?_⟩
    unfold ofPayload
    split
    · rfl
    · split <;> rfl
  have alone (outcome : Except Error Request) :
      ∃ (number : Nat) (complete : Bytes → Except Error Request), ∀ bytes : Bytes,
        Opening.frame outcome bytes =
          if bytes.length < number then .partialPayload number bytes.length
          else .frame (complete (bytes.take number)) (bytes.drop number) :=
    ⟨0, fun _ => outcome, fun _ => rfl⟩
  unfold ofLine
  split
  · exact alone _
  · split
    · exact alone _
    next header _ =>
      unfold ofHeader
      split
      · exact payload ..
      · split
        · exact alone _
        · exact payload ..
      · exact alone _
      · exact alone _

/-- What a frame is made of, and that the same line and payload make the same frame elsewhere. -/
theorem parts_of_frame (found : of limits bytes = .frame outcome rest) :
    ∃ line payload, bytes = line ++ Bytes.lineFeed :: (payload ++ rest) ∧
      ∀ tail, of limits (line ++ Bytes.lineFeed :: (payload ++ tail)) = .frame outcome tail := by
  unfold of at found
  split at found
  · cases found
  next line behind cut =>
    obtain ⟨unbroken, rfl⟩ := Bytes.cutLine?_eq_some_iff.mp cut
    obtain ⟨size, complete, goesOn⟩ := ofLine_eq limits (line.stripLast Bytes.carriageReturn)
    rw [goesOn] at found
    split at found
    · cases found
    next enough =>
      obtain ⟨rfl, rfl⟩ := Opening.frame.inj found
      have length : (behind.take size).length = size :=
        List.length_take_of_le (Nat.le_of_not_lt enough)
      refine ⟨line, behind.take size, by rw [List.take_append_drop], fun tail => ?_⟩
      have still : ¬(behind.take size ++ tail).length < size := by
        rw [List.length_append, length]
        omega
      unfold of
      rw [Bytes.cutLine?_append unbroken]
      simp only [goesOn, if_neg still, List.take_left' length, List.drop_left' length]

/-- A frame is found whatever comes behind it. -/
theorem of_append (found : of limits bytes = .frame outcome rest) (tail : Bytes) :
    of limits (bytes ++ tail) = .frame outcome (rest ++ tail) := by
  obtain ⟨line, payload, rfl, elsewhere⟩ := parts_of_frame found
  rw [← elsewhere (rest ++ tail)]
  simp only [List.append_assoc, List.cons_append]

theorem exists_front_of_frame (found : of limits bytes = .frame outcome rest) :
    ∃ front, bytes = front ++ rest ∧ of limits front = .frame outcome [] := by
  obtain ⟨line, payload, rfl, elsewhere⟩ := parts_of_frame found
  refine ⟨line ++ Bytes.lineFeed :: (payload ++ []), ?_, elsewhere []⟩
  simp only [List.append_assoc, List.cons_append, List.append_nil]

/-! ## All frames -/

/-- The frames at the beginning of some bytes, and the bytes left, which are less than a frame. -/
def frames (limits : Limits) (bytes : Bytes) : List (Except Error Request) × Bytes :=
  match _ : of limits bytes with
  | .frame outcome rest =>
    let later := frames limits rest
    (outcome :: later.1, later.2)
  | _ => ([], bytes)
termination_by bytes.length
decreasing_by exact length_rest_lt ‹_›

theorem frames_of_frame (found : of limits bytes = .frame outcome rest) :
    frames limits bytes = (outcome :: (frames limits rest).1, (frames limits rest).2) := by
  rw [frames]
  split
  next outcome' rest' found' =>
    obtain ⟨rfl, rfl⟩ := Opening.frame.inj (found.symm.trans found')
    rfl
  next partly => exact absurd found (partly outcome rest)

theorem frames_of_partial (partly : ∀ outcome rest, of limits bytes ≠ .frame outcome rest) :
    frames limits bytes = ([], bytes) := by
  rw [frames]
  split
  next outcome rest found => exact absurd found (partly outcome rest)
  · rfl

@[simp]
theorem frames_nil (limits : Limits) : frames limits [] = ([], []) :=
  frames_of_partial fun _ _ found => nomatch found

theorem frame_or_partial (limits : Limits) (bytes : Bytes) :
    (∃ outcome rest, of limits bytes = .frame outcome rest) ∨
      ∀ outcome rest, of limits bytes ≠ .frame outcome rest := by
  by_cases whole : ∃ outcome rest, of limits bytes = .frame outcome rest
  · exact .inl whole
  · exact .inr fun outcome rest found => whole ⟨outcome, rest, found⟩

theorem frames_eq_cons (framed : frames limits bytes = (outcome :: outcomes, left)) :
    ∃ rest, of limits bytes = .frame outcome rest ∧ frames limits rest = (outcomes, left) := by
  rcases frame_or_partial limits bytes with ⟨outcome', rest, found⟩ | partly
  · rw [frames_of_frame found] at framed
    obtain ⟨⟨rfl, rfl⟩, rfl⟩ := by simpa using framed
    exact ⟨rest, found, rfl⟩
  · rw [frames_of_partial partly] at framed
    exact nomatch (Prod.mk.inj framed).1

theorem frames_eq_nil (framed : frames limits bytes = ([], left)) : left = bytes := by
  rcases frame_or_partial limits bytes with ⟨outcome, rest, found⟩ | partly
  · rw [frames_of_frame found] at framed
    exact nomatch (Prod.mk.inj framed).1
  · rw [frames_of_partial partly] at framed
    exact (Prod.mk.inj framed).2.symm

/-- What is left is less than a frame. -/
theorem partial_of_frames (limits : Limits) (bytes : Bytes) :
    ∀ outcome rest, of limits (frames limits bytes).2 ≠ .frame outcome rest := by
  induction bytes using frames.induct limits with
  | case1 bytes outcome rest found ih =>
    rw [frames_of_frame found]
    exact ih
  | case2 bytes partly =>
    rw [frames_of_partial partly]
    exact partly

/-- Every frame is cut off where the bytes seen so far hold it, and no later byte moves it. -/
theorem frames_append (limits : Limits) (bytes tail : Bytes) :
    frames limits (bytes ++ tail) =
      ((frames limits bytes).1 ++ (frames limits ((frames limits bytes).2 ++ tail)).1,
        (frames limits ((frames limits bytes).2 ++ tail)).2) := by
  induction bytes using frames.induct limits with
  | case1 bytes outcome rest found ih =>
    rw [frames_of_frame (of_append found tail), frames_of_frame found, ih]
    rfl
  | case2 bytes partly => rw [frames_of_partial partly, List.nil_append]

theorem granted_of_frames {alloc : Allocator} (memory : ∀ size ≤ bytes.length, alloc size = true) :
    ∀ outcome ∈ (frames limits bytes).1, Granted alloc outcome := by
  induction bytes using frames.induct limits with
  | case1 bytes outcome rest found ih =>
    rw [frames_of_frame found]
    intro other mem
    rcases List.mem_cons.mp mem with rfl | later
    · exact granted_of_length memory found
    · have shorter := length_rest_lt found
      exact ih (fun size small => memory size (by omega)) other later
  | case2 bytes partly =>
    rw [frames_of_partial partly]
    exact fun _ mem => absurd mem List.not_mem_nil

/-! ## Fronts made of frames -/

/-- Holds of bytes that are cut into frames with nothing left. -/
def Whole (limits : Limits) (bytes : Bytes) : Prop := (frames limits bytes).2 = []

theorem whole_nil (limits : Limits) : Whole limits [] := congrArg Prod.snd (frames_nil limits)

theorem Whole.frames_append (whole : Whole limits front) (tail : Bytes) :
    frames limits (front ++ tail) =
      ((frames limits front).1 ++ (frames limits tail).1, (frames limits tail).2) := by
  rw [Opening.frames_append, whole, List.nil_append]

theorem Whole.append (first : Whole limits front) (second : Whole limits bytes) :
    Whole limits (front ++ bytes) := by
  unfold Whole
  rw [first.frames_append]
  exact second

/-- The bytes in front of what is left are made of the frames that were cut off. -/
theorem exists_front_of_frames (limits : Limits) (bytes : Bytes) :
    ∃ front, bytes = front ++ (frames limits bytes).2 ∧
      frames limits front = ((frames limits bytes).1, []) := by
  induction bytes using frames.induct limits with
  | case1 bytes outcome rest found ih =>
    obtain ⟨first, cut, alone⟩ := exists_front_of_frame found
    obtain ⟨front, whole, framed⟩ := ih
    refine ⟨first ++ front, ?_, ?_⟩
    · rw [frames_of_frame found, List.append_assoc, ← whole, cut]
    · rw [frames_of_frame (of_append alone front), List.nil_append, framed,
        frames_of_frame found]
  | case2 bytes partly =>
    rw [frames_of_partial partly]
    exact ⟨[], rfl, frames_nil limits⟩

/-- Holds of the longest front of some bytes that is made of frames. -/
structure LongestWhole (limits : Limits) (bytes front : Bytes) : Prop where
  isFront : front <+: bytes
  whole : Whole limits front
  longest : ∀ other, other <+: bytes → Whole limits other → other.length ≤ front.length

/-- A front made of frames goes no further than the frames that are cut off. -/
theorem Whole.length_le (whole : Whole limits front) (tail : Bytes) :
    (frames limits (front ++ tail)).2.length ≤ tail.length := by
  rw [whole.frames_append]
  obtain ⟨first, cut, -⟩ := exists_front_of_frames limits tail
  have length := congrArg List.length cut
  rw [List.length_append] at length
  simp only
  omega

/-- The bytes in front of what is left are the longest front made of frames. -/
theorem longestWhole_iff : LongestWhole limits bytes front ↔
    bytes = front ++ (frames limits bytes).2 ∧
      frames limits front = ((frames limits bytes).1, []) := by
  constructor
  · intro longest
    -- Both fronts are made of frames, so neither is longer than the other.
    obtain ⟨cut, same, framed⟩ := exists_front_of_frames limits bytes
    obtain ⟨behind, rfl⟩ := longest.isFront
    have atMost := longest.longest cut ⟨_, same.symm⟩ (congrArg Prod.snd framed)
    have atLeast := longest.whole.length_le behind
    have lengths := congrArg List.length same
    simp only [List.length_append] at lengths
    obtain ⟨rfl, rest⟩ := List.append_inj same (by omega)
    exact ⟨congrArg _ rest, framed⟩
  · rintro ⟨same, framed⟩
    refine ⟨⟨_, same.symm⟩, congrArg Prod.snd framed, ?_⟩
    rintro other ⟨behind, rfl⟩ whole
    have atLeast := whole.length_le behind
    have lengths := congrArg List.length same
    simp only [List.length_append] at lengths
    omega

theorem LongestWhole.drop_eq (longest : LongestWhole limits bytes front) :
    bytes.drop front.length = (frames limits bytes).2 := by
  obtain ⟨same, -⟩ := longestWhole_iff.mp longest
  have behind := congrArg (List.drop front.length) same
  rwa [List.drop_left] at behind

end WireStore.Opening
