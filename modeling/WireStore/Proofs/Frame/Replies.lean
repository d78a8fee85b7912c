import WireStore.Frame.Reply
import WireStore.Proofs.Frame.Stages
import WireStore.Proofs.Text.Written

/-!
# Replies read back

A reply that is written is what a client reads, and what follows it is left
(`read_of_encode`). A value beyond the client's limit, or one for which there is
no memory, is reported in its place; its bytes are gone all the same.
-/

namespace WireStore

variable {source : Source} {more : List Signal} {reply : Reply}

namespace Reply

/-- Holds of replies that their bytes say: the length of a value fits into its field, the text of
an error is valid and stays on its line. -/
def Readable : Reply → Prop
  | .ok => True
  | .value content => content.length < Numeral.sizeBound
  | .error text =>
    Utf8.lossy (Utf8.encode text) = text ∧ Bytes.Unbroken (Utf8.encode text) ∧
      (Utf8.encode text).getLast? ≠ some Bytes.carriageReturn

/-- What the header line of a reply is to be taken for. -/
def announced : Reply → Announcement
  | .ok => .ok
  | .value content => .value content.length
  | .error text => .error text

/-- What stands behind the header line of a reply. -/
def payload : Reply → Bytes
  | .value content => content
  | _ => []

/-- What comes of a reply at a client with these limits. -/
def received (alloc : Allocator) (limits : Limits) : Reply → Except Error Reply
  | .value content =>
    if limits.maxValueSize < content.length then
      .error (.valueTooLarge content.length limits.maxValueSize)
    else if alloc content.length then .ok (.value content)
    else .error .outOfMemory
  | reply => .ok reply

theorem encode_eq (reply : Reply) :
    reply.encode = reply.header ++ Bytes.lineFeed :: reply.payload := by
  cases reply <;> rfl

/-! ## Header lines -/

theorem printable_header_value (content : Bytes) :
    ∀ octet ∈ (value content).header, Ascii.Printable octet := by
  intro octet mem
  rcases List.mem_append.mp mem with word | field
  · have printable : ∀ octet ∈ okWord, Ascii.Printable octet := by decide +kernel
    exact printable octet word
  · rcases List.mem_cons.mp field with rfl | digit
    · exact Ascii.printable_space
    · exact (Numeral.graphic_digits _ octet digit).printable

theorem unbroken_header (readable : reply.Readable) : Bytes.Unbroken reply.header := by
  cases reply with
  | ok => decide
  | value content => exact Bytes.unbroken_of_printable (printable_header_value content)
  | error text =>
    obtain ⟨-, unbroken, -⟩ := readable
    intro mem
    rcases List.mem_append.mp mem with word | field
    · exact absurd word (by decide)
    · rcases List.mem_cons.mp field with space | said
      · exact absurd space (by decide)
      · exact unbroken said

/-- A header line does not end in a carriage return that its reader would drop. -/
theorem stripLast_header (readable : reply.Readable) :
    reply.header.stripLast Bytes.carriageReturn = reply.header := by
  cases reply with
  | ok => decide
  | value content => exact Bytes.stripLast_of_printable (printable_header_value content)
  | error text =>
    obtain ⟨-, -, clean⟩ := readable
    apply Bytes.stripLast_of_getLast?
    rw [header, List.getLast?_append, List.getLast?_cons]
    cases last : (Utf8.encode text).getLast? with
    | none => decide
    | some octet =>
      rw [last] at clean
      exact clean

theorem announcement_header (readable : reply.Readable) :
    announcement reply.header = reply.announced := by
  cases reply with
  | ok => rfl
  | value content =>
    have field : announcement (value content).header =
        (Numeral.size? (Numeral.digits content.length)).elim .unexpected .value := rfl
    rw [field, Numeral.size?_digits readable]
    rfl
  | error text =>
    have field : announcement (error text).header =
        .error (Utf8.lossy (Utf8.encode text)) := rfl
    rw [field, readable.1]
    rfl

/-- Twenty-two octets hold the header of every value shorter than `2 ^ 63`. -/
theorem length_header_value_le (content : Bytes) (sized : content.length < 2 ^ 63) :
    (value content).header.length ≤ 22 := by
  have digits := Numeral.length_digits_le content.length 18 (by omega)
  have word : okWord.length = 2 := by decide
  simp only [header, List.length_append, List.length_cons, word]
  omega

/-! ## Replies -/

/-- Limit and memory decide what comes of a value that is there in full. -/
theorem readValue_of_keep {size : Nat} {content : Bytes} {rest : Source} (alloc : Allocator)
    (limits : Limits) (kept : Payload.keep size source = (.ok content, rest)) :
    readValue alloc limits size source = ((value content).received alloc limits, rest) := by
  obtain rfl := Payload.length_of_keep kept
  unfold readValue
  rw [Payload.read_eq, kept]
  by_cases large : limits.maxValueSize < content.length
  · simp only [Except.map, Payload.judge, received, large, if_true]
  · cases room : alloc content.length <;>
      simp [Except.map, Payload.judge, received, large, room]

/-- The error that a value cut short comes to. -/
def ofShortfall (size : Nat) : Shortfall → Error
  | .ended received => .truncatedValue size received
  | .fault reason => .io reason

/-- They have no part in how a value falls short. -/
theorem readValue_of_shortfall {size : Nat} {shortfall : Shortfall} {rest : Source}
    (alloc : Allocator) (limits : Limits)
    (short : Payload.keep size source = (.error shortfall, rest)) :
    readValue alloc limits size source = (.error (ofShortfall size shortfall), rest) := by
  unfold readValue
  rw [Payload.read_eq, short]
  cases shortfall <;> rfl

theorem readValue_of_content (alloc : Allocator) (limits : Limits) {content : Bytes}
    (same : source.signals = Signal.octets content ++ more) :
    ∃ after, readValue alloc limits content.length source =
        ((value content).received alloc limits, after) ∧ after.signals = more := by
  obtain ⟨after, kept, left⟩ := Payload.keep_of_enough (Nat.le_refl content.length) same
  rw [List.take_length] at kept
  rw [List.drop_length] at left
  exact ⟨after, readValue_of_keep alloc limits kept, left⟩

/-- A reply that is written is read, and what follows it is left. -/
theorem read_of_encode (alloc : Allocator) (readable : reply.Readable)
    (fits : reply.header.length ≤ limits.maxHeaderLength)
    (same : source.signals = Signal.octets reply.encode ++ more) :
    ∃ after, read alloc limits source = (reply.received alloc limits, after) ∧
      after.signals = more := by
  rw [encode_eq, Signal.octets_append, Signal.octets_cons, List.append_assoc,
    List.cons_append] at same
  obtain ⟨behind, line, left⟩ :=
    Line.read_of_line limits.maxHeaderLength (unbroken_header readable) same
  rw [Line.ofLine, stripLast_header readable, if_pos fits] at line
  have goesOn : read alloc limits source = readAfterLine alloc limits reply.header behind := by
    unfold read
    rw [line]
  rw [goesOn]
  unfold readAfterLine
  rw [announcement_header readable]
  cases reply with
  | ok => exact ⟨behind, rfl, left⟩
  | value content => exact readValue_of_content alloc limits left
  | error text => exact ⟨behind, rfl, left⟩

end Reply

end WireStore
