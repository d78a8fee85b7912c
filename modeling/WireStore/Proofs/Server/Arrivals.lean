import WireStore.Proofs.Server.Transcript
import WireStore.Server.Connection

/-!
# Bytes that arrive on a connection

Bytes reach a server in pieces, and each time it answers the frames that have become complete. It
keeps of a connection what it needs for this to make no difference: the replies are those to the
frames at the beginning of all bytes that have come, and what is pending is what is left of them
(`advance_of_underWay`).
-/

namespace WireStore

variable {alloc : Allocator} {limits : Limits} {store changed before : Store}
  {source rest : Source} {bytes front : Bytes} {reply : Reply} {replies : List Reply}
  {connection : Connection}

theorem Opening.partial_nil : ∀ outcome rest, Opening.of limits [] ≠ .frame outcome rest :=
  fun _ _ found => nomatch found

namespace Connection

theorem signals_arrived (bytes : Bytes) :
    (arrived bytes).signals = Signal.octets bytes ++ (Ending.broken awaiting []).signals := rfl

/-- The octets that have arrived are all bytes there are. -/
theorem bytes_of_arrived
    (same : source.signals = Signal.octets bytes ++ (Ending.broken awaiting []).signals) :
    source.bytes = bytes := by
  rw [Source.bytes_eq_signals, same, List.filterMap_append, Signal.filterMap_octets]
  exact List.append_nil _

theorem answerAll_of_answer
    (next : Move.next alloc limits store source = (.answer reply changed, rest)) :
    answerAll alloc limits store source replies =
      answerAll alloc limits changed rest (reply :: replies) := by
  rw [answerAll]
  split
  next next' => cases next.symm.trans next'
  next next' =>
    obtain ⟨⟨rfl, rfl⟩, rfl⟩ := by simpa using next.symm.trans next'
    rfl

theorem answerAll_of_partial (alloc : Allocator) (store : Store) (replies : List Reply)
    (partly : ∀ outcome rest, Opening.of limits bytes ≠ .frame outcome rest)
    (same : source.signals = Signal.octets bytes ++ (Ending.broken awaiting []).signals) :
    answerAll alloc limits store source replies = (replies, source, store) := by
  obtain ⟨rest, stops⟩ := Move.next_of_partial alloc store partly same
  rw [answerAll]
  split
  · rfl
  next next' => cases stops.symm.trans next'

/-- All frames that are complete are answered, and what is left stays where it is. -/
theorem answerAll_eq (store : Store) (replies : List Reply)
    (granted : ∀ outcome ∈ (Opening.frames limits bytes).1, Opening.Granted alloc outcome)
    (same : source.signals = Signal.octets bytes ++ (Ending.broken awaiting []).signals) :
    ∃ rest,
      answerAll alloc limits store source replies =
        ((store.answers alloc (Opening.frames limits bytes).1).1.reverse ++ replies, rest,
          (store.answers alloc (Opening.frames limits bytes).1).2) ∧
      rest.signals =
        Signal.octets (Opening.frames limits bytes).2 ++ (Ending.broken awaiting []).signals := by
  induction bytes using Opening.frames.induct limits generalizing store source replies with
  | case1 bytes outcome behind found ih =>
    rw [Opening.frames_of_frame found] at granted ⊢
    obtain ⟨left, next, later⟩ :=
      Move.next_answer store (granted outcome List.mem_cons_self) found same
    obtain ⟨rest, answered, signals⟩ := ih (store.answer alloc outcome).2
      ((store.answer alloc outcome).1 :: replies)
      (fun other mem => granted other (List.mem_cons_of_mem _ mem)) later
    refine ⟨rest, ?_, signals⟩
    rw [answerAll_of_answer next, answered, Store.answers_cons, List.reverse_cons,
      List.append_assoc]
    rfl
  | case2 bytes partly =>
    rw [Opening.frames_of_partial partly]
    exact ⟨source, answerAll_of_partial alloc store replies partly same, same⟩

theorem advance_eq (store : Store) (connection : Connection)
    (granted : ∀ outcome ∈ (Opening.frames limits connection.pending).1,
      Opening.Granted alloc outcome) :
    advance alloc limits store connection =
      (⟨(Opening.frames limits connection.pending).2,
          (store.answers alloc (Opening.frames limits connection.pending).1).1.reverse ++
            connection.replies⟩,
        (store.answers alloc (Opening.frames limits connection.pending).1).2) := by
  obtain ⟨rest, answered, signals⟩ :=
    answerAll_eq store connection.replies granted (signals_arrived connection.pending)
  have pending : rest.bytes = (Opening.frames limits connection.pending).2 :=
    bytes_of_arrived signals
  unfold advance
  rw [answered]
  simp only [pending]

/-- A client that ends its side in the middle of a payload is parted from with a reply. -/
theorem close_of_partial (alloc : Allocator) (store : Store)
    (partly : ∀ outcome rest, Opening.of limits connection.pending ≠ .frame outcome rest) :
    close alloc limits store connection =
      ⟨[], (Ending.closed.farewell limits connection.pending).toList ++ connection.replies⟩ := by
  have same : (Source.ofBytes connection.pending).signals =
      Signal.octets connection.pending ++ Ending.closed.signals := rfl
  obtain ⟨rest, next⟩ := Move.next_of_partial alloc store partly same
  unfold close
  rw [next]
  cases Ending.closed.farewell limits connection.pending <;> rfl

/-- Holds of a connection on which these bytes have come and which has been served, beginning with
the store `before`, as far as `front`; `store` is the store now. -/
structure UnderWay (alloc : Allocator) (limits : Limits) (before : Store) (bytes front : Bytes)
    (connection : Connection) (store : Store) : Prop where
  whole : Opening.Whole limits front
  received : bytes = front ++ connection.pending
  replies : connection.replies = (before.answers alloc (Opening.frames limits front).1).1.reverse
  store : store = (before.answers alloc (Opening.frames limits front).1).2

theorem underWay_fresh (alloc : Allocator) (limits : Limits) (store : Store) (bytes : Bytes) :
    UnderWay alloc limits store bytes [] ⟨bytes, []⟩ store where
  whole := Opening.whole_nil limits
  received := rfl
  replies := by
    rw [Opening.frames_nil]
    rfl
  store := by
    rw [Opening.frames_nil]
    rfl

theorem UnderWay.arrive (underWay : UnderWay alloc limits before bytes front connection store)
    (more : Bytes) :
    UnderWay alloc limits before (bytes ++ more) front
      { connection with pending := connection.pending ++ more } store :=
  ⟨underWay.whole, by rw [underWay.received, List.append_assoc], underWay.replies, underWay.store⟩

/-- However far a connection has been served, serving it goes on to the same place. -/
theorem advance_of_underWay (underWay : UnderWay alloc limits before bytes front connection store)
    (granted : ∀ outcome ∈ (Opening.frames limits bytes).1, Opening.Granted alloc outcome) :
    advance alloc limits store connection =
      (⟨(Opening.frames limits bytes).2,
          (before.answers alloc (Opening.frames limits bytes).1).1.reverse⟩,
        (before.answers alloc (Opening.frames limits bytes).1).2) := by
  rw [underWay.received, underWay.whole.frames_append] at granted ⊢
  rw [advance_eq store connection fun outcome mem =>
    granted outcome (List.mem_append_right _ mem), underWay.replies, Store.answers_append,
    List.reverse_append, underWay.store]

theorem underWay_advanced (alloc : Allocator) (limits : Limits) (before : Store) (bytes : Bytes) :
    ∃ front, UnderWay alloc limits before bytes front
      ⟨(Opening.frames limits bytes).2,
        (before.answers alloc (Opening.frames limits bytes).1).1.reverse⟩
      (before.answers alloc (Opening.frames limits bytes).1).2 := by
  obtain ⟨front, cut, framed⟩ := Opening.exists_front_of_frames limits bytes
  exact ⟨front, congrArg Prod.snd framed, cut, by rw [framed], by rw [framed]⟩

end Connection

end WireStore
