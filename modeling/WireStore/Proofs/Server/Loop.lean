import WireStore.Proofs.Frame.Progress
import WireStore.Proofs.Server.Answers

/-!
# The loop of a server comes to its end

A server has no counter of its turns. What grows less with each of them is the line feeds that its
client has still to send: `Handles` describes the loop turn by turn, and every connection is handled
in finitely many of them, one for each frame at most and one in which no frame is found
(`frames_bounded_by_lineFeeds`).
-/

namespace WireStore

variable {alloc : Allocator} {limits : Limits} {store changed : Store} {source rest : Source}
  {out : Buffered} {reply : Reply} {replies : List Reply} {handled : Handled}

/-- Holds where a server that goes on turn by turn comes to `handled`, writing these replies on its
way; the last of them may fail, or be a farewell. -/
inductive Handles (alloc : Allocator) (limits : Limits) :
    Store → Source → Buffered → List Reply → Handled → Prop where
  | stop {store : Store} {source rest : Source} {out : Buffered} {farewell : Option Reply}
      {result : Except Error Unit}
      (next : Move.next alloc limits store source = (.stop farewell result, rest)) :
      Handles alloc limits store source out farewell.toList
        ⟨result, store, sendFarewell out farewell⟩
  | failure {store changed : Store} {source rest : Source} {out after : Buffered} {reply : Reply}
      {reason : Error}
      (next : Move.next alloc limits store source = (.answer reply changed, rest))
      (failed : reply.write out = (.error reason, after)) :
      Handles alloc limits store source out [reply]
        ⟨if reason.isDeparture then .ok () else .error reason, changed, after⟩
  | answer {store changed : Store} {source rest : Source} {out after : Buffered} {reply : Reply}
      {replies : List Reply} {handled : Handled}
      (next : Move.next alloc limits store source = (.answer reply changed, rest))
      (written : reply.write out = (.ok (), after))
      (later : Handles alloc limits changed rest after replies handled) :
      Handles alloc limits store source out (reply :: replies) handled

/-- The frames among the first results of reading a source, up to its end or to an error. -/
def framesRead (alloc : Allocator) (limits : Limits) (calls : Nat) (source : Source) : Nat :=
  (Reader.outcomes (Incoming.read alloc limits) (Incoming.goesOn false) calls source).countP
    fun reading => Incoming.goesOn false reading.1

theorem framesRead_succ (goes : Incoming.goesOn false (Incoming.read alloc limits source).1 = true)
    (calls : Nat) :
    framesRead alloc limits (calls + 1) source =
      framesRead alloc limits calls (Incoming.read alloc limits source).2 + 1 := by
  unfold framesRead Reader.outcomes
  rw [List.replicate_succ]
  simp only [Reader.inTurn, goes, if_true, List.countP_cons]

/-- Only where a frame was found is there an answer. -/
theorem Move.goesOn_of_answer
    (next : Move.next alloc limits store source = (.answer reply changed, rest)) :
    Incoming.goesOn false (Incoming.read alloc limits source).1 = true ∧
      (Incoming.read alloc limits source).2 = rest := by
  obtain ⟨move, left⟩ := Prod.mk.inj next
  obtain ⟨incoming, found, present⟩ := present_of_answer move
  refine ⟨?_, left⟩
  cases incoming with
  | ended => exact absurd rfl present
  | request | rejected => exact congrArg (Incoming.goesOn false) found

namespace Handles

/-- A server is done after finitely many turns. -/
theorem exists_handle (store : Store) (source : Source) (out : Buffered) :
    ∃ replies, Handles alloc limits store source out replies
      (handle alloc limits store source out) := by
  induction left : source.lineFeeds using Nat.strongRecOn generalizing store source out with
  | _ left ih =>
    subst left
    rcases next : Move.next alloc limits store source with ⟨_ | _, rest⟩
    next reply changed =>
      rcases written : reply.write out with ⟨reason | _, after⟩
      · rw [handle_of_failure next written]
        exact ⟨_, .failure next written⟩
      · obtain ⟨goes, rfl⟩ := Move.goesOn_of_answer next
        have fewer := Incoming.lineFeeds_lt_of_goesOn goes
        obtain ⟨replies, later⟩ := ih _ fewer changed _ after rfl
        rw [handle_of_answer next written]
        exact ⟨_, .answer next written later⟩
    next farewell result =>
      rw [handle_of_stop next]
      exact ⟨_, .stop next⟩

/-- Each reply but one answers a frame. -/
theorem length_le (handles : Handles alloc limits store source out replies handled) {calls : Nat}
    (enough : source.lineFeeds < calls) :
    replies.length ≤ framesRead alloc limits calls source + 1 := by
  induction handles generalizing calls with
  | @stop _ _ _ _ farewell _ next =>
    cases farewell <;> simp
  | failure next failed => simp
  | answer next written later ih =>
    obtain ⟨goes, rfl⟩ := Move.goesOn_of_answer next
    have fewer := Incoming.lineFeeds_lt_of_goesOn goes
    obtain ⟨calls, rfl⟩ : ∃ less, calls = less + 1 := ⟨calls - 1, by omega⟩
    have others := @ih calls (by omega)
    rw [framesRead_succ goes, List.length_cons]
    omega

end Handles

/-- Every frame takes a line with its line feed and all that the line announces behind it. So no
stream has more frames than line feeds, wherever its chunks and its faults are and whatever memory
there is for each frame; who asks once more has come to an end of the source or to an error. A
server that goes on from answer to answer is done then, too, with one reply at most beyond those
to the frames. -/
theorem frames_bounded_by_lineFeeds (limits : Limits) :
    (∀ (alloc : Allocator) (source : Source),
      let result := (Incoming.read alloc limits source).1
      let rest := (Incoming.read alloc limits source).2
      rest.size ≤ source.size ∧
        ∀ incoming, result = .ok incoming → incoming ≠ .ended →
          rest.lineFeeds < source.lineFeeds ∧
            ∃ line payload, Incoming.Occupies limits source rest incoming line payload) ∧
    (∀ (allocs : List Allocator) (source : Source),
      let readings :=
        Reader.inTurn (Incoming.goesOn false) (allocs.map (Incoming.read · limits)) source
      readings.countP (fun reading => Incoming.goesOn false reading.1) ≤ source.lineFeeds ∧
        (source.lineFeeds < allocs.length →
          ∃ last ∈ readings.getLast?, Incoming.goesOn false last.1 = false)) ∧
    ∀ alloc store source out,
      ∃ replies,
        Handles alloc limits store source out replies (handle alloc limits store source out) ∧
          replies.length ≤ framesRead alloc limits (source.lineFeeds + 1) source + 1 ∧
          framesRead alloc limits (source.lineFeeds + 1) source ≤ source.lineFeeds := by
  have uses (allocs : List Allocator) :
      ∀ reader ∈ allocs.map (Incoming.read · limits), ∀ source,
        Incoming.goesOn false (reader source).1 = true →
          (reader source).2.lineFeeds < source.lineFeeds := by
    intro reader mem source goes
    obtain ⟨alloc, -, rfl⟩ := List.mem_map.mp mem
    exact Incoming.lineFeeds_lt_of_goesOn goes
  refine ⟨fun alloc source => ⟨Incoming.size_read_le alloc limits source, ?_⟩,
    fun allocs source => ⟨Reader.countP_inTurn_le (uses allocs) source, fun enough => ?_⟩,
    fun alloc store source out => ?_⟩
  · intro incoming found present
    obtain ⟨line, payload, occupies⟩ := Incoming.occupies_of_read (Prod.ext found rfl) present
    exact ⟨occupies.lineFeeds_lt, line, payload, occupies⟩
  · apply Reader.exists_last_of_inTurn (uses allocs)
    rwa [List.length_map]
  · obtain ⟨replies, handles⟩ := Handles.exists_handle store source out
    have bounded :=
      Reader.countP_inTurn_le (uses (List.replicate (source.lineFeeds + 1) alloc)) source
    rw [List.map_replicate] at bounded
    exact ⟨replies, handles, handles.length_le (Nat.lt_succ_self _), bounded⟩

/-- A line beyond the limit, a value with a line feed in it, and a payload that is cut off. -/
theorem frames_bounded_by_lineFeeds_of_cut_payload :
    let limits : Limits := { maxHeaderLength := 12 }
    let behind : Source := .fault ⟨.interrupted, "again"⟩
      (.chunk (Utf8.encode "\na\nbUPDATE 1 9\nend") .ended)
    let source : Source := .chunk (Utf8.encode "CREATE 123456 7\nCREATE 1 3\r") behind
    let first := Incoming.read .unlimited limits source
    let readings := Reader.inTurn (Incoming.goesOn false)
      ((List.replicate 5 Allocator.unlimited).map (Incoming.read · limits)) source
    source.lineFeeds = 4 ∧
      first.1 = .ok (.rejected .malformed) ∧ first.2.lineFeeds < source.lineFeeds ∧
      readings.map (fun reading => Incoming.goesOn false reading.1) = [true, true, false] ∧
      (∃ last ∈ readings.getLast?, Incoming.goesOn false last.1 = false) ∧
      ∃ replies,
        Handles .unlimited limits {} source {} replies (handle .unlimited limits {} source {}) ∧
          replies.length ≤ 3 := by
  intro limits behind source first readings
  have feeds : source.lineFeeds = 4 := by decide +kernel
  have refused : first.1 = .ok (.rejected .malformed) := rfl
  obtain ⟨each, row, whole⟩ := frames_bounded_by_lineFeeds limits
  obtain ⟨fewer, -⟩ := (each .unlimited source).2 _ refused nofun
  have enough : source.lineFeeds < (List.replicate 5 Allocator.unlimited).length := by
    rw [feeds, List.length_replicate]
    decide
  obtain ⟨replies, handles, bounded, -⟩ := whole .unlimited {} source {}
  have frames : framesRead .unlimited limits (source.lineFeeds + 1) source = 2 := by
    decide +kernel
  rw [frames] at bounded
  exact ⟨feeds, refused, fewer, by decide +kernel, (row _ source).2 enough, replies, handles,
    bounded⟩

end WireStore
