import WireStore.Frame.Incoming
import WireStore.Frame.Reply
import WireStore.Proofs.Stream.Signals
import WireStore.Stream.Reader

/-!
# Chunks and interruptions do not matter

A reader respects signals if what it returns, and the signals it leaves, depend
on the signals of the source alone. Readers of lines, of requests and of replies
do: each stage of reading is one scan, or lets by what a scan would take, and
decides on what was taken and on how the scan stopped. So two sources that
deliver the same octets and raise the same faults between them are read alike,
however often and in whatever way they are read.
-/

namespace WireStore

namespace Reader

variable {α : Type}

/-- Holds of readers to which sources with the same signals are the same. -/
def RespectsSignals (reader : Reader α) : Prop :=
  ∀ first second : Source, first.signals = second.signals →
    (reader first).1 = (reader second).1 ∧
      (reader first).2.signals = (reader second).2.signals

/-- Two readings that agree, taken apart. -/
theorem parts_of_agree {β : Type} {left right : β × Source}
    (agree : left.1 = right.1 ∧ left.2.signals = right.2.signals) :
    ∃ result here there, left = (result, here) ∧ right = (result, there) ∧
      here.signals = there.signals :=
  ⟨left.1, left.2, right.2, rfl, Prod.ext agree.1.symm rfl, agree.2⟩

/-- What can be seen of a series of readings: the results, and how many bytes each left. -/
def report (readings : List (Except Error α × Source)) : List (Except Error α × Nat) :=
  readings.map fun (result, rest) => (result, rest.size)

theorem report_inTurn_congr {goesOn : Except Error α → Bool} {readers : List (Reader α)}
    (respect : ∀ reader ∈ readers, RespectsSignals reader) {first second : Source}
    (same : first.signals = second.signals) :
    report (inTurn goesOn readers first) = report (inTurn goesOn readers second) := by
  induction readers generalizing first second with
  | nil => rfl
  | cons reader readers ih =>
    obtain ⟨result, rest⟩ := respect reader List.mem_cons_self _ _ same
    have later := ih (fun reader mem => respect reader (List.mem_cons_of_mem _ mem)) rest
    simp only [inTurn, result, report, List.map_cons, Source.size_eq_of_signals rest]
    split
    · exact congrArg _ later
    · rfl

theorem RespectsSignals.report_outcomes {reader : Reader α} (respect : RespectsSignals reader)
    (goesOn : Except Error α → Bool) (count : Nat) {first second : Source}
    (same : first.signals = second.signals) :
    report (outcomes reader goesOn count first) = report (outcomes reader goesOn count second) := by
  refine report_inTurn_congr ?_ same
  intro other mem
  rw [List.eq_of_mem_replicate mem]
  exact respect

end Reader

namespace Line

theorem skip_respectsSignals : Reader.RespectsSignals skip := by
  intro first second same
  obtain ⟨-, stop, rest⟩ := Source.scan_congr (· == Bytes.lineFeed) none same
  simp only [skip, Source.passLine, Source.pass_eq, stop]
  split <;> exact ⟨rfl, rest⟩

theorem read_respectsSignals (maxLength : Nat) : Reader.RespectsSignals (read maxLength) := by
  intro first second same
  obtain ⟨taken, stop, rest⟩ :=
    Source.scan_congr (· == Bytes.lineFeed) (some (maxLength + 2)) same
  simp only [read, Source.scanLine, stop, taken]
  split
  · exact ⟨rfl, rest⟩
  · exact skip_respectsSignals _ _ rest
  · exact ⟨rfl, rest⟩
  · exact ⟨rfl, rest⟩

end Line

namespace Payload

theorem keep_congr (size : Nat) {first second : Source} (same : first.signals = second.signals) :
    (keep size first).1 = (keep size second).1 ∧
      (keep size first).2.signals = (keep size second).2.signals := by
  obtain ⟨taken, stop, rest⟩ : (first.scanCount size).taken = (second.scanCount size).taken ∧
      (first.scanCount size).stop = (second.scanCount size).stop ∧
      (first.scanCount size).rest.signals = (second.scanCount size).rest.signals :=
    Source.scan_congr (fun _ => false) (some size) same
  simp only [keep, taken, stop]
  split
  · exact ⟨rfl, rest⟩
  · split <;> exact ⟨rfl, rest⟩

theorem read_congr (alloc : Allocator) (maxSize size : Nat) {first second : Source}
    (same : first.signals = second.signals) :
    (read alloc maxSize size first).1 = (read alloc maxSize size second).1 ∧
      (read alloc maxSize size first).2.signals = (read alloc maxSize size second).2.signals := by
  obtain ⟨result, rest⟩ := keep_congr size same
  rw [read_eq, read_eq, result]
  exact ⟨rfl, rest⟩

end Payload

namespace Incoming

theorem readAfterLine_respectsSignals (alloc : Allocator) (limits : Limits) (content : Bytes) :
    Reader.RespectsSignals (readAfterLine alloc limits content) := by
  intro first second same
  unfold readAfterLine
  split
  · exact ⟨rfl, same⟩
  next header _ =>
    split
    · exact ⟨rfl, same⟩
    · split
      · obtain ⟨result, here, there, left, right, rest⟩ := Reader.parts_of_agree
          (Payload.read_congr alloc limits.maxValueSize header.size same)
        unfold readPayload
        rw [left, right]
        rcases result with (_ | _) | (_ | _ | _) <;> exact ⟨rfl, rest⟩
      · exact ⟨rfl, same⟩

theorem read_respectsSignals (alloc : Allocator) (limits : Limits) :
    Reader.RespectsSignals (read alloc limits) := by
  intro first second same
  obtain ⟨result, here, there, left, right, rest⟩ := Reader.parts_of_agree
    (Line.read_respectsSignals limits.maxHeaderLength _ _ same)
  unfold read
  rw [left, right]
  rcases result with _ | (_ | _ | _)
  · exact ⟨rfl, rest⟩
  · exact readAfterLine_respectsSignals alloc limits _ _ _ rest
  · exact ⟨rfl, rest⟩
  · exact ⟨rfl, rest⟩

end Incoming

namespace Reply

theorem readAfterLine_respectsSignals (alloc : Allocator) (limits : Limits) (line : Bytes) :
    Reader.RespectsSignals (readAfterLine alloc limits line) := by
  intro first second same
  unfold readAfterLine
  split
  · exact ⟨rfl, same⟩
  next size _ =>
    obtain ⟨result, here, there, left, right, rest⟩ := Reader.parts_of_agree
      (Payload.read_congr alloc limits.maxValueSize size same)
    unfold readValue
    rw [left, right]
    rcases result with (_ | _) | (_ | _ | _) <;> exact ⟨rfl, rest⟩
  · exact ⟨rfl, same⟩
  · exact ⟨rfl, same⟩

theorem read_respectsSignals (alloc : Allocator) (limits : Limits) :
    Reader.RespectsSignals (read alloc limits) := by
  intro first second same
  obtain ⟨result, here, there, left, right, rest⟩ := Reader.parts_of_agree
    (Line.read_respectsSignals limits.maxHeaderLength _ _ same)
  unfold read
  rw [left, right]
  rcases result with _ | (_ | _ | _)
  · exact ⟨rfl, rest⟩
  · exact readAfterLine_respectsSignals alloc limits _ _ _ rest
  · exact ⟨rfl, rest⟩
  · exact ⟨rfl, rest⟩

end Reply

/-! ## Every reader, any number of times -/

/-- Sources that deliver the same octets and raise the same faults at the same places are read
alike, as lines, as requests and as replies, whatever the limits and the memory are and whether
or not reading goes on after a failure: the same results, and each time as many bytes left. -/
theorem report_outcomes_eq_of_signals_eq {first second : Source}
    (same : first.signals = second.signals) (count : Nat) :
    (∀ maxLength goesOn,
      Reader.report (Reader.outcomes (Line.read maxLength) goesOn count first) =
        Reader.report (Reader.outcomes (Line.read maxLength) goesOn count second)) ∧
    (∀ alloc limits goesOn,
      Reader.report (Reader.outcomes (Incoming.read alloc limits) goesOn count first) =
        Reader.report (Reader.outcomes (Incoming.read alloc limits) goesOn count second)) ∧
    (∀ alloc limits goesOn,
      Reader.report (Reader.outcomes (Reply.read alloc limits) goesOn count first) =
        Reader.report (Reader.outcomes (Reply.read alloc limits) goesOn count second)) := by
  refine ⟨?_, ?_, ?_⟩
  · intro maxLength goesOn
    exact (Line.read_respectsSignals maxLength).report_outcomes goesOn count same
  · intro alloc limits goesOn
    exact (Incoming.read_respectsSignals alloc limits).report_outcomes goesOn count same
  · intro alloc limits goesOn
    exact (Reply.read_respectsSignals alloc limits).report_outcomes goesOn count same

/-- A request whose header is cut between its carriage return and its line feed, with an empty
chunk and an interruption in the gap, and whose payload is broken off by a fault. -/
theorem report_outcomes_eq_across_line_end :
    let first : Source := .chunk (Utf8.encode "CREATE 7 3\r\nab")
      (.fault ⟨.timedOut, "late"⟩ (.chunk (Utf8.encode "c") .ended))
    let second : Source := .chunk (Utf8.encode "CREATE 7 3\r")
      (.chunk [] (.fault ⟨.interrupted, "again"⟩ (.chunk (Utf8.encode "\nab")
        (.fault ⟨.timedOut, "late"⟩ (.chunk (Utf8.encode "c") .ended)))))
    first.signals = second.signals ∧
      Reader.report (Reader.outcomes (Incoming.read .unlimited {}) (fun _ => true) 3 first) =
        Reader.report (Reader.outcomes (Incoming.read .unlimited {}) (fun _ => true) 3 second) := by
  intro first second
  have same : first.signals = second.signals := rfl
  exact ⟨same, (report_outcomes_eq_of_signals_eq same 3).2.1 .unlimited {} fun _ => true⟩

end WireStore
