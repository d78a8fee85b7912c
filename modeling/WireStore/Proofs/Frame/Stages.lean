import WireStore.Frame.Line
import WireStore.Frame.Payload
import WireStore.Proofs.Stream.Signals

/-!
# The stages of a frame on signals

What reading a line and keeping a payload come to, by what the source signals.
A line is whatever stands before the first line feed, and it is consumed with
that line feed whether it is kept or not; of a payload exactly the announced
number of bytes is consumed. If the octets give out first, the stage ends with
the source, or with the fault raised there.
-/

namespace WireStore

variable {source : Source} {more : List Signal} {reason : Fault}

namespace Bytes

/-- Dropping an octet from the end makes bytes shorter by one at most. -/
theorem length_le_stripLast (octet : UInt8) (bytes : Bytes) :
    bytes.length ≤ (stripLast octet bytes).length + 1 := by
  unfold stripLast
  split
  · rw [List.length_dropLast]
    omega
  · omega

/-- Of a line and its line feed the line is left, less one carriage return. -/
theorem stripLineEnd_append_lineFeed (line : Bytes) :
    stripLineEnd (line ++ [lineFeed]) = stripLast carriageReturn line := by
  rw [stripLineEnd, stripLast_append_self]

/-- Holds of bytes in which no line ends. -/
def Unbroken (bytes : Bytes) : Prop := lineFeed ∉ bytes

instance (bytes : Bytes) : Decidable bytes.Unbroken := inferInstanceAs (Decidable (_ ∉ _))

theorem Unbroken.clear {bytes : Bytes} (unbroken : bytes.Unbroken) :
    ∀ value ∈ bytes, (value == lineFeed) = false := by
  intro value mem
  simp only [beq_eq_false_iff_ne, ne_eq]
  rintro rfl
  exact unbroken mem

theorem Unbroken.take {bytes : Bytes} (unbroken : bytes.Unbroken) (count : Nat) :
    Unbroken (bytes.take count) :=
  fun mem => unbroken (List.mem_of_mem_take mem)

theorem Unbroken.drop {bytes : Bytes} (unbroken : bytes.Unbroken) (count : Nat) :
    Unbroken (bytes.drop count) :=
  fun mem => unbroken (List.mem_of_mem_drop mem)

end Bytes

namespace Source

/-- What a scan takes, how it stops and what it leaves, read off a scan of the signals. -/
theorem scan_of_signals {ends : UInt8 → Bool} {limit : Option Nat} {taken : Bytes} {stop : Stop}
    {signals left : List Signal} (same : source.signals = signals)
    (scanned : Signal.scan ends limit signals = (taken, stop, left)) :
    (source.scan ends limit).taken = taken ∧ (source.scan ends limit).stop = stop ∧
      (source.scan ends limit).rest.signals = left := by
  have both := scan_signals ends limit source
  rw [same, scanned] at both
  simpa [eq_comm] using both

end Source

namespace Line

variable {maxLength : Nat} {line : Bytes}

/-! ## A line -/

/-- The line that stands before a line feed: a carriage return at its end is dropped, and then
it may be too long. -/
def ofLine (maxLength : Nat) (line : Bytes) : Line :=
  let content := Bytes.stripLast Bytes.carriageReturn line
  if content.length ≤ maxLength then .complete content else .tooLong

/-- The first stage of reading a line goes no further than its limit. -/
theorem scan_head (unbroken : line.Unbroken) (long : maxLength + 2 ≤ line.length)
    (same : source.signals = Signal.octets line ++ more) :
    (source.scanLine (some (maxLength + 2))).stop = .full ∧
      (source.scanLine (some (maxLength + 2))).rest.signals =
        Signal.octets (line.drop (maxLength + 2)) ++ more := by
  have head : (line.take (maxLength + 2)).length = maxLength + 2 := by
    rw [List.length_take]
    omega
  rw [← List.take_append_drop (maxLength + 2) line, Signal.octets_append,
    List.append_assoc] at same
  have full := Signal.scan_full _ _ (Signal.octets (line.drop (maxLength + 2)) ++ more)
    (unbroken.take (maxLength + 2)).clear
  rw [head] at full
  exact (Source.scan_of_signals same full).2

theorem skip_of_line (unbroken : line.Unbroken)
    (same : source.signals = Signal.octets line ++ .octet Bytes.lineFeed :: more) :
    ∃ after, skip source = (.ok .tooLong, after) ∧ after.signals = more := by
  obtain ⟨-, stop, rest⟩ := Source.scan_of_signals same
    (Signal.scan_found _ none unbroken.clear (beq_self_eq_true _) (by simp))
  refine ⟨_, ?_, rest⟩
  simp only [skip, Source.passLine, Source.pass_eq, stop]

theorem read_of_line (maxLength : Nat) (unbroken : line.Unbroken)
    (same : source.signals = Signal.octets line ++ .octet Bytes.lineFeed :: more) :
    ∃ after, read maxLength source = (.ok (ofLine maxLength line), after) ∧
      after.signals = more := by
  -- a line that fills the first stage is too long, even if a carriage return ends it
  by_cases long : maxLength + 2 ≤ line.length
  · obtain ⟨stop, rest⟩ := scan_head unbroken long same
    obtain ⟨after, skipped, left⟩ := skip_of_line (unbroken.drop _) rest
    have short := Bytes.length_le_stripLast Bytes.carriageReturn line
    refine ⟨after, ?_, left⟩
    simp only [read, stop, skipped, ofLine]
    rw [if_neg (by omega)]
  · obtain ⟨taken, stop, rest⟩ := Source.scan_of_signals same
      (Signal.scan_found _ (some (maxLength + 2)) unbroken.clear (beq_self_eq_true _)
        (by simp only [Option.some.injEq]; omega))
    refine ⟨_, ?_, rest⟩
    simp only [read, Source.scanLine, stop, taken, ofTaken, ofLine,
      Bytes.stripLineEnd_append_lineFeed]

/-- A line that ends in no carriage return of its own is read as it is, whichever line end follows
it. -/
theorem read_of_ending {ending : Bytes} (maxLength : Nat) (unbroken : line.Unbroken)
    (clean : line.getLast? ≠ some Bytes.carriageReturn) (fits : line.length ≤ maxLength)
    (ends : ending = [Bytes.lineFeed] ∨ ending = [Bytes.carriageReturn, Bytes.lineFeed])
    (same : source.signals = Signal.octets (line ++ ending) ++ more) :
    ∃ after, read maxLength source = (.ok (.complete line), after) ∧ after.signals = more := by
  obtain ⟨mark, rfl, stripped, whole⟩ : ∃ mark, ending = mark ++ [Bytes.lineFeed] ∧
      Bytes.stripLast Bytes.carriageReturn (line ++ mark) = line ∧
        Bytes.Unbroken (line ++ mark) := by
    rcases ends with rfl | rfl
    · refine ⟨[], rfl, ?_, ?_⟩
      · rw [List.append_nil, Bytes.stripLast_of_getLast? clean]
      · rwa [List.append_nil]
    · refine ⟨[Bytes.carriageReturn], rfl, Bytes.stripLast_append_self _ line, fun mem => ?_⟩
      rcases List.mem_append.mp mem with here | there
      · exact unbroken here
      · exact absurd there (by decide)
  rw [← List.append_assoc, Signal.octets_append, List.append_assoc] at same
  obtain ⟨after, found, left⟩ := read_of_line maxLength whole same
  rw [ofLine, stripped, if_pos fits] at found
  exact ⟨after, found, left⟩

/-- Where a line is due and the source ends before a line feed, there was no line or only the
beginning of one, and nothing is left. -/
theorem read_to_end (maxLength : Nat) (unbroken : line.Unbroken)
    (same : source.signals = Signal.octets line) :
    ∃ after, read maxLength source = (ofEnd line, after) ∧ after.signals = [] := by
  by_cases long : maxLength + 2 ≤ line.length
  · rw [← List.append_nil (Signal.octets line)] at same
    obtain ⟨stop, rest⟩ := scan_head unbroken long same
    rw [List.append_nil] at rest
    obtain ⟨-, ended, left⟩ := Source.scan_of_signals rest
      (Signal.scan_ended _ none (unbroken.drop _).clear (by simp))
    refine ⟨_, ?_, left⟩
    simp only [read, stop, skip, Source.passLine, Source.pass_eq, ended]
    cases line with
    | nil => simp at long
    | cons => rfl
  · obtain ⟨taken, ended, left⟩ := Source.scan_of_signals same
      (Signal.scan_ended _ (some (maxLength + 2)) unbroken.clear
        (by simp only [Option.some.injEq]; omega))
    refine ⟨_, ?_, left⟩
    simp only [read, Source.scanLine, ended, taken]

theorem read_of_end (maxLength : Nat) (unbroken : line.Unbroken)
    (same : source.signals = Signal.octets line) : (read maxLength source).1 = ofEnd line := by
  obtain ⟨after, ended, -⟩ := read_to_end maxLength unbroken same
  rw [ended]

theorem read_of_fault (maxLength : Nat) (unbroken : line.Unbroken)
    (same : source.signals = Signal.octets line ++ .fault reason :: more) :
    ∃ after, read maxLength source = (.error (.io reason), after) ∧ after.signals = more := by
  by_cases long : maxLength + 2 ≤ line.length
  · obtain ⟨stop, rest⟩ := scan_head unbroken long same
    obtain ⟨-, raised, left⟩ := Source.scan_of_signals rest
      (Signal.scan_fault _ none (unbroken.drop _).clear (by simp))
    refine ⟨_, ?_, left⟩
    simp only [read, stop, skip, Source.passLine, Source.pass_eq, raised]
  · obtain ⟨-, raised, left⟩ := Source.scan_of_signals same
      (Signal.scan_fault _ (some (maxLength + 2)) unbroken.clear
        (by simp only [Option.some.injEq]; omega))
    refine ⟨_, ?_, left⟩
    simp only [read, Source.scanLine, raised]

end Line

namespace Payload

variable {size : Nat} {bytes : Bytes}

/-! ## A payload -/

theorem keep_of_enough (enough : size ≤ bytes.length)
    (same : source.signals = Signal.octets bytes ++ more) :
    ∃ after, keep size source = (.ok (bytes.take size), after) ∧
      after.signals = Signal.octets (bytes.drop size) ++ more := by
  have head : (bytes.take size).length = size := List.length_take_of_le enough
  rw [← List.take_append_drop size bytes, Signal.octets_append, List.append_assoc] at same
  have full := Signal.scan_full (fun _ => false) (bytes.take size)
    (Signal.octets (bytes.drop size) ++ more) (by simp)
  rw [head] at full
  obtain ⟨taken, stop, rest⟩ := Source.scan_of_signals same full
  refine ⟨_, ?_, rest⟩
  simp only [keep, Source.scanCount, taken, stop, head, Nat.lt_irrefl, if_false]

theorem keep_of_end (short : bytes.length < size)
    (same : source.signals = Signal.octets bytes) :
    (keep size source).1 = .error (.ended bytes.length) := by
  obtain ⟨taken, stop, -⟩ := Source.scan_of_signals same
    (Signal.scan_ended (fun _ => false) (some size) (by simp)
      (by simpa using short))
  simp only [keep, Source.scanCount, taken, stop, short, if_true]

theorem keep_of_fault (short : bytes.length < size)
    (same : source.signals = Signal.octets bytes ++ .fault reason :: more) :
    ∃ after, keep size source = (.error (.fault reason), after) ∧ after.signals = more := by
  obtain ⟨-, stop, rest⟩ := Source.scan_of_signals same
    (Signal.scan_fault (fun _ => false) (some size) (by simp)
      (by simpa using short))
  refine ⟨_, ?_, rest⟩
  simp only [keep, Source.scanCount, stop]

end Payload

end WireStore
