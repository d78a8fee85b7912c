import WireStore.Error
import WireStore.Stream.Source.Lemmas

/-!
# Header lines

A header line is read in two stages: at most two bytes more than its longest
form are kept, and the rest of a longer line is let by. Either way the source
is left at the beginning of the next line.
-/

namespace WireStore

/-- What was found where a line was due. -/
inductive Line where
  /-- A line, without its line end. -/
  | complete (content : Bytes)
  /-- A line beyond the limit, which has been skipped. -/
  | tooLong
  /-- No byte of a line: the source has ended. -/
  | ended
  deriving DecidableEq, Repr

namespace Line

/-- A line that came to its line feed within the first stage. -/
def ofTaken (maxLength : Nat) (taken : Bytes) : Line :=
  let content := taken.stripLineEnd
  if content.length ≤ maxLength then .complete content else .tooLong

/-- What the source ended with: no line, or the beginning of one. -/
def ofEnd : Bytes → Except Error Line
  | [] => .ok .ended
  | _ :: _ => .error (.io .brokenLine)

/-- Skips the rest of a line whose beginning filled the first stage. -/
def skip (source : Source) : Except Error Line × Source :=
  let tail := source.passLine
  match tail.stop with
  | .found => (.ok .tooLong, tail.rest)
  | .fault reason => (.error (.io reason), tail.rest)
  | _ => (.error (.io .brokenLine), tail.rest)

/-- Reads one line. -/
def read (maxLength : Nat) (source : Source) : Except Error Line × Source :=
  let head := source.scanLine (some (maxLength + 2))
  match head.stop with
  | .found => (.ok (ofTaken maxLength head.taken), head.rest)
  | .full => skip head.rest
  | .fault reason => (.error (.io reason), head.rest)
  | .ended => (ofEnd head.taken, head.rest)

theorem size_skip_le (source : Source) : (skip source).2.size ≤ source.size := by
  have kept := source.size_scan (· == Bytes.lineFeed) none
  simp only [skip, Source.passLine, Source.pass_eq]
  split <;> simp only <;> omega

/-- Reading a line never gives bytes back. -/
theorem size_read_le (maxLength : Nat) (source : Source) :
    (read maxLength source).2.size ≤ source.size := by
  have kept := source.size_scan (· == Bytes.lineFeed) (some (maxLength + 2))
  simp only [read, Source.scanLine]
  split
  · simp only; omega
  · exact Nat.le_trans (size_skip_le _) (by omega)
  · simp only; omega
  · simp only; omega

/-- Every line that was there, kept or skipped, has been consumed. -/
theorem size_read_lt {maxLength : Nat} {source : Source} {line : Line} (present : line ≠ .ended)
    (found : (read maxLength source).1 = .ok line) :
    (read maxLength source).2.size < source.size := by
  have kept := source.size_scan (· == Bytes.lineFeed) (some (maxLength + 2))
  simp only [read, Source.scanLine] at found ⊢
  split at found
  next here =>
    have taken := List.length_pos_iff.mpr (Source.taken_ne_nil_of_found here)
    simp only
    omega
  next here =>
    have taken := Source.length_taken_of_full here
    simp only [Option.some.injEq] at taken
    exact Nat.lt_of_le_of_lt (size_skip_le _) (by omega)
  next => cases found
  next =>
    cases taken : (source.scan (· == Bytes.lineFeed) (some (maxLength + 2))).taken with
    | nil =>
      simp only [taken, ofEnd, Except.ok.injEq] at found
      exact absurd found.symm present
    | cons octet octets => simp [taken, ofEnd] at found

end Line

end WireStore
