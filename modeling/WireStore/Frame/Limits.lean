/-!
# Limits on frames

Two limits bound what a reader takes into memory: the length of a header line,
and the size of a payload. A frame beyond a limit is still consumed.
-/

namespace WireStore

/-- The limits a reader of frames applies. -/
structure Limits where
  /-- The largest payload that is kept. -/
  maxValueSize : Nat := 1048576
  /-- The longest header line, its line end not counted. -/
  maxHeaderLength : Nat := 4096
  deriving DecidableEq, Repr

end WireStore
