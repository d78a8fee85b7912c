import WireStore.Frame.Limits
import WireStore.Frame.Line
import WireStore.Frame.Payload
import WireStore.Frame.Request

/-!
# Incoming frames

Where a request is due a server finds one of three things: a request, a frame
that was consumed but breaks a rule and must be answered with an error, or the
end of the stream between frames. Anything else is an error, after which the
stream can carry no more.
-/

namespace WireStore

/-- What was found where a request was due. -/
inductive Incoming where
  | request (content : Request)
  /-- A frame that was consumed and is to be answered with this error. -/
  | rejected (reason : Error)
  /-- The stream ended between frames. -/
  | ended
  deriving DecidableEq, Repr

namespace Incoming

/-- Reads the payload that a header announces and completes the request. -/
def readPayload (alloc : Allocator) (limits : Limits) (header : Header) (source : Source) :
    Except Error Incoming × Source :=
  match Payload.read alloc limits.maxValueSize header.size source with
  | (.ok (.kept value), rest) => (.ok (.request (.ofHeader header value)), rest)
  | (.ok .tooLarge, rest) => (.ok (.rejected .malformed), rest)
  | (.ok .unreservable, rest) => (.ok (.rejected .outOfMemory), rest)
  | (.error (.ended received), rest) => (.error (.prematureEnd header.size received), rest)
  | (.error (.fault reason), rest) => (.error (.io reason), rest)

/-- Goes on from a header line. An update to nothing is rejected at once; its
announced payload is empty. -/
def readAfterLine (alloc : Allocator) (limits : Limits) (content : Bytes) (source : Source) :
    Except Error Incoming × Source :=
  match Header.parse content with
  | .error error => (.ok (.rejected error), source)
  | .ok header =>
    if header.method = .update ∧ header.size = 0 then (.ok (.rejected .emptyUpdate), source)
    else if header.method.carriesValue then readPayload alloc limits header source
    else (.ok (.request (.ofHeader header [])), source)

/-- Reads one frame. -/
def read (alloc : Allocator) (limits : Limits) (source : Source) :
    Except Error Incoming × Source :=
  match Line.read limits.maxHeaderLength source with
  | (.ok (.complete content), rest) => readAfterLine alloc limits content rest
  | (.ok .tooLong, rest) => (.ok (.rejected .malformed), rest)
  | (.ok .ended, rest) => (.ok .ended, rest)
  | (.error error, rest) => (.error error, rest)

theorem size_readPayload_le (alloc : Allocator) (limits : Limits) (header : Header)
    (source : Source) : (readPayload alloc limits header source).2.size ≤ source.size := by
  have kept := Payload.size_read_le alloc limits.maxValueSize header.size source
  unfold readPayload
  split <;> simp_all

theorem size_readAfterLine_le (alloc : Allocator) (limits : Limits) (content : Bytes)
    (source : Source) : (readAfterLine alloc limits content source).2.size ≤ source.size := by
  unfold readAfterLine
  repeat' split
  all_goals first
    | exact Nat.le_refl _
    | exact size_readPayload_le ..

/-- Every frame that was there, request or not, has been consumed. -/
theorem size_read_lt {alloc : Allocator} {limits : Limits} {source rest : Source}
    {incoming : Incoming} (present : incoming ≠ .ended)
    (found : read alloc limits source = (.ok incoming, rest)) : rest.size < source.size := by
  unfold read at found
  split at found
  next content after line =>
    have consumed := Line.size_read_lt (show Line.complete content ≠ .ended by simp)
      (congrArg Prod.fst line)
    have kept := size_readAfterLine_le alloc limits content after
    rw [line] at consumed
    rw [found] at kept
    exact Nat.lt_of_le_of_lt kept consumed
  next after line =>
    have consumed := Line.size_read_lt (show Line.tooLong ≠ .ended by simp)
      (congrArg Prod.fst line)
    rw [line] at consumed
    rwa [(Prod.mk.inj found).2] at consumed
  next => exact absurd (Except.ok.inj (Prod.mk.inj found).1).symm present
  next => exact nomatch (Prod.mk.inj found).1

end Incoming

end WireStore
