import WireStore.Frame.Limits
import WireStore.Frame.Line
import WireStore.Frame.Payload
import WireStore.Stream.Writer
import WireStore.Text.Utf8

/-!
# Replies

A reply is `OK`, `OK` with the size of a value and then the value, or `ERR`
with a message. Text in a reply is decoded lossily, so that every line that
begins like an error reply is one.
-/

namespace WireStore

/-- What a server answers. -/
inductive Reply where
  | ok
  | value (content : Bytes)
  | error (text : String)
  deriving DecidableEq, Repr

namespace Reply

/-- The word of an answer that grants. -/
def okWord : Bytes := Utf8.encode "OK"

/-- The word of an answer that refuses. -/
def errorWord : Bytes := Utf8.encode "ERR"

/-- Keeps a message on one line. -/
def flatten (message : String) : String :=
  String.ofList (message.toList.map fun char => if char = '\r' ∨ char = '\n' then ' ' else char)

/-- A message that is on one line already is kept as it is. -/
theorem flatten_eq_self {message : String}
    (clean : message.toList.all (fun char => char ≠ '\r' ∧ char ≠ '\n') = true) :
    flatten message = message := by
  have kept : (message.toList.map fun char => if char = '\r' ∨ char = '\n' then ' ' else char) =
      message.toList := by
    conv => rhs; rw [← List.map_id message.toList]
    refine List.map_congr_left fun char mem => ?_
    have same := of_decide_eq_true (List.all_eq_true.mp clean char mem)
    simp [same.1, same.2]
  rw [flatten, kept, String.ofList_toList]

/-- The reply that reports an error. -/
def ofError (error : Error) : Reply :=
  .error (flatten error.message)

/-- The header line of a reply, without its line end. -/
def header : Reply → Bytes
  | .ok => okWord
  | .value content => okWord ++ 32 :: Numeral.digits content.length
  | .error text => errorWord ++ 32 :: Utf8.encode text

/-- The bytes of a reply. -/
def encode (reply : Reply) : Bytes :=
  match reply with
  | .value content => reply.header ++ Bytes.lineFeed :: content
  | _ => reply.header ++ [Bytes.lineFeed]

/-- What the header line of a reply says. -/
inductive Announcement where
  | ok
  /-- A value of this many bytes follows. -/
  | value (size : Nat)
  | error (text : String)
  /-- The line is no header of a reply. -/
  | unexpected
  deriving DecidableEq, Repr

/-- What follows a word and the one space after it. -/
def afterWord? (word line : Bytes) : Option Bytes :=
  if (word ++ [32]).isPrefixOf line then some (line.drop (word.length + 1)) else none

/-- Takes the header line of a reply apart. -/
def announcement (line : Bytes) : Announcement :=
  if line = okWord then .ok
  else
    match afterWord? okWord line with
    | some size => (Numeral.size? size).elim .unexpected .value
    | none =>
      if line = errorWord then .error ""
      else
        match afterWord? errorWord line with
        | some message => .error (Utf8.lossy message)
        | none => .unexpected

/-- Reads the value that a header line announces. -/
def readValue (alloc : Allocator) (limits : Limits) (size : Nat) (source : Source) :
    Except Error Reply × Source :=
  match Payload.read alloc limits.maxValueSize size source with
  | (.ok (.kept content), rest) => (.ok (.value content), rest)
  | (.ok .tooLarge, rest) => (.error (.valueTooLarge size limits.maxValueSize), rest)
  | (.ok .unreservable, rest) => (.error .outOfMemory, rest)
  | (.error (.ended received), rest) => (.error (.truncatedValue size received), rest)
  | (.error (.fault reason), rest) => (.error (.io reason), rest)

/-- Goes on from a header line. -/
def readAfterLine (alloc : Allocator) (limits : Limits) (line : Bytes) (source : Source) :
    Except Error Reply × Source :=
  match announcement line with
  | .ok => (.ok .ok, source)
  | .value size => readValue alloc limits size source
  | .error message => (.ok (.error message), source)
  | .unexpected => (.error (.unexpectedReply (Utf8.lossy line)), source)

/-- Reads one reply. -/
def read (alloc : Allocator) (limits : Limits) (source : Source) :
    Except Error Reply × Source :=
  match Line.read limits.maxHeaderLength source with
  | (.ok (.complete line), rest) => readAfterLine alloc limits line rest
  | (.ok .tooLong, rest) => (.error (.unexpectedReply "header line too long"), rest)
  | (.ok .ended, rest) => (.error .connectionClosed, rest)
  | (.error failure, rest) => (.error failure, rest)

/-- Writes one reply and flushes. -/
def write {ω : Type} [Writer ω] (reply : Reply) (writer : ω) : Except Error Unit × ω :=
  Writer.deliver writer reply.encode

end Reply

end WireStore
