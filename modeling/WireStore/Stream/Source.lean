import WireStore.Bytes
import WireStore.Fault

/-!
# Sources of bytes

A source delivers bytes in chunks of its own choosing, may raise a fault where
the next byte is asked for, and ends. There are two ways to read. `scan` takes
bytes up to and including the first that satisfies a test, or up to a limit;
`pass` lets the same bytes go by and keeps nothing but their number. Neither
asks the source for anything once it has what it came for; both retry
interruptions and leave bytes that came before a fault consumed.
-/

namespace WireStore

/-- What a reader finds when it asks for bytes. -/
inductive Source where
  /-- No byte will come any more. -/
  | ended
  /-- These bytes, and then what follows. -/
  | chunk (bytes : Bytes) (next : Source)
  /-- A fault, raised once, and then what follows. -/
  | fault (reason : Fault) (next : Source)
  deriving Repr

/-- How a scan came to its end. -/
inductive Stop where
  /-- The last byte taken satisfies the test. -/
  | found
  /-- As many bytes were taken as the limit allows, none of which satisfies the test. -/
  | full
  /-- The source ended first. -/
  | ended
  /-- The source raised a fault first. -/
  | fault (reason : Fault)
  deriving DecidableEq, Repr

/-- What a scan took, how it stopped and what it left. -/
structure Scan where
  taken : Bytes
  stop : Stop
  rest : Source

/-- How many bytes were let by, how that stopped and what it left. -/
structure Passage where
  count : Nat
  stop : Stop
  rest : Source

namespace Source

/-- A source that delivers one chunk and ends. -/
def ofBytes (bytes : Bytes) : Source :=
  .chunk bytes .ended

/-- The first source, and where it ends the second. -/
def append : Source → Source → Source
  | .ended, second => second
  | .chunk bytes next, second => .chunk bytes (next.append second)
  | .fault reason next, second => .fault reason (next.append second)

instance : Append Source := ⟨append⟩

/-- The number of bytes still to be delivered. -/
def size : Source → Nat
  | .ended => 0
  | .chunk bytes next => bytes.length + next.size
  | .fault _ next => next.size

/-- All bytes still to be delivered, faults left out. -/
def bytes : Source → Bytes
  | .ended => []
  | .chunk bytes next => bytes ++ next.bytes
  | .fault _ next => next.bytes

/-- Splits a chunk behind the first byte that satisfies `ends`, or behind
`limit` bytes. Without a reason to stop the whole chunk is taken; `taken` holds
the bytes passed so far, latest first. -/
def cut (ends : UInt8 → Bool) (limit : Option Nat) (taken : Bytes) :
    Bytes → Bytes × Option (Stop × Bytes)
  | [] => (taken.reverse, none)
  | octet :: rest =>
    if limit = some 0 then (taken.reverse, some (.full, octet :: rest))
    else if ends octet then ((octet :: taken).reverse, some (.found, rest))
    else cut ends (limit.map (· - 1)) (octet :: taken) rest

/-- Takes bytes up to and including the first that satisfies `ends`, at most `limit` of them. -/
def scan (ends : UInt8 → Bool) (limit : Option Nat) : Source → Scan
  | .ended => if limit = some 0 then ⟨[], .full, .ended⟩ else ⟨[], .ended, .ended⟩
  | .fault reason next =>
    if limit = some 0 then ⟨[], .full, .fault reason next⟩
    else if reason.kind = .interrupted then next.scan ends limit
    else ⟨[], .fault reason, next⟩
  | .chunk bytes next =>
    match cut ends limit [] bytes with
    | (taken, some (stop, rest)) => ⟨taken, stop, .chunk rest next⟩
    | (taken, none) =>
      let more := next.scan ends (limit.map (· - taken.length))
      ⟨taken ++ more.taken, more.stop, more.rest⟩

/-- Lets bytes by up to and including the first that satisfies `ends`, at most `limit` of
them. In each chunk it is looked up where that byte stands. -/
def pass (ends : UInt8 → Bool) (limit : Option Nat) : Source → Passage
  | .ended => if limit = some 0 then ⟨0, .full, .ended⟩ else ⟨0, .ended, .ended⟩
  | .fault reason next =>
    if limit = some 0 then ⟨0, .full, .fault reason next⟩
    else if reason.kind = .interrupted then next.pass ends limit
    else ⟨0, .fault reason, next⟩
  | .chunk bytes next =>
    let front := bytes.within limit
    match front.findIdx? ends with
    | some index => ⟨index + 1, .found, .chunk (bytes.drop (index + 1)) next⟩
    | none =>
      if front.length < bytes.length then
        ⟨front.length, .full, .chunk (bytes.drop front.length) next⟩
      else
        let more := next.pass ends (limit.map (· - bytes.length))
        ⟨bytes.length + more.count, more.stop, more.rest⟩

/-- Takes bytes through the first line feed, at most `limit` of them. -/
def scanLine (limit : Option Nat) (source : Source) : Scan :=
  source.scan (· == Bytes.lineFeed) limit

/-- Takes `count` bytes, fewer only if the source ends or raises a fault before. -/
def scanCount (count : Nat) (source : Source) : Scan :=
  source.scan (fun _ => false) (some count)

/-- Lets bytes by through the first line feed. -/
def passLine (source : Source) : Passage :=
  source.pass (· == Bytes.lineFeed) none

/-- Lets `count` bytes by, fewer only if the source ends or raises a fault before. -/
def passCount (count : Nat) (source : Source) : Passage :=
  source.pass (fun _ => false) (some count)

end Source

end WireStore
