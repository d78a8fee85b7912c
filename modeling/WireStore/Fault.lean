/-!
# Faults of a stream

A fault is what a stream raises instead of moving bytes: a kind that programs
act on and a text that people read. Two kinds of decision depend on the kind:
an interruption is retried, and a departed peer ends a connection quietly.
-/

namespace WireStore

/-- The kinds of fault. -/
inductive FaultKind where
  | notFound
  | permissionDenied
  | connectionRefused
  | connectionReset
  | hostUnreachable
  | networkUnreachable
  | connectionAborted
  | notConnected
  | addrInUse
  | addrNotAvailable
  | networkDown
  | brokenPipe
  | alreadyExists
  | wouldBlock
  | notADirectory
  | isADirectory
  | directoryNotEmpty
  | readOnlyFilesystem
  | staleNetworkFileHandle
  | invalidInput
  | invalidData
  | timedOut
  | writeZero
  | storageFull
  | notSeekable
  | quotaExceeded
  | fileTooLarge
  | resourceBusy
  | executableFileBusy
  | deadlock
  | crossesDevices
  | tooManyLinks
  | invalidFilename
  | argumentListTooLong
  | interrupted
  | unsupported
  | unexpectedEof
  | outOfMemory
  | other
  deriving DecidableEq, Repr

namespace FaultKind

/-- Every kind with the name it is reported under. -/
def names : List (FaultKind × String) :=
  [(.notFound, "NotFound"), (.permissionDenied, "PermissionDenied"),
    (.connectionRefused, "ConnectionRefused"), (.connectionReset, "ConnectionReset"),
    (.hostUnreachable, "HostUnreachable"), (.networkUnreachable, "NetworkUnreachable"),
    (.connectionAborted, "ConnectionAborted"), (.notConnected, "NotConnected"),
    (.addrInUse, "AddrInUse"), (.addrNotAvailable, "AddrNotAvailable"),
    (.networkDown, "NetworkDown"), (.brokenPipe, "BrokenPipe"),
    (.alreadyExists, "AlreadyExists"), (.wouldBlock, "WouldBlock"),
    (.notADirectory, "NotADirectory"), (.isADirectory, "IsADirectory"),
    (.directoryNotEmpty, "DirectoryNotEmpty"), (.readOnlyFilesystem, "ReadOnlyFilesystem"),
    (.staleNetworkFileHandle, "StaleNetworkFileHandle"), (.invalidInput, "InvalidInput"),
    (.invalidData, "InvalidData"), (.timedOut, "TimedOut"), (.writeZero, "WriteZero"),
    (.storageFull, "StorageFull"), (.notSeekable, "NotSeekable"),
    (.quotaExceeded, "QuotaExceeded"), (.fileTooLarge, "FileTooLarge"),
    (.resourceBusy, "ResourceBusy"), (.executableFileBusy, "ExecutableFileBusy"),
    (.deadlock, "Deadlock"), (.crossesDevices, "CrossesDevices"),
    (.tooManyLinks, "TooManyLinks"), (.invalidFilename, "InvalidFilename"),
    (.argumentListTooLong, "ArgumentListTooLong"), (.interrupted, "Interrupted"),
    (.unsupported, "Unsupported"), (.unexpectedEof, "UnexpectedEof"),
    (.outOfMemory, "OutOfMemory"), (.other, "Other")]

/-- The name a kind is reported under. -/
def name (kind : FaultKind) : String :=
  ((names.find? fun entry => entry.1 == kind).map Prod.snd).getD ""

/-- The kind reported under a name. -/
def ofName? (name : String) : Option FaultKind :=
  (names.find? fun entry => entry.2 == name).map Prod.fst

/-- Holds of the faults that mean the peer is gone rather than that this side
misbehaved; a peer that stays silent, or stops reading, for too long is gone too. -/
def isDeparture : FaultKind → Bool
  | .connectionReset | .connectionAborted | .brokenPipe | .wouldBlock | .timedOut => true
  | _ => false

theorem ofName?_name (kind : FaultKind) : ofName? kind.name = some kind := by
  cases kind <;> decide

end FaultKind

/-- A fault raised by a stream. -/
structure Fault where
  kind : FaultKind
  text : String
  deriving DecidableEq, Repr

namespace Fault

/-- A line was begun and the stream ended before the line did. -/
def brokenLine : Fault :=
  ⟨.unexpectedEof, "stream closed in the middle of a header line"⟩

/-- A writer accepted nothing of what it was given. -/
def nothingWritten : Fault :=
  ⟨.writeZero, "failed to write whole buffer"⟩

/-- A writer accepted nothing of what a buffer held back for it. -/
def nothingDrained : Fault :=
  ⟨.writeZero, "failed to write the buffered data"⟩

end Fault

end WireStore
