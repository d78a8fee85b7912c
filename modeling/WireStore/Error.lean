import WireStore.Fault

/-!
# Errors

One type for every way in which an operation of the store, of the wire format,
of a session or of the configuration can fail. `message` is the text shown to a
user and, for the errors a server answers with, the text that follows `ERR `
on the wire. A transport error is one after which the stream can carry no
further frame.
-/

namespace WireStore

/-- Why an operation failed. -/
inductive Error where
  /-- The stream raised a fault. -/
  | io (fault : Fault)
  /-- The key to be created is already bound. -/
  | keyExists
  /-- The key is not bound. -/
  | keyNotFound
  /-- A replacing value is empty. -/
  | emptyUpdate
  /-- No room for a value could be reserved. -/
  | outOfMemory
  /-- A request does not have the form of one. -/
  | malformed
  /-- The first token of a request or of a user line is no verb. -/
  | unknownCommand
  /-- The stream ended inside the payload of a request. -/
  | prematureEnd (expected received : Nat)
  /-- The stream ended inside the value of a reply. -/
  | truncatedValue (expected received : Nat)
  /-- The stream ended where a reply was due. -/
  | connectionClosed
  /-- A reply does not have the form of one. -/
  | unexpectedReply (text : String)
  /-- The value of a reply exceeds the reader's limit; its bytes were skipped. -/
  | valueTooLarge (size limit : Nat)
  /-- A request could not be written. -/
  | sendFailed (fault : Fault)
  /-- There is no connection to use. -/
  | notConnected
  /-- There is a connection in the way. -/
  | alreadyConnected
  /-- No address of the host accepted a connection. -/
  | connectFailed
  /-- A user line announces a size other than that of its value. -/
  | sizeMismatch (declared actual : Nat)
  /-- A user line does not have the form that its verb asks for. -/
  | usage (form : String)
  /-- A setting with which no server can run. -/
  | configuration (text : String)
  deriving DecidableEq, Repr

namespace Error

/-- The text shown for an error. -/
def message : Error → String
  | .io fault => "IO error: " ++ fault.text
  | .keyExists => "key exists"
  | .keyNotFound => "no such key"
  | .emptyUpdate => "size must be > 0"
  | .outOfMemory => "out of memory"
  | .malformed => "malformed command"
  | .unknownCommand => "unknown command"
  | .prematureEnd _ _ => "premature EOF on value"
  | .truncatedValue _ _ => "truncated value from server"
  | .connectionClosed => "server closed connection"
  | .unexpectedReply text => "unexpected response: " ++ text
  | .valueTooLarge size limit =>
    "value too large (" ++ Nat.repr size ++ " bytes, max " ++ Nat.repr limit ++ ")"
  | .sendFailed _ => "send failed"
  | .notConnected => "not connected"
  | .alreadyConnected => "already connected"
  | .connectFailed => "connect failed"
  | .sizeMismatch declared actual =>
    "value-size (" ++ Nat.repr declared ++ ") does not match actual length (" ++
      Nat.repr actual ++ ")"
  | .usage form => "usage: " ++ form
  | .configuration text => "Configuration error: " ++ text

/-- Holds of the errors after which the stream can carry no further frame. -/
def isTransport : Error → Bool
  | .io _ | .prematureEnd _ _ | .truncatedValue _ _ | .connectionClosed | .sendFailed _ => true
  | _ => false

/-- The fault behind an error, if a stream raised one. -/
def cause? : Error → Option Fault
  | .io fault | .sendFailed fault => some fault
  | _ => none

/-- Holds of the errors that mean the peer is gone. -/
def isDeparture : Error → Bool
  | .io fault => fault.kind.isDeparture
  | _ => false

end Error

end WireStore
