import WireStore.Frame.Header
import WireStore.Stream.Writer

/-!
# Requests

A request is written as a header line and, if it carries a value, the bytes of
that value. The size in the header is the length of the value, so the frame
needs no mark at its end.
-/

namespace WireStore

/-- What a client asks of a server. -/
inductive Request where
  /-- Bind a key that is not bound. -/
  | create (key : Key) (value : Bytes)
  /-- Replace the value of a bound key. -/
  | update (key : Key) (value : Bytes)
  /-- Fetch the value of a key. -/
  | read (key : Key)
  /-- Remove a key and its value. -/
  | delete (key : Key)
  deriving DecidableEq, Repr

namespace Request

def method : Request → Method
  | .create _ _ => .create
  | .update _ _ => .update
  | .read _ => .read
  | .delete _ => .delete

def key : Request → Key
  | .create key _ | .update key _ | .read key | .delete key => key

/-- The value that a request carries. -/
def value? : Request → Option Bytes
  | .create _ value | .update _ value => some value
  | .read _ | .delete _ => none

/-- The header line of a request, without its line end. -/
def header (request : Request) : Bytes :=
  let words := Utf8.encode request.method.word ++ 32 :: request.key.text
  match request.value? with
  | some value => words ++ 32 :: Numeral.digits value.length
  | none => words

/-- The bytes of a request. -/
def encode (request : Request) : Bytes :=
  request.header ++ Bytes.lineFeed :: request.value?.getD []

/-- The request that a header stands for once its payload is there. -/
def ofHeader (header : Header) (value : Bytes) : Request :=
  match header.method with
  | .create => .create header.key value
  | .update => .update header.key value
  | .read => .read header.key
  | .delete => .delete header.key

/-- Writes one request and flushes. -/
def write {ω : Type} [Writer ω] (request : Request) (writer : ω) : Except Error Unit × ω :=
  Writer.deliver writer request.encode

end Request

end WireStore
