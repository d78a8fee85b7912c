import WireStore.Error
import WireStore.Key
import WireStore.Text.Token
import WireStore.Text.Utf8

/-!
# Request headers

A header line is a verb, a key and, for the verbs that carry a value, the
value's size, separated by blanks and nothing else. A line that is not text at
all, or lacks a token, or has one too many, is malformed; only a first token
that names no verb is reported as an unknown command.
-/

namespace WireStore

/-- The verbs of requests. -/
inductive Method where
  | create
  | update
  | read
  | delete
  deriving DecidableEq, Repr

namespace Method

/-- The upper-case spelling written on the wire. -/
def word : Method → String
  | .create => "CREATE"
  | .update => "UPDATE"
  | .read => "READ"
  | .delete => "DELETE"

/-- The verb that a token spells in any case. -/
def parse? (token : Bytes) : Option Method :=
  [create, update, read, delete].find? fun method =>
    Ascii.sameIgnoringCase (Utf8.encode method.word) token

/-- Holds of the verbs whose header announces a payload. -/
def carriesValue : Method → Bool
  | .create | .update => true
  | .read | .delete => false

end Method

/-- A header line, taken apart. -/
structure Header where
  method : Method
  key : Key
  /-- The announced size of the payload, zero where there is none. -/
  size : Nat
  deriving DecidableEq, Repr

namespace Header

/-- The size that follows a key, and what follows the size. -/
def size? (method : Method) (afterKey : Bytes) : Option (Nat × Bytes) :=
  if method.carriesValue then
    let (sizeToken, rest) := Token.next afterKey
    (Numeral.size? sizeToken).map fun size => (size, rest)
  else some (0, afterKey)

/-- The key and the size that follow a verb; nothing else may. -/
def arguments? (method : Method) (afterVerb : Bytes) : Option Header :=
  let (keyToken, afterKey) := Token.next afterVerb
  (Key.parse? keyToken).bind fun key =>
    (size? method afterKey).bind fun (size, rest) =>
      if Token.allBlank rest then some ⟨method, key, size⟩ else none

/-- Takes a header line apart. -/
def parse (line : Bytes) : Except Error Header :=
  if !Utf8.isValid line then .error .malformed
  else
    let (verb, afterVerb) := Token.next line
    if verb.isEmpty then .error .malformed
    else
      match Method.parse? verb with
      | none => .error .unknownCommand
      | some method =>
        match arguments? method afterVerb with
        | none => .error .malformed
        | some header => .ok header

end Header

end WireStore
