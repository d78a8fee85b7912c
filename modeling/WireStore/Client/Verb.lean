import WireStore.Text.Ascii
import WireStore.Text.Utf8

/-!
# Verbs of user lines

The first token of a line a user types, in any case. Two spellings end a
session; each of the others has one.
-/

namespace WireStore

/-- What a user line asks for. -/
inductive Verb where
  | connect
  | disconnect
  | create
  | read
  | update
  | delete
  | help
  | quit
  deriving DecidableEq, Repr

namespace Verb

/-- The spellings of the verbs. -/
def spellings : List (String × Verb) :=
  [("connect", connect), ("disconnect", disconnect), ("create", create), ("read", read),
    ("update", update), ("delete", delete), ("help", help), ("quit", quit), ("exit", quit)]

/-- The verb that a token spells in any case. -/
def parse? (token : Bytes) : Option Verb :=
  (spellings.find? fun entry =>
    Ascii.sameIgnoringCase (Utf8.encode entry.1) token).map Prod.snd

/-- Holds of the verbs that need a connection. -/
def needsServer : Verb → Bool
  | create | read | update | delete => true
  | _ => false

/-- The form of a line with this verb. -/
def form : Verb → String
  | connect => "connect <server-ip> <server-port>"
  | create => "create <key> <value-size> <value>"
  | update => "update <key> <value-size> <value>"
  | read => "read <key>"
  | delete => "delete <key>"
  | disconnect => "disconnect"
  | help => "help"
  | quit => "quit | exit"

end Verb

end WireStore
