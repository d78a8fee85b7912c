import WireStore.Client.Verb
import WireStore.Error
import WireStore.Frame.Request
import WireStore.Text.Token

/-!
# User lines

A user line is a verb and its arguments. In a line that carries a value, the
value is everything after the single blank that follows the announced size, so
a value may contain blanks and begin with them; its length must be the size
that was announced.
-/

namespace WireStore

/-- A user line, understood. -/
inductive Instruction where
  | connect (host : String) (port : UInt16)
  | disconnect
  /-- Something to be sent to the server. -/
  | request (content : Request)
  | help
  | quit
  deriving DecidableEq, Repr

namespace Instruction

/-- The forms of all lines, as shown to a user who asks for help. -/
def helpText : String :=
  "Commands:\n" ++
  "  connect <ip> <port>\n" ++
  "  disconnect\n" ++
  "  create <key> <value-size> <value>\n" ++
  "  read <key>\n" ++
  "  update <key> <value-size> <value>\n" ++
  "  delete <key>\n" ++
  "  quit | exit | help\n"

/-- The first token of a line and what follows it, the line end dropped. -/
def splitVerb (line : Bytes) : Bytes × Bytes :=
  Token.next line.stripLineEnd

/-- What follows the one blank in front of a value. -/
def afterBlank : Bytes → Bytes
  | [] => []
  | octet :: rest => if Ascii.isBlank octet then rest else octet :: rest

/-- A port number, with a plus sign allowed before it. -/
def port? (token : Bytes) : Option UInt16 :=
  (Numeral.unsigned? token).bind fun number =>
    if number < UInt16.size then some (UInt16.ofNat number) else none

/-- A host and a port; anything after them is ignored. -/
def endpoint? (arguments : Bytes) : Option (String × UInt16) :=
  let (host, afterHost) := Token.next arguments
  let (port, _) := Token.next afterHost
  if host.isEmpty then none
  else
    (Utf8.text? host).bind fun host =>
      (port? port).map fun port => (host, port)

/-- A key and nothing after it. -/
def onlyKey? (arguments : Bytes) : Option Key :=
  let (token, rest) := Token.next arguments
  (Key.parse? token).bind fun key => if Token.allBlank rest then some key else none

/-- A key, an announced size and a value of whatever size. -/
def binding? (arguments : Bytes) : Option (Key × Nat × Bytes) :=
  let (keyToken, afterKey) := Token.next arguments
  let (sizeToken, afterSize) := Token.next afterKey
  (Key.parse? keyToken).bind fun key =>
    (Numeral.size? sizeToken).map fun size => (key, size, afterBlank afterSize)

/-- A request that carries a value, if the value is as long as announced. -/
def carrying (make : Key → Bytes → Request) (verb : Verb) (arguments : Bytes) :
    Except Error Instruction :=
  match binding? arguments with
  | none => .error (.usage verb.form)
  | some (key, declared, value) =>
    if value.length = declared then .ok (.request (make key value))
    else .error (.sizeMismatch declared value.length)

/-- A request that names a key only. -/
def naming (make : Key → Request) (verb : Verb) (arguments : Bytes) : Except Error Instruction :=
  match onlyKey? arguments with
  | none => .error (.usage verb.form)
  | some key => .ok (.request (make key))

/-- The instruction that a verb and the text after it make. -/
def ofVerb (verb : Verb) (arguments : Bytes) : Except Error Instruction :=
  match verb with
  | .connect =>
    match endpoint? arguments with
    | none => .error (.usage verb.form)
    | some (host, port) => .ok (.connect host port)
  | .disconnect => .ok .disconnect
  | .help => .ok .help
  | .quit => .ok .quit
  | .read => naming .read verb arguments
  | .delete => naming .delete verb arguments
  | .create => carrying .create verb arguments
  | .update => carrying .update verb arguments

/-- The instruction on a line, if the line is not blank. -/
def parse (line : Bytes) : Except Error (Option Instruction) :=
  let (token, rest) := splitVerb line
  if token.isEmpty then .ok none
  else
    match Verb.parse? token with
    | none => .error .unknownCommand
    | some verb => (ofVerb verb rest).map some

end Instruction

end WireStore
