import WireStore.Client.Frontend
import WireStore.CommandLine.Reading
import WireStore.CommandLine.Version

/-!
# The client's command line

A client is started in one of two modes: a dialogue on standard input, or a
batch read from a file. One option, before or after the mode, sets the largest
value that is taken from a reply.
-/

namespace WireStore.CommandLine.Client

/-- What a client is started with. -/
structure Invocation where
  frontend : Frontend
  /-- The name of the file a batch is read from. -/
  file : Option String
  limits : Limits
  deriving DecidableEq, Repr

/-- What the operands of a client amount to so far. -/
inductive Operands where
  | none
  | dialogue
  /-- A batch, once its file is named. -/
  | batch (file : Option String)
  /-- Help, perhaps about one of the modes. -/
  | help (topic : Option String)
  deriving DecidableEq, Repr

/-- The option for the largest value taken from a reply. -/
def maxValueSize : String := "max-value-size"

/-- The words that begin a part of the line. -/
def words : List String := ["interactive", "batch", "help"]

/-- Takes an operand: a mode, the file of a batch, or what help is asked about. -/
def operand (reading : Reading Operands) (text : String) : Except Refusal (Reading Operands) :=
  match reading.operands with
  | .none =>
    let entered := { reading with depth := reading.depth + 1 }
    if reading.literal then .error .misused
    else if text = "interactive" then .ok { entered with operands := .dialogue }
    else if text = "batch" then .ok { entered with operands := .batch Option.none }
    else if text = "help" then
      .ok { entered with operands := .help Option.none, literal := true }
    else .error .misused
  | .batch Option.none =>
    if text.isEmpty then .error .misused
    else .ok { reading with operands := .batch (some text) }
  | .help Option.none =>
    if words.contains text then .ok { reading with operands := .help (some text) }
    else .error .misused
  | _ => .error .misused

/-- What a client expects on its command line. -/
def grammar : Grammar Operands where
  options := [maxValueSize]
  tellsVersion depth := depth == 0
  operand := operand

/-- The invocation that a client's arguments stand for. -/
def parse (arguments : List String) : Except Refusal Invocation :=
  (Reading.ofArguments grammar .none arguments).bind fun reading =>
    let limits := { maxValueSize := (reading.number? maxValueSize).getD 1048576 }
    match reading.operands with
    | .dialogue => .ok ⟨.dialogue, Option.none, limits⟩
    | .batch (some file) => .ok ⟨.batch, some file, limits⟩
    | .help _ => .error .help
    | _ => .error .misused

/-- The name of the program. -/
def program : String := "linekv-cli"

/-- The shell that a client begins with. -/
def Invocation.shell {ν : Type} (invocation : Invocation) (network : ν) : Shell ν :=
  { session := { network, limits := invocation.limits } }

end WireStore.CommandLine.Client
