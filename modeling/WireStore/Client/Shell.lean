import WireStore.Client.Instruction
import WireStore.Client.Session
import WireStore.Stream.Sink

/-!
# The shell

A shell carries out user lines on a session and prints how each came out. An
error of a command is printed and never ends the shell; only failing to print
does. `Session.interpret` is what a line does, `Shell.execute` does it and
prints.
-/

namespace WireStore

/-- What a line leads to besides its effect on the session. -/
inductive Outcome where
  /-- The line is blank: nothing is printed. -/
  | nothing
  | print (text : Bytes)
  | quit
  deriving DecidableEq, Repr

/-- Whether more lines are to be read. -/
inductive Flow where
  | goOn
  | quit
  deriving DecidableEq, Repr

namespace Outcome

/-- Prints a text on a line of its own. -/
def line (text : Bytes) : Outcome := .print (text ++ [Bytes.lineFeed])

/-- Reports an error. -/
def error (reason : Error) : Outcome := line (Utf8.encode ("ERR " ++ reason.message))

/-- Confirms that a command was carried out. -/
def done : Outcome := line Reply.okWord

/-- Shows a reply: a value as it is, anything else as the server put it. -/
def reply : Reply → Outcome
  | .ok => done
  | .value content => line content
  | .error message =>
    if message.isEmpty then line Reply.errorWord
    else line (Utf8.encode ("ERR " ++ message))

end Outcome

namespace Session

variable {ν : Type} [Network ν]

/-- Carries out an instruction. -/
def perform (session : Session ν) : Instruction → Outcome × Session ν
  | .connect host port =>
    match session.connect host port with
    | (.ok _, after) => (.done, after)
    | (.error reason, after) => (.error reason, after)
  | .disconnect => (.done, session.disconnect.2)
  | .help => (.print (Utf8.encode Instruction.helpText), session)
  | .quit => (.quit, session.disconnect.2)
  | .request content =>
    match session.request content with
    | (.ok reply, after) => (.reply reply, after)
    | (.error reason, after) => (.error reason, after)

/-- Carries out a line whose verb is known. Without a connection, a verb that
needs one is refused before its arguments are looked at. -/
def interpretVerb (session : Session ν) (verb : Verb) (arguments : Bytes) : Outcome × Session ν :=
  if verb.needsServer ∧ session.isConnected = false then (.error .notConnected, session)
  else
    match Instruction.ofVerb verb arguments with
    | .ok instruction => session.perform instruction
    | .error reason => (.error reason, session)

/-- Carries out a line. -/
def interpret (session : Session ν) (line : Bytes) : Outcome × Session ν :=
  let (token, arguments) := Instruction.splitVerb line
  if token.isEmpty then (.nothing, session)
  else
    match Verb.parse? token with
    | none => (.line (Utf8.encode "ERR unknown command (type 'help')"), session)
    | some verb => session.interpretVerb verb arguments

end Session

/-- A session and where its outcomes are printed. -/
structure Shell (ν : Type) where
  session : Session ν
  out : Sink := {}

namespace Shell

variable {ν : Type} [Network ν]

/-- Turns a fault of the output into an error of the shell. -/
def printing {α : Type} (value : α) : Except Fault Unit → Except Error α
  | .ok () => .ok value
  | .error reason => .error (.io reason)

/-- Carries out one line and prints its outcome, flushing at the end. -/
def execute (shell : Shell ν) (line : Bytes) : Except Error Flow × Shell ν :=
  match shell.session.interpret line with
  | (.nothing, session) => (.ok .goOn, { shell with session })
  | (.print text, session) =>
    let (printed, out) := shell.out.send text
    (printing .goOn printed, { session, out })
  | (.quit, session) =>
    let (flushed, out) := shell.out.flush
    (printing .quit flushed, { session, out })

/-- Gives the connection up and flushes. -/
def finish (shell : Shell ν) : Except Error Unit × Shell ν :=
  let session := shell.session.disconnect.2
  let (flushed, out) := shell.out.flush
  (printing () flushed, { session, out })

end Shell

end WireStore
