import Std.Async.DNS
import Std.Async.TCP
import Std.Async.Timer
import WireStore.Client.Demand
import WireStore.CommandLine.Client
import WireStore.CommandLine.Server
import WireStore.Server.Listener

/-!
# The programs

`server` serves one connection after another; `client` carries out lines from a
file or from standard input. What is sent, stored and printed is decided by the
library; here bytes are moved between it and the system.
-/

namespace WireStore.Program

open Std.Async Std.Net

/-- The most bytes taken from a socket at once. -/
def portion : Nat := 65536

def octets (bytes : ByteArray) : Bytes := bytes.toList

def packed (bytes : Bytes) : ByteArray := ⟨bytes.toArray⟩

def socketAddress (address : Address) : SocketAddress :=
  .v4 ⟨⟨#v[address.host.first, address.host.second, address.host.third, address.host.fourth]⟩,
    address.port⟩

def hostOf (address : IPv4Addr) : Host :=
  ⟨address.octets[0], address.octets[1], address.octets[2], address.octets[3]⟩

/-- Takes bytes in, unless they are more than so many milliseconds in coming;
zero stands for any time. -/
def receive (milliseconds : Nat) (client : TCP.Socket.Client) : Async (Option ByteArray) := do
  if milliseconds = 0 then client.recv? portion.toUInt64
  else
    Selectable.one #[
      .case (client.recvSelector portion.toUInt64) pure,
      .case (← Selector.sleep (.ofNat milliseconds)) fun _ => throw (.userError "silence")]

/-- Sends bytes, unless they are more than so many milliseconds in going. -/
def transmit (milliseconds : Nat) (client : TCP.Socket.Client) (bytes : Bytes) : Async Unit :=
  if milliseconds = 0 then client.send (packed bytes)
  else Async.race (client.send (packed bytes)) do
    sleep (.ofNat milliseconds)
    throw (.userError "not taken")

/-- Serves one connection until its client is done or the stream breaks. -/
partial def serveClient (config : Config) (client : TCP.Socket.Client) (store : Store)
    (connection : Connection) : IO Store := do
  let arrival ← try
      some <$> (receive config.readTimeout client).block
    catch _ => pure none
  let send (connection : Connection) : IO Bool := do
    if connection.replies.isEmpty then return true
    try
      (transmit config.writeTimeout client connection.output).block
      return true
    catch _ => return false
  match arrival with
  | none => return store
  | some none =>
    discard <| send (connection.close .unlimited config.limits store)
    return store
  | some (some bytes) =>
    let (connection, store) :=
      connection.receive .unlimited config.limits store (octets bytes)
    if ← send connection then
      serveClient config client store { connection with replies := [] }
    else return store

/-- Accepts connections and serves each to its end before the next. -/
partial def acceptClients (config : Config) (server : TCP.Socket.Server) (store : Store) :
    IO Unit := do
  let client ← server.accept.block
  if config.noDelay then
    try client.noDelay catch _ => pure ()
  acceptClients config server (← serveClient config client store {})

def serverMain (arguments : List String) : IO UInt32 := do
  match CommandLine.Server.parse arguments with
  | .error .version =>
    IO.print (CommandLine.versionLine CommandLine.Server.program)
    return 0
  | .error .help =>
    IO.println (CommandLine.Server.program ++ " [OPTIONS] <BIND_IP> <PORT>")
    return 0
  | .error .misused =>
    IO.eprintln (CommandLine.Server.program ++ " [OPTIONS] <BIND_IP> <PORT>")
    return 2
  | .ok config =>
    match config.validate with
    | .error reason =>
      IO.eprintln reason.message
      return 1
    | .ok () =>
      try
        let server ← TCP.Socket.Server.mk
        server.bind (socketAddress config.listenAddress)
        server.listen 128
        IO.eprintln ("listening on " ++ config.listenAddress.text)
        acceptClients config server ∅
        return 0
      catch reason =>
        IO.eprintln (toString reason)
        return 1

/-- The numbered hosts a name stands for. -/
def lookUp (name : String) : IO (List Host) := do
  match Host.parse? name with
  | some host => return [host]
  | none =>
    try
      let found ← (DNS.getAddrInfo name "").block
      return found.toList.filterMap fun
        | .v4 address => some (hostOf address)
        | .v6 _ => none
    catch _ => return []

/-- Connects to the first of some addresses that accepts. -/
def connectFirst : List Address → IO (Option (Address × TCP.Socket.Client))
  | [] => return none
  | address :: others => do
    try
      let socket ← TCP.Socket.Client.mk
      (socket.connect (socketAddress address)).block
      return some (address, socket)
    catch _ => connectFirst others

/-- Receives until a reply is there, or nothing more will come. -/
partial def awaitReply (session : Session Recording) (socket : TCP.Socket.Client)
    (unread arrived : Source) : IO Source := do
  if Reply.isSettled session.alloc session.limits (unread ++ arrived) Connection.awaiting then
    return arrived
  let next ← try
      match ← (socket.recv? portion.toUInt64).block with
      | some bytes => pure (some (octets bytes))
      | none => pure none
    catch _ => return arrived ++ .fault ⟨.connectionReset, "receiving failed"⟩ .ended
  match next with
  | some bytes => awaitReply session socket unread (arrived ++ .ofBytes bytes)
  | none => return arrived

/-- Does what a line demands, and records what came of it. -/
def meetDemand (session : Session Recording) (socket : Option TCP.Socket.Client) (line : Bytes) :
    IO (Recording × Option TCP.Socket.Client) := do
  match session.demand line, session.link, socket with
  | .dial name port, _, _ =>
    let hosts ← lookUp name
    match ← connectFirst (hosts.map fun host => ⟨host, port⟩) with
    | some (address, socket) => return ({ hosts, reached := some address }, some socket)
    | none => return ({ hosts }, none)
  | .exchange bytes, some link, some socket =>
    try
      (socket.send (packed bytes)).block
      let answer ← awaitReply session socket link.incoming .ended
      return ({ answer := .ok answer }, some socket)
    catch _ => return ({ answer := .error ⟨.brokenPipe, "sending failed"⟩ }, some socket)
  | _, _, _ => return ({}, socket)

/-- Writes what a shell has printed, and empties its output. -/
def emit (output : IO.FS.Stream) (shell : Shell Recording) : IO (Shell Recording) := do
  output.write (packed shell.out.written)
  output.flush
  return { shell with out := {} }

/-- One line with its line end, octet by octet. -/
partial def readLine (input : IO.FS.Stream) (line : Array UInt8) : IO (Array UInt8) := do
  let octet ← input.read 1
  match octet.toList with
  | [] => return line
  | octet :: _ =>
    if octet = Bytes.lineFeed then return line.push octet
    else readLine input (line.push octet)

/-- Feeds a shell with lines until one of them ends the session or the input does. -/
partial def feed (frontend : Frontend) (input : IO.FS.Stream) (output : IO.FS.Stream)
    (shell : Shell Recording) (socket : Option TCP.Socket.Client) : IO Unit := do
  let shell ← emit output (frontend.beforeLine shell).2
  let line ← readLine input #[]
  if line.isEmpty then
    discard <| emit output (frontend.atEnd shell).2
  else
    let line := line.toList
    let (network, socket) ← meetDemand shell.session socket line
    let session := { shell.session with network }
    let (flow, shell) := frontend.onLine { shell with session } line
    let shell ← emit output shell
    let socket := if shell.session.isConnected then socket else none
    match flow with
    | .ok .goOn => feed frontend input output shell socket
    | _ => discard <| emit output shell.finish.2

def clientMain (arguments : List String) : IO UInt32 := do
  match CommandLine.Client.parse arguments with
  | .error .version =>
    IO.print (CommandLine.versionLine CommandLine.Client.program)
    return 0
  | .error .help =>
    IO.print Instruction.helpText
    return 0
  | .error .misused =>
    IO.eprintln (CommandLine.Client.program ++ " [OPTIONS] interactive | batch <FILE>")
    return 2
  | .ok invocation =>
    let input ← match invocation.file with
      | none => some <$> IO.getStdin
      | some name =>
        try some <$> IO.FS.Stream.ofHandle <$> IO.FS.Handle.mk name .read
        catch _ => pure none
    match input with
    | none =>
      IO.eprintln "the batch cannot be opened"
      return 1
    | some input =>
      try feed invocation.frontend input (← IO.getStdout) (invocation.shell {}) none
      catch reason => IO.eprintln (toString reason)
      return 0

end WireStore.Program

/-- The first argument says which program is meant. -/
def main (arguments : List String) : IO UInt32 :=
  match arguments with
  | "server" :: rest => WireStore.Program.serverMain rest
  | "client" :: rest => WireStore.Program.clientMain rest
  | _ => do
    IO.eprintln "server ARGUMENTS | client ARGUMENTS"
    return 2
