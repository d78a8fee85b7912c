import WireStore.CommandLine.Reading
import WireStore.CommandLine.Version
import WireStore.Server.Config

/-!
# The server's command line

A server is started with the number of a host and a port; options set its
limits and timeouts.
-/

namespace WireStore.CommandLine.Server

/-- What the operands of a server amount to so far. -/
inductive Operands where
  | none
  | host (host : Host)
  | address (address : Address)
  deriving DecidableEq, Repr

/-- A port: a number with an optional sign, from 0 to 65535. -/
def port? (text : String) : Option UInt16 :=
  (Numeral.integer? (Utf8.encode text)).bind fun number =>
    if 0 ≤ number ∧ number < UInt16.size then some (UInt16.ofNat number.toNat) else none

/-- Takes an operand: the host, then the port. -/
def operand (reading : Reading Operands) (text : String) : Except Refusal (Reading Operands) :=
  match reading.operands with
  | .none =>
    match Host.parse? text with
    | some host => .ok { reading with operands := .host host }
    | Option.none => .error .misused
  | .host host =>
    match port? text with
    | some port => .ok { reading with operands := .address ⟨host, port⟩ }
    | Option.none => .error .misused
  | .address _ => .error .misused

/-- What a server expects on its command line. -/
def grammar : Grammar Operands where
  options := ["max-value-size", "max-header-len", "read-timeout-ms", "write-timeout-ms"]
  tellsVersion _ := true
  operand := operand

/-- The settings that a server's arguments stand for. -/
def parse (arguments : List String) : Except Refusal Config :=
  (Reading.ofArguments grammar .none arguments).bind fun reading =>
    match reading.operands with
    | .address address =>
      .ok {
        listenAddress := address
        readTimeout := (reading.number? "read-timeout-ms").getD 0
        writeTimeout := (reading.number? "write-timeout-ms").getD 0
        limits := {
          maxValueSize := (reading.number? "max-value-size").getD 1048576
          maxHeaderLength := (reading.number? "max-header-len").getD 4096 } }
    | _ => .error .misused

/-- The name of the program. -/
def program : String := "linekv-server"

end WireStore.CommandLine.Server
