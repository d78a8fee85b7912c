import WireStore.Text.Numeral
import WireStore.Text.Utf8

/-!
# Addresses

Hosts are numbered by four octets, written in decimal with dots between them
and no superfluous zeros; an address is a host and a port on it.
-/

namespace WireStore

/-- A numbered host. -/
structure Host where
  first : UInt8
  second : UInt8
  third : UInt8
  fourth : UInt8
  deriving DecidableEq, Repr

/-- A port of a host. -/
structure Address where
  host : Host
  port : UInt16
  deriving DecidableEq, Repr

namespace Host

/-- The host a program finds itself under. -/
def loopback : Host := ⟨127, 0, 0, 1⟩

/-- Holds of the hosts every program can listen as: itself, and all of its numbers at once. -/
def isOwn (host : Host) : Bool :=
  host.first == 127 || host == ⟨0, 0, 0, 0⟩

/-- One to three digits, the first not zero unless alone, up to 255. -/
def octet? (numeral : Bytes) : Option UInt8 :=
  if 3 < numeral.length ∨ (1 < numeral.length ∧ numeral.head? = some 48) then none
  else
    (Numeral.natural? numeral).bind fun number =>
      if number < UInt8.size then some (UInt8.ofNat number) else none

/-- The host that a dotted text denotes. -/
def parse? (text : String) : Option Host :=
  match (Utf8.encode text).splitOn 46 with
  | [first, second, third, fourth] => do
    return ⟨← octet? first, ← octet? second, ← octet? third, ← octet? fourth⟩
  | _ => none

/-- The dotted text of a host. -/
def text (host : Host) : String :=
  let octet (value : UInt8) := Nat.repr value.toNat
  octet host.first ++ "." ++ octet host.second ++ "." ++ octet host.third ++ "." ++
    octet host.fourth

end Host

namespace Address

/-- The address that a dotted host, a colon and a port denote. -/
def parse? (text : String) : Option Address :=
  match text.splitOn ":" with
  | [host, port] => do
    let host ← Host.parse? host
    let port ← Numeral.natural? (Utf8.encode port)
    if port < UInt16.size then some ⟨host, UInt16.ofNat port⟩ else none
  | _ => none

/-- The text of an address. -/
def text (address : Address) : String :=
  address.host.text ++ ":" ++ Nat.repr address.port.toNat

end Address

end WireStore
