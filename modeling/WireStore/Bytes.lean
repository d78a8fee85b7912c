/-!
# Byte strings

Everything on the wire is a list of octets. A line ends in a line feed, before
which one carriage return is dropped; `stripLineEnd` is the only place that
knows this, for both ends of a connection and for the lines a user types.
-/

namespace WireStore

/-- A string of octets. -/
abbrev Bytes := List UInt8

namespace Bytes

/-- The octet that ends every line. -/
def lineFeed : UInt8 := 10

/-- The octet dropped before a line feed. -/
def carriageReturn : UInt8 := 13

/-- Removes `octet` from the end, once, if it stands there. -/
def stripLast (octet : UInt8) (bytes : Bytes) : Bytes :=
  if bytes.getLast? = some octet then bytes.dropLast else bytes

/-- The front of some bytes, as far as a bound that may be absent allows. -/
def within (bound : Option Nat) (bytes : Bytes) : Bytes :=
  match bound with
  | none => bytes
  | some bound => bytes.take bound

/-- Removes one trailing line feed and then one trailing carriage return. -/
def stripLineEnd (line : Bytes) : Bytes :=
  stripLast carriageReturn (stripLast lineFeed line)

theorem stripLast_append_self (octet : UInt8) (bytes : Bytes) :
    stripLast octet (bytes ++ [octet]) = bytes := by
  simp [stripLast]

theorem stripLast_of_getLast? {octet : UInt8} {bytes : Bytes}
    (differs : bytes.getLast? ≠ some octet) : stripLast octet bytes = bytes := by
  simp [stripLast, differs]

end Bytes

end WireStore
