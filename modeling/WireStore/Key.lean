import WireStore.Text.Numeral

/-!
# Keys

A key is a signed number of thirty-two bits. It is written in decimal with a
minus sign if negative, and read with either sign and any number of leading
zeros; numerals out of range are no keys.
-/

namespace WireStore

/-- What values are bound to. -/
abbrev Key := Int32

namespace Key

/-- The numeral of a key. -/
def text (key : Key) : Bytes :=
  Numeral.signed key.toInt

/-- The key that a token denotes. -/
def parse? (token : Bytes) : Option Key :=
  (Numeral.integer? token).bind fun number =>
    if Int32.minValue.toInt ≤ number ∧ number ≤ Int32.maxValue.toInt then
      some (Int32.ofInt number)
    else none

end Key

end WireStore
