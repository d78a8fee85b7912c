import WireStore.Text.Ascii

/-!
# Decimal numerals

Numbers are written without leading zeros and read with any number of them.
`natural?` takes digits only; `unsigned?` also takes a plus sign and `integer?`
either sign. Bounds are the caller's: a numeral is read at full precision and
then compared, so no width of machine word enters here.
-/

namespace WireStore.Numeral

/-- The octet of the last decimal digit of a number. -/
def lastDigit (number : Nat) : UInt8 :=
  UInt8.ofNat (48 + number % 10)

/-- The decimal digits of a number, most significant first. -/
def digits (number : Nat) : Bytes :=
  if number < 10 then [lastDigit number]
  else digits (number / 10) ++ [lastDigit number]

/-- One more digit at the end of a number. -/
def push (number : Nat) (octet : UInt8) : Nat :=
  10 * number + (octet.toNat - 48)

/-- The number that a non-empty run of digits denotes. -/
def natural? (token : Bytes) : Option Nat :=
  if token ≠ [] ∧ token.all Ascii.isDigit then some (token.foldl push 0) else none

/-- A natural number, with a plus sign allowed before it. -/
def unsigned? : Bytes → Option Nat
  | 43 :: rest => natural? rest
  | token => natural? token

/-- A number with a sign allowed before it. -/
def integer? : Bytes → Option Int
  | 43 :: rest => (natural? rest).map Int.ofNat
  | 45 :: rest => (natural? rest).map fun size => -Int.ofNat size
  | token => (natural? token).map Int.ofNat

/-- The numeral of an integer, with a minus sign before a negative one. -/
def signed : Int → Bytes
  | .ofNat size => digits size
  | .negSucc size => 45 :: digits (size + 1)

/-- Sizes on the wire fit in sixty-four bits. -/
def sizeBound : Nat := UInt64.size

/-- A size: digits only, below `sizeBound`. -/
def size? (token : Bytes) : Option Nat :=
  (natural? token).filter (· < sizeBound)

theorem isDigit_lastDigit (number : Nat) : Ascii.isDigit (lastDigit number) = true := by
  have decimal : ∀ digit < 10, Ascii.isDigit (UInt8.ofNat (48 + digit)) = true := by decide
  exact decimal _ (Nat.mod_lt _ (by decide))

theorem push_lastDigit (number : Nat) : push (number / 10) (lastDigit number) = number := by
  have value : (lastDigit number).toNat = 48 + number % 10 := by
    simp only [lastDigit, UInt8.toNat_ofNat']
    omega
  simp only [push, value]
  omega

theorem digits_ne_nil (number : Nat) : digits number ≠ [] := by
  unfold digits
  split <;> simp

theorem all_isDigit_digits (number : Nat) : (digits number).all Ascii.isDigit = true := by
  induction number using digits.induct with
  | case1 number small => simp [digits, small, isDigit_lastDigit]
  | case2 number large ih =>
    rw [digits, if_neg large, List.all_append, ih]
    simp [isDigit_lastDigit]

theorem foldl_push_digits (number : Nat) : (digits number).foldl push 0 = number := by
  induction number using digits.induct with
  | case1 number small =>
    have value := push_lastDigit number
    rw [Nat.div_eq_of_lt small] at value
    simp [digits, small, value]
  | case2 number large ih =>
    rw [digits]
    simp [large, ih, push_lastDigit]

/-- A written number reads back. -/
theorem natural?_digits (number : Nat) : natural? (digits number) = some number := by
  simp only [natural?, digits_ne_nil, all_isDigit_digits, foldl_push_digits, ne_eq,
    not_false_eq_true, and_self, if_true]

end WireStore.Numeral
