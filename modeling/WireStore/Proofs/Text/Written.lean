import Mathlib.Algebra.Group.Nat.Defs
import WireStore.Proofs.Text.Tokens

/-!
# Tokens as they are written

Verbs, keys and sizes are written in graphic octets: those of ASCII that are
seen. A graphic token is cut off whole by `Token.next`, text made of such tokens
with single spaces between them has no line end in it, and the numerals of
integers and of keys read back as the numbers they were written for.
-/

namespace WireStore

variable {octet : UInt8} {bytes token rest : Bytes}

namespace Ascii

/-- Holds of the octets of ASCII that leave a mark. -/
def Graphic (octet : UInt8) : Prop := 33 ≤ octet.toNat ∧ octet.toNat ≤ 126

/-- Holds of the graphic octets and the space. -/
def Printable (octet : UInt8) : Prop := 32 ≤ octet.toNat ∧ octet.toNat ≤ 126

instance : Decidable (Graphic octet) := inferInstanceAs (Decidable (_ ∧ _))
instance : Decidable (Printable octet) := inferInstanceAs (Decidable (_ ∧ _))

theorem Graphic.printable (graphic : Graphic octet) : Printable octet :=
  ⟨Nat.le_of_succ_le graphic.1, graphic.2⟩

theorem printable_space : Printable 32 := ⟨by decide, by decide⟩

theorem Graphic.isBlank_eq_false (graphic : Graphic octet) : isBlank octet = false := by
  have low := graphic.1
  simp only [isBlank, Bool.or_eq_false_iff, beq_eq_false_iff_ne]
  refine ⟨⟨⟨⟨?_, ?_⟩, ?_⟩, ?_⟩, ?_⟩ <;> rintro rfl <;> exact absurd low (by decide)

theorem only_of_graphic (graphic : ∀ octet ∈ bytes, Graphic octet) : Only bytes := by
  intro octet mem
  exact Nat.lt_of_le_of_lt (graphic octet mem).2 (by decide)

theorem graphic_of_isDigit (digit : isDigit octet = true) : Graphic octet := by
  obtain ⟨low, high⟩ := isDigit_iff.mp digit
  exact ⟨by omega, by omega⟩

end Ascii

namespace Bytes

open Ascii

theorem unbroken_of_printable (printable : ∀ octet ∈ bytes, Printable octet) :
    lineFeed ∉ bytes := by
  intro mem
  exact absurd (printable _ mem).1 (by decide)

/-- Printable text has no carriage return to lose. -/
theorem stripLast_of_printable (printable : ∀ octet ∈ bytes, Printable octet) :
    bytes.stripLast carriageReturn = bytes := by
  refine stripLast_of_getLast? fun last => ?_
  exact absurd (printable _ (List.mem_of_getLast? last)).1 (by decide)

end Bytes

namespace Token

open Ascii

theorem next_cons_of_blank (blank : isBlank octet = true) :
    next (octet :: rest) = next rest := by
  simp [next, skipBlank, blank]

/-- A graphic token is cut off where a blank follows it, or nothing. -/
theorem next_of_graphic (graphic : ∀ octet ∈ token, Graphic octet) (filled : token ≠ [])
    (stops : ∀ octet ∈ rest.head?, isBlank octet = true) :
    next (token ++ rest) = (token, rest) := by
  refine (next_eq_iff filled).mpr ⟨[], by simp, ?_, stops, rfl⟩
  intro octet mem
  simp [isInk, (graphic octet mem).isBlank_eq_false]

theorem next_of_graphic_alone (graphic : ∀ octet ∈ token, Graphic octet) (filled : token ≠ []) :
    next token = (token, []) := by
  have alone := @next_of_graphic token [] graphic filled (by simp)
  rwa [List.append_nil] at alone

theorem next_of_graphic_blank (graphic : ∀ octet ∈ token, Graphic octet) (filled : token ≠ [])
    (blank : isBlank octet = true) : next (token ++ octet :: rest) = (token, octet :: rest) := by
  refine next_of_graphic graphic filled fun first here => ?_
  obtain rfl : octet = first := by simpa using here
  exact blank

end Token

namespace Numeral

theorem graphic_digits (number : Nat) : ∀ octet ∈ digits number, Ascii.Graphic octet := by
  intro octet mem
  have digit := List.all_eq_true.mp (all_isDigit_digits number) octet mem
  exact Ascii.graphic_of_isDigit digit

/-- A number below a power of ten has at most as many digits as the power says. -/
theorem length_digits_le (number power : Nat) (small : number < 10 ^ (power + 1)) :
    (digits number).length ≤ power + 1 := by
  induction power generalizing number with
  | zero =>
    rw [digits, if_pos (by simpa using small)]
    exact Nat.le_refl 1
  | succ power ih =>
    rw [digits]
    split
    · simp
    · have shorter := ih (number / 10) (by
        rw [Nat.pow_succ] at small
        exact Nat.div_lt_of_lt_mul (by omega))
      simp only [List.length_append, List.length_singleton]
      omega

/-- A size that fits in sixty-four bits reads back. -/
theorem size?_digits {number : Nat} (small : number < sizeBound) :
    size? (digits number) = some number := by
  simp [size?, natural?_digits, Option.filter, small]

theorem graphic_signed (number : Int) : ∀ octet ∈ signed number, Ascii.Graphic octet := by
  cases number with
  | ofNat size => exact graphic_digits size
  | negSucc size =>
    intro octet mem
    rcases List.mem_cons.mp mem with rfl | mem
    · exact ⟨by decide, by decide⟩
    · exact graphic_digits _ octet mem

theorem signed_ne_nil (number : Int) : signed number ≠ [] := by
  cases number with
  | ofNat size => exact digits_ne_nil size
  | negSucc size => simp [signed]

/-- A sign is no digit. -/
theorem integer?_of_natural? {number : Nat} (read : natural? token = some number) :
    integer? token = some (Int.ofNat number) := by
  have digits : token ≠ [] ∧ token.all Ascii.isDigit = true :=
    (Option.ite_none_right_eq_some.mp read).1
  have first : ∀ octet ∈ token, octet ≠ 43 ∧ octet ≠ 45 := by
    intro octet mem
    have digit := List.all_eq_true.mp digits.2 octet mem
    constructor <;> rintro rfl <;> exact absurd digit (by decide)
  cases token with
  | nil => exact absurd rfl digits.1
  | cons octet rest =>
    obtain ⟨plus, minus⟩ := first octet List.mem_cons_self
    unfold integer?
    split
    next same => exact absurd (List.cons.inj same).1 plus
    next same => exact absurd (List.cons.inj same).1 minus
    next => simp [read]

/-- A written integer reads back. -/
theorem integer?_signed (number : Int) : integer? (signed number) = some number := by
  cases number with
  | ofNat size => exact integer?_of_natural? (natural?_digits size)
  | negSucc size =>
    simp only [signed, integer?, natural?_digits, Option.map_some]
    rfl

end Numeral

namespace Key

theorem parse?_of_integer? {key : Key} (read : Numeral.integer? token = some key.toInt) :
    parse? token = some key := by
  simp only [parse?, read, Option.bind_some]
  rw [if_pos ⟨key.minValue_le_toInt, key.toInt_le⟩, Int32.ofInt_toInt]

/-- A written key reads back. -/
theorem parse?_text (key : Key) : parse? key.text = some key :=
  parse?_of_integer? (Numeral.integer?_signed key.toInt)

/-- A key is written in at most eleven octets. -/
theorem length_text_le (key : Key) : key.text.length ≤ 11 := by
  have low := key.le_toInt
  have high := key.toInt_lt
  unfold text
  cases value : key.toInt with
  | ofNat size =>
    rw [value, Int.ofNat_eq_natCast] at low high
    have := Numeral.length_digits_le size 9 (by omega)
    simp only [Numeral.signed]
    omega
  | negSucc size =>
    rw [value, Int.negSucc_eq] at low high
    have := Numeral.length_digits_le (size + 1) 9 (by omega)
    simp only [Numeral.signed, List.length_cons]
    omega

end Key

end WireStore
