import Mathlib.Data.List.Induction
import WireStore.Proofs.Text.Written

/-!
# What numerals denote

A numeral is a run of digits that is not empty, and denotes its decimal value, whatever zeros lead
it (`Denotes`); a sign may precede it where an integer is due (`DenotesInteger`). What is read from
a token is what it denotes, and where nothing is read it denotes nothing.
-/

namespace WireStore

variable {octet : UInt8} {token front : Bytes} {number size : Nat} {integer : Int}

namespace Numeral

/-- Holds of a run of digits and its decimal value. -/
inductive Denotes : Bytes → Nat → Prop
  | single {octet : UInt8} (digit : Ascii.isDigit octet = true) :
    Denotes [octet] (octet.toNat - 48)
  | more {front : Bytes} {octet : UInt8} {number : Nat} (denotes : Denotes front number)
    (digit : Ascii.isDigit octet = true) :
    Denotes (front ++ [octet]) (10 * number + (octet.toNat - 48))

/-- Holds of a numeral that may have a sign, and its value. -/
inductive DenotesInteger : Bytes → Int → Prop
  | plain {token : Bytes} {size : Nat} (denotes : Denotes token size) : DenotesInteger token size
  | plus {token : Bytes} {size : Nat} (denotes : Denotes token size) :
    DenotesInteger (43 :: token) size
  | minus {token : Bytes} {size : Nat} (denotes : Denotes token size) :
    DenotesInteger (45 :: token) (-size)

theorem natural?_concat (filled : front ≠ []) (digit : Ascii.isDigit octet = true) :
    natural? (front ++ [octet]) = (natural? front).map (push · octet) := by
  unfold natural?
  by_cases digits : front.all Ascii.isDigit = true
  · simp [filled, digits, digit]
  · simp [digits]

theorem Denotes.ne_nil (denotes : Denotes token number) : token ≠ [] := by
  cases denotes <;> simp

theorem Denotes.isDigit_of_mem (denotes : Denotes token number) (mem : octet ∈ token) :
    Ascii.isDigit octet = true := by
  induction denotes with
  | single digit => rwa [List.mem_singleton.mp mem]
  | more _ digit ih =>
    rcases List.mem_append.mp mem with before | last
    · exact ih before
    · rwa [List.mem_singleton.mp last]

theorem Denotes.graphic (denotes : Denotes token number) :
    ∀ octet ∈ token, Ascii.Graphic octet :=
  fun _ mem => Ascii.graphic_of_isDigit (denotes.isDigit_of_mem mem)

theorem denotes_of_digits (filled : token ≠ []) (digits : token.all Ascii.isDigit = true) :
    Denotes token (token.foldl push 0) := by
  induction token using List.reverseRecOn with
  | nil => exact absurd rfl filled
  | append_singleton front octet ih =>
    rw [List.all_append, Bool.and_eq_true] at digits
    have last : Ascii.isDigit octet = true := by simpa using digits.2
    rw [List.foldl_append, List.foldl_cons, List.foldl_nil]
    by_cases alone : front = []
    · subst alone
      simpa [push] using Denotes.single last
    · exact .more (ih alone digits.1) last

/-- A token is read as a natural number if it denotes it, and only then. -/
theorem natural?_eq_some_iff : natural? token = some number ↔ Denotes token number := by
  constructor
  · intro read
    obtain ⟨⟨filled, digits⟩, equal⟩ := Option.ite_none_right_eq_some.mp read
    rw [← Option.some.inj equal]
    exact denotes_of_digits filled digits
  · intro denotes
    induction denotes with
    | single digit => simp [natural?, digit, push]
    | more denotes digit ih =>
      rw [natural?_concat denotes.ne_nil digit, ih]
      rfl

theorem size?_eq_some_iff : size? token = some size ↔ Denotes token size ∧ size < sizeBound := by
  rw [size?, Option.filter_eq_some_iff, natural?_eq_some_iff, decide_eq_true_eq]

theorem integer?_eq_some_iff : integer? token = some integer ↔ DenotesInteger token integer := by
  constructor
  · intro read
    unfold integer? at read
    split at read
    all_goals
      obtain ⟨size, natural, rfl⟩ := Option.map_eq_some_iff.mp read
      have denotes := natural?_eq_some_iff.mp natural
    · exact .plus denotes
    · exact .minus denotes
    · exact .plain denotes
  · intro denotes
    cases denotes with
    | plain denotes => exact integer?_of_natural? (natural?_eq_some_iff.mpr denotes)
    | plus denotes | minus denotes => simp [integer?, natural?_eq_some_iff.mpr denotes]

/-- What is written for a number denotes it. -/
theorem denotes_digits (number : Nat) : Denotes (digits number) number :=
  natural?_eq_some_iff.mp (natural?_digits number)

end Numeral

namespace Key

/-- A token is read as a key if it denotes the key's value, and only then. -/
theorem parse?_eq_some_iff {key : Key} :
    parse? token = some key ↔ Numeral.DenotesInteger token key.toInt := by
  rw [← Numeral.integer?_eq_some_iff]
  constructor
  · intro read
    obtain ⟨number, here, ranged⟩ := Option.bind_eq_some_iff.mp read
    obtain ⟨⟨low, high⟩, equal⟩ := Option.ite_none_right_eq_some.mp ranged
    rw [Int32.toInt_minValue] at low
    rw [Int32.toInt_maxValue] at high
    rw [here, ← Option.some.inj equal, Int32.toInt_ofInt_of_le low (by omega)]
  · exact parse?_of_integer?

/-- What is written for a key denotes its value. -/
theorem denotesInteger_text (key : Key) : Numeral.DenotesInteger key.text key.toInt :=
  parse?_eq_some_iff.mp (parse?_text key)

end Key

end WireStore
