import WireStore.Bytes

/-!
# ASCII classes and case

Blanks separate tokens in request headers and in user lines. Case is ignored
for the twenty-six ASCII letters only; every other octet stands for itself.
-/

namespace WireStore.Ascii

/-- Space, tab, line feed, form feed and carriage return. -/
def isBlank (octet : UInt8) : Bool :=
  octet == 32 || octet == 9 || octet == 10 || octet == 12 || octet == 13

/-- The digits `0` to `9`. -/
def isDigit (octet : UInt8) : Bool :=
  48 ≤ octet && octet ≤ 57

/-- An upper-case letter becomes the lower-case one. -/
def lower (octet : UInt8) : UInt8 :=
  if 65 ≤ octet ∧ octet ≤ 90 then octet + 32 else octet

/-- Equality up to the case of ASCII letters. -/
def sameIgnoringCase (left right : Bytes) : Bool :=
  left.map lower == right.map lower

theorem sameIgnoringCase_iff {left right : Bytes} :
    sameIgnoringCase left right = true ↔ left.map lower = right.map lower := by
  simp [sameIgnoringCase]

end WireStore.Ascii
