import WireStore.Text.Numeral

/-!
# Reservation of memory

Whether a buffer of some size can be reserved is not the program's to decide.
Everything that copies a value asks first, and reports a refusal as an error.
-/

namespace WireStore

/-- Says for each size whether a buffer of that many bytes can be reserved. -/
abbrev Allocator := Nat → Bool

namespace Allocator

/-- No buffer reaches half the range of sizes. -/
def unlimited : Allocator := fun size => decide (size < Numeral.sizeBound / 2 - 1)

/-- The bound is `2 ^ 63 - 1`. -/
theorem unlimited_iff {size : Nat} : unlimited size = true ↔ size < 9223372036854775807 := by
  have half : Numeral.sizeBound / 2 - 1 = 9223372036854775807 := by decide
  rw [unlimited, decide_eq_true_iff, half]

/-- Refuses every buffer of more than `limit` bytes. -/
def upTo (limit : Nat) : Allocator := fun size => unlimited size && decide (size ≤ limit)

end Allocator

end WireStore
