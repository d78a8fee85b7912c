import WireStore.Text.Ascii

/-!
# Tokens between blanks

A token is a run of octets that are not blank. `next` cuts the first one off
and leaves everything after it untouched, the separator included, so a caller
decides how many blanks belong to the separator and how many to a value.
-/

namespace WireStore.Token

/-- Drops the blanks at the front. -/
def skipBlank (bytes : Bytes) : Bytes :=
  bytes.dropWhile Ascii.isBlank

/-- Holds of an octet that may stand in a token. -/
def isInk (octet : UInt8) : Bool :=
  !Ascii.isBlank octet

/-- The first token and what follows it; the token is empty if only blanks are left. -/
def next (bytes : Bytes) : Bytes × Bytes :=
  let text := skipBlank bytes
  (text.takeWhile isInk, text.dropWhile isInk)

/-- Holds of bytes without any token. -/
def allBlank (bytes : Bytes) : Bool :=
  bytes.all Ascii.isBlank

/-- A token and its rest are what stands after the leading blanks. -/
theorem next_append (bytes : Bytes) : (next bytes).1 ++ (next bytes).2 = skipBlank bytes :=
  List.takeWhile_append_dropWhile

theorem skipBlank_eq_nil_iff (bytes : Bytes) :
    skipBlank bytes = [] ↔ allBlank bytes = true := by
  induction bytes with
  | nil => simp [skipBlank, allBlank]
  | cons octet rest ih =>
    cases blank : Ascii.isBlank octet with
    | true =>
      have dropped : skipBlank (octet :: rest) = skipBlank rest := by
        simp [skipBlank, blank]
      rw [dropped, ih]
      simp [allBlank, blank]
    | false => simp [skipBlank, allBlank, blank]

end WireStore.Token
