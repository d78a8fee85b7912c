import WireStore.Proofs.Text.Utf8
import WireStore.Text.Numeral
import WireStore.Text.Token
import WireStore.Key

/-!
# Tokens cut off

A token is cut off where a blank follows it, or nothing, and what stands in front of it is blank
(`next_eq_iff`). So it does not matter to a token what stands behind the blank that ends it:
`next_append_iff` puts bytes behind a text, or takes them away, without moving its tokens.

Words, keys and sizes are told by tokens of ASCII only.
-/

namespace WireStore

variable {octet : UInt8} {bytes token front back tail rest : Bytes}

namespace Ascii

/-- Holds of octets that are characters of their own in UTF-8. -/
def Only (bytes : Bytes) : Prop := ∀ octet ∈ bytes, octet.toNat < 0x80

theorem Only.append (first : Only front) (second : Only back) : Only (front ++ back) := by
  intro octet mem
  rcases List.mem_append.mp mem with here | there
  · exact first octet here
  · exact second octet there

theorem Only.cons (first : octet.toNat < 0x80) (others : Only bytes) : Only (octet :: bytes) := by
  intro other mem
  rcases List.mem_cons.mp mem with rfl | later
  · exact first
  · exact others other later

theorem isBlank_iff : isBlank octet = true ↔
    octet = 32 ∨ octet = 9 ∨ octet = 10 ∨ octet = 12 ∨ octet = 13 := by
  simp [isBlank, or_assoc]

theorem only_of_blank (blank : ∀ octet ∈ bytes, isBlank octet = true) : Only bytes := by
  intro octet mem
  rcases isBlank_iff.mp (blank octet mem) with rfl | rfl | rfl | rfl | rfl <;> decide

theorem isDigit_iff : isDigit octet = true ↔ 48 ≤ octet.toNat ∧ octet.toNat ≤ 57 := by
  simp [isDigit, UInt8.le_iff_toNat_le]

theorem only_of_digits (digits : bytes.all isDigit = true) : Only bytes := by
  intro octet mem
  obtain ⟨-, high⟩ := isDigit_iff.mp (List.all_eq_true.mp digits octet mem)
  omega

/-- Octets that are no ASCII have no other case. -/
theorem toNat_lt_of_lower (ascii : (lower octet).toNat < 0x80) : octet.toNat < 0x80 := by
  unfold lower at ascii
  split at ascii
  next letter =>
    have high : octet.toNat ≤ 90 := UInt8.le_iff_toNat_le.mp letter.2
    omega
  next => exact ascii

theorem Only.of_sameIgnoringCase (ascii : Only front)
    (same : sameIgnoringCase front back = true) : Only back := by
  intro octet mem
  have lowered : lower octet ∈ front.map lower := by
    rw [sameIgnoringCase_iff.mp same]
    exact List.mem_map_of_mem mem
  obtain ⟨other, otherMem, equal⟩ := List.mem_map.mp lowered
  have small := ascii other otherMem
  apply toNat_lt_of_lower
  rw [← equal]
  unfold lower
  split
  next letter =>
    have high : other.toNat ≤ 90 := UInt8.le_iff_toNat_le.mp letter.2
    have step : (32 : UInt8).toNat = 32 := by decide
    rw [UInt8.toNat_add, step]
    omega
  next => exact small

end Ascii

namespace Token

open Ascii

/-- Holds of what can stand behind a token. -/
def Detached (rest : Bytes) : Prop := ∀ octet ∈ rest.head?, isBlank octet = true

theorem detached_nil : Detached [] := fun _ first => absurd first (by simp)

theorem detached_cons (blank : isBlank octet = true) (rest : Bytes) :
    Detached (octet :: rest) := by
  intro first here
  obtain rfl := Option.some.inj here
  exact blank

theorem detached_append (head : Detached front) (last : Detached tail) :
    Detached (front ++ tail) := by
  cases front with
  | nil => exact last
  | cons octet front => exact head

theorem Detached.of_append (both : Detached (front ++ tail)) : Detached front := by
  cases front with
  | nil => exact detached_nil
  | cons octet front => exact both

theorem blank_of_allBlank (blank : allBlank bytes = true) :
    ∀ octet ∈ bytes, isBlank octet = true :=
  List.all_eq_true.mp blank

theorem blank_takeWhile (bytes : Bytes) :
    ∀ octet ∈ bytes.takeWhile isBlank, isBlank octet = true :=
  List.all_eq_true.mp List.all_takeWhile

theorem detached_rest (bytes : Bytes) : Detached (next bytes).2 := by
  intro octet first
  have stops := List.head?_dropWhile_not isInk (skipBlank bytes)
  rw [next, Option.mem_def] at first
  rw [first] at stops
  simpa [isInk] using stops

theorem blanks_append_next (bytes : Bytes) :
    bytes.takeWhile isBlank ++ ((next bytes).1 ++ (next bytes).2) = bytes := by
  rw [next_append]
  exact List.takeWhile_append_dropWhile

/-- What is not looked at any more stood at the end. -/
theorem rest_suffix (bytes : Bytes) : (next bytes).2 <:+ bytes :=
  (List.dropWhile_suffix _).trans (List.dropWhile_suffix _)

/-- A token stands behind blanks and goes up to a blank, or to the end. -/
theorem next_eq_iff (filled : token ≠ []) :
    next bytes = (token, rest) ↔
      ∃ blanks, (∀ octet ∈ blanks, isBlank octet = true) ∧ (∀ octet ∈ token, isInk octet = true) ∧
        Detached rest ∧ bytes = blanks ++ (token ++ rest) := by
  constructor
  · intro cut
    obtain ⟨rfl, rfl⟩ := Prod.mk.inj cut
    refine ⟨bytes.takeWhile isBlank, blank_takeWhile bytes, ?_, detached_rest bytes, ?_⟩
    · exact List.all_eq_true.mp List.all_takeWhile
    · exact (blanks_append_next bytes).symm
  · rintro ⟨blanks, blank, ink, detached, rfl⟩
    have skipped : skipBlank (blanks ++ (token ++ rest)) = token ++ rest := by
      unfold skipBlank
      rw [List.dropWhile_append_of_pos blank]
      cases token with
      | nil => exact absurd rfl filled
      | cons octet token =>
        have inked := ink octet List.mem_cons_self
        have seen : isBlank octet = false := by simpa [isInk] using inked
        simp [seen]
    simp only [next, skipped]
    rw [List.takeWhile_append_of_pos ink, List.dropWhile_append_of_pos ink]
    cases rest with
    | nil => simp
    | cons octet rest => simp [isInk, detached octet rfl]

/-- Tokens stay where they are when something is put behind a text, if it begins with a blank. -/
theorem next_append_iff (filled : token ≠ []) (detached : Detached tail) :
    next (front ++ tail) = (token, back ++ tail) ↔ next front = (token, back) := by
  rw [next_eq_iff filled, next_eq_iff filled]
  constructor
  · rintro ⟨blanks, blank, ink, stops, whole⟩
    refine ⟨blanks, blank, ink, stops.of_append, ?_⟩
    rw [← List.append_assoc token, ← List.append_assoc blanks] at whole
    exact List.append_cancel_right whole
  · rintro ⟨blanks, blank, ink, stops, rfl⟩
    refine ⟨blanks, blank, ink, detached_append stops detached, ?_⟩
    simp only [List.append_assoc]

/-- The octets of a text are those of its first token and of what stands around it. -/
theorem only_of_next (first : Only (next bytes).1) (others : Only (next bytes).2) :
    Only bytes := by
  rw [← blanks_append_next bytes]
  exact (only_of_blank (blank_takeWhile bytes)).append (first.append others)

end Token

namespace Numeral

theorem only_of_natural? {number : Nat} (read : natural? token = some number) :
    Ascii.Only token ∧ token ≠ [] := by
  unfold natural? at read
  split at read
  next digits => exact ⟨Ascii.only_of_digits digits.2, digits.1⟩
  · exact nomatch read

theorem only_of_size? {size : Nat} (read : size? token = some size) :
    Ascii.Only token ∧ token ≠ [] := by
  obtain ⟨number, natural⟩ : ∃ number, natural? token = some number := by
    cases natural : natural? token with
    | some number => exact ⟨number, rfl⟩
    | none => simp [size?, natural] at read
  exact only_of_natural? natural

theorem only_of_integer? {number : Int} (read : integer? token = some number) :
    Ascii.Only token ∧ token ≠ [] := by
  unfold integer? at read
  split at read
  next digits =>
    obtain ⟨natural, here, -⟩ := Option.map_eq_some_iff.mp read
    exact ⟨(only_of_natural? here).1.cons (by decide), by simp⟩
  next digits =>
    obtain ⟨natural, here, -⟩ := Option.map_eq_some_iff.mp read
    exact ⟨(only_of_natural? here).1.cons (by decide), by simp⟩
  next =>
    obtain ⟨natural, here, -⟩ := Option.map_eq_some_iff.mp read
    exact only_of_natural? here

end Numeral

theorem Key.only_of_parse? {key : Key} (read : Key.parse? token = some key) :
    Ascii.Only token ∧ token ≠ [] := by
  obtain ⟨number, here, -⟩ := Option.bind_eq_some_iff.mp read
  exact Numeral.only_of_integer? here

namespace Utf8

/-- Each octet of ASCII is a character of its own. -/
theorem decode_of_ascii (ascii : Ascii.Only bytes) :
    decode bytes = bytes.map fun octet => some (Char.ofNat octet.toNat) := by
  have fed : ∀ read, bytes.foldl Decoder.feed ⟨read, none⟩ =
      ⟨(bytes.map fun octet => some (Char.ofNat octet.toNat)).reverse ++ read, none⟩ := by
    induction bytes with
    | nil => intro read; rfl
    | cons octet bytes ih =>
      intro read
      rw [List.foldl_cons, feed_of_ascii read (ascii octet List.mem_cons_self),
        ih fun octet mem => ascii octet (List.mem_cons_of_mem _ mem)]
      simp
  simp [decode, fed, Decoder.finish]

theorem isValid_of_ascii (ascii : Ascii.Only bytes) : isValid bytes = true := by
  rw [isValid, decode_of_ascii ascii]
  simp

end Utf8

end WireStore
