import WireStore.Bytes

/-!
# UTF-8

A decoder reads one octet at a time. It yields a character for each well-formed
sequence and a hole for each maximal ill-formed one: the longest run of octets
that begins some well-formed sequence but is not one, or a single octet that
begins none. Text is valid if it has no hole; the lossy reading shows every
hole as the replacement character.
-/

namespace WireStore.Utf8

/-- A character whose first octets have been read. -/
structure Unfinished where
  /-- The bits read so far. -/
  bits : Nat
  /-- How many octets are still due. -/
  due : Nat
  /-- The least octet that may come next. -/
  low : UInt8
  /-- The greatest octet that may come next. -/
  high : UInt8

/-- What an octet means where a character may begin. -/
inductive Lead where
  | whole (char : Char)
  | opens (rest : Unfinished)
  | stray

/-- The second octet is restricted after four of the leads: this excludes
overlong forms, surrogates and everything beyond the last character. -/
def lead (octet : UInt8) : Lead :=
  if octet < 0x80 then .whole (Char.ofNat octet.toNat)
  else if octet < 0xC2 then .stray
  else if octet < 0xE0 then .opens ⟨octet.toNat - 0xC0, 1, 0x80, 0xBF⟩
  else if octet < 0xF0 then
    .opens ⟨octet.toNat - 0xE0, 2, if octet = 0xE0 then 0xA0 else 0x80,
      if octet = 0xED then 0x9F else 0xBF⟩
  else if octet < 0xF5 then
    .opens ⟨octet.toNat - 0xF0, 3, if octet = 0xF0 then 0x90 else 0x80,
      if octet = 0xF4 then 0x8F else 0xBF⟩
  else .stray

/-- What has been read: characters and holes, latest first, and the character under way. -/
structure Decoder where
  read : List (Option Char) := []
  underWay : Option Unfinished := none

namespace Decoder

/-- Takes an octet where a character may begin. -/
def begin (read : List (Option Char)) (octet : UInt8) : Decoder :=
  match lead octet with
  | .whole char => ⟨some char :: read, none⟩
  | .opens rest => ⟨read, some rest⟩
  | .stray => ⟨none :: read, none⟩

/-- An octet that cannot continue the character under way leaves a hole and is
looked at again as the beginning of the next one. -/
def feed (decoder : Decoder) (octet : UInt8) : Decoder :=
  match decoder.underWay with
  | none => begin decoder.read octet
  | some rest =>
    if rest.low ≤ octet ∧ octet ≤ rest.high then
      let bits := rest.bits * 64 + (octet.toNat - 0x80)
      if rest.due ≤ 1 then ⟨some (Char.ofNat bits) :: decoder.read, none⟩
      else ⟨decoder.read, some ⟨bits, rest.due - 1, 0x80, 0xBF⟩⟩
    else begin (none :: decoder.read) octet

/-- Everything read, in order; a character cut off by the end is a hole. -/
def finish (decoder : Decoder) : List (Option Char) :=
  match decoder.underWay with
  | none => decoder.read.reverse
  | some _ => (none :: decoder.read).reverse

end Decoder

/-- The characters and holes of a byte string. -/
def decode (bytes : Bytes) : List (Option Char) :=
  (bytes.foldl Decoder.feed {}).finish

/-- Holds of byte strings that are well-formed UTF-8. -/
def isValid (bytes : Bytes) : Bool :=
  (decode bytes).all Option.isSome

/-- The text of any byte string, holes shown as the replacement character. -/
def lossy (bytes : Bytes) : String :=
  String.ofList ((decode bytes).map fun char => char.getD '\uFFFD')

/-- The text of a valid byte string. -/
def text? (bytes : Bytes) : Option String :=
  if isValid bytes then some (lossy bytes) else none

/-- The bytes of a text. -/
def encode (text : String) : Bytes :=
  text.toList.flatMap String.utf8EncodeChar

theorem encode_append (front back : String) :
    encode (front ++ back) = encode front ++ encode back := by
  rw [encode, String.toList_append, List.flatMap_append]
  rfl

end WireStore.Utf8
