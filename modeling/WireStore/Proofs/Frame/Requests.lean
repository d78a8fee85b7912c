import WireStore.Proofs.Frame.Headers
import WireStore.Proofs.Frame.Opening

/-!
# Requests read back

A request that is written is what the bytes begin with, whatever comes behind
it: its header stands on one line and says its verb, its key and the length of
its value, and its payload is as long as the header says (`of_encode`). Only two
kinds of requests are refused, and they too leave the bytes where the next frame
begins.
-/

namespace WireStore

variable {limits : Limits} {request : Request} {octet : UInt8}

open Ascii

namespace Request

/-- The length that a header announces, zero where no value is carried. -/
def size (request : Request) : Nat := (request.value?.getD []).length

/-- What stands behind the key in a header. -/
def sizeField (request : Request) : Bytes :=
  match request.value? with
  | some value => 32 :: Numeral.digits value.length
  | none => []

theorem header_eq (request : Request) :
    request.header =
      Utf8.encode request.method.word ++ 32 :: (request.key.text ++ request.sizeField) := by
  unfold header sizeField
  cases request.value? <;> simp

theorem printable_sizeField (request : Request) :
    ∀ octet ∈ request.sizeField, Printable octet := by
  intro octet mem
  unfold sizeField at mem
  split at mem
  next value carried =>
    rcases List.mem_cons.mp mem with rfl | mem
    · exact printable_space
    · exact (Numeral.graphic_digits _ octet mem).printable
  · exact absurd mem List.not_mem_nil

theorem printable_header (request : Request) : ∀ octet ∈ request.header, Printable octet := by
  intro octet mem
  rw [header_eq, List.mem_append, List.mem_cons, List.mem_append] at mem
  rcases mem with word | rfl | key | size
  · exact (request.method.graphic_word octet word).printable
  · exact printable_space
  · exact (Numeral.graphic_signed _ octet key).printable
  · exact request.printable_sizeField octet size

/-- Behind the key a blank follows, or nothing. -/
theorem head?_sizeField (request : Request) :
    ∀ octet ∈ request.sizeField.head?, isBlank octet = true := by
  intro octet first
  unfold sizeField at first
  split at first
  next =>
    obtain rfl : (32 : UInt8) = octet := by simpa using first
    rfl
  · exact absurd first (by simp)

theorem size?_of_carriesValue {method : Method} {size : Nat}
    (carries : method.carriesValue = true) (sized : size < Numeral.sizeBound) :
    Header.size? method (32 :: Numeral.digits size) = some (size, []) := by
  have counted : Token.next (32 :: Numeral.digits size) = (Numeral.digits size, []) := by
    rw [Token.next_cons_of_blank (by decide)]
    exact Token.next_of_graphic_alone (Numeral.graphic_digits size) (Numeral.digits_ne_nil size)
  rw [Header.size?_of_carriesValue carries, counted, Numeral.size?_digits sized]
  rfl

theorem size?_sizeField (request : Request) (sized : request.size < Numeral.sizeBound) :
    Header.size? request.method request.sizeField = some (request.size, []) := by
  cases request with
  | create key value => exact size?_of_carriesValue rfl sized
  | update key value => exact size?_of_carriesValue rfl sized
  | read key => rfl
  | delete key => rfl

/-- The header of a request says what the request is. -/
theorem parse_header (request : Request) (sized : request.size < Numeral.sizeBound) :
    Header.parse request.header = .ok ⟨request.method, request.key, request.size⟩ := by
  have verb : Token.next request.header =
      (Utf8.encode request.method.word, 32 :: (request.key.text ++ request.sizeField)) := by
    rw [header_eq]
    exact Token.next_of_graphic_blank request.method.graphic_word request.method.word_ne_nil
      (by decide)
  have key : Token.next (32 :: (request.key.text ++ request.sizeField)) =
      (request.key.text, request.sizeField) := by
    rw [Token.next_cons_of_blank rfl]
    exact Token.next_of_graphic (Numeral.graphic_signed _) (Numeral.signed_ne_nil _)
      request.head?_sizeField
  rw [Header.parse_eq_ok_iff, verb, Header.arguments?_eq_some_iff, key]
  exact ⟨request.method.parse?_word, rfl, Key.parse?_text _, [], size?_sizeField request sized, rfl⟩

/-- Thirty-eight octets hold the header of every request whose value is shorter than `2 ^ 63`. -/
theorem length_header_le (request : Request) (sized : request.size < 2 ^ 63) :
    request.header.length ≤ 38 := by
  have word := request.method.length_word_le
  have key := Key.length_text_le request.key
  have field : request.sizeField.length ≤ 20 := by
    unfold sizeField
    split
    next value carried =>
      simp only [size, carried, Option.getD_some] at sized
      have digits := Numeral.length_digits_le value.length 18 (by omega)
      simp only [List.length_cons]
      omega
    · exact Nat.zero_le _
  rw [header_eq]
  simp only [List.length_append, List.length_cons]
  omega

/-- What a reader with these limits makes of a request. -/
def judged (limits : Limits) (request : Request) : Except Error Request :=
  match request with
  | .update _ [] => .error .emptyUpdate
  | _ => if limits.maxValueSize < request.size then .error .malformed else .ok request

theorem granted_judged {alloc : Allocator} (memory : alloc request.size = true) :
    Opening.Granted alloc (request.judged limits) := by
  intro found value same carried
  have itself : found = request := by
    unfold judged at same
    split at same
    · cases same
    · split at same <;> cases same
      rfl
  subst itself
  rwa [size, carried] at memory

theorem ofPayload_of_value (maxSize : Nat) (complete : Bytes → Request) (value tail : Bytes) :
    Opening.ofPayload maxSize value.length complete (value ++ tail) =
      .frame (if maxSize < value.length then .error .malformed else .ok (complete value)) tail := by
  have enough : ¬(value ++ tail).length < value.length := by
    rw [List.length_append]
    omega
  unfold Opening.ofPayload
  rw [if_neg enough, List.take_left, List.drop_left]
  split <;> rfl

/-- The header of a request that is written is the first line. -/
theorem of_encode_line (request : Request) (tail : Bytes) :
    Opening.of limits (request.encode ++ tail) =
      Opening.ofLine limits request.header (request.value?.getD [] ++ tail) := by
  have unbroken : Bytes.Unbroken request.header :=
    Bytes.unbroken_of_printable request.printable_header
  have kept : Bytes.stripLast Bytes.carriageReturn request.header = request.header :=
    Bytes.stripLast_of_printable request.printable_header
  unfold Opening.of encode
  rw [List.append_assoc, List.cons_append, Bytes.cutLine?_append unbroken]
  simp only [kept]

/-- A request that is written is found, and what follows it is left. -/
theorem of_encode (request : Request) (sized : request.size < Numeral.sizeBound)
    (fits : request.header.length ≤ limits.maxHeaderLength) (tail : Bytes) :
    Opening.of limits (request.encode ++ tail) = .frame (request.judged limits) tail := by
  rw [of_encode_line]
  simp only [Opening.ofLine, Nat.not_lt_of_le fits, if_false, request.parse_header sized]
  cases request with
  | create key value => exact ofPayload_of_value ..
  | update key value =>
    cases value with
    | nil => rfl
    | cons octet octets =>
      exact ofPayload_of_value limits.maxValueSize (.update key) (octet :: octets) tail
  | read key => rfl
  | delete key => rfl

end Request

end WireStore
