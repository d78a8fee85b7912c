import WireStore.Text.Utf8

/-!
# Text read back

Whatever text is encoded decodes to itself: `foldl_feed_char` takes a decoder that stands between
characters through the octets of any one character, and `decode_encode` follows by induction on
the text. The octets below 128 of an encoded text are its ASCII characters and nothing else, so a
line end in the bytes is a line end in the text.
-/

namespace WireStore.Utf8

variable {read : List (Option Char)} {octet : UInt8} {rest : Unfinished} {value : Nat}
  {char : Char}

/-! ## One octet -/

theorem toNat_ofNat_of_lt (small : value < 256) : (UInt8.ofNat value).toNat = value := by
  rw [UInt8.toNat_ofNat']
  exact Nat.mod_eq_of_lt small

theorem feed_of_ascii (read : List (Option Char)) (ascii : octet.toNat < 0x80) :
    Decoder.feed ⟨read, none⟩ octet = ⟨some (Char.ofNat octet.toNat) :: read, none⟩ := by
  have whole : octet < 0x80 := UInt8.lt_iff_toNat_lt.mpr ascii
  simp only [Decoder.feed, Decoder.begin, lead, whole, if_true]

theorem lead_of_two (low : 0xC2 ≤ value) (high : value < 0xE0) :
    lead (UInt8.ofNat value) = .opens ⟨value - 0xC0, 1, 0x80, 0xBF⟩ := by
  have same := toNat_ofNat_of_lt (show value < 256 by omega)
  simp only [lead, UInt8.lt_iff_toNat_lt, same, UInt8.reduceToNat]
  rw [if_neg (by omega), if_neg (by omega), if_pos high]

theorem lead_of_three (low : 0xE0 ≤ value) (high : value < 0xF0) :
    lead (UInt8.ofNat value) = .opens ⟨value - 0xE0, 2, if value = 0xE0 then 0xA0 else 0x80,
      if value = 0xED then 0x9F else 0xBF⟩ := by
  have same := toNat_ofNat_of_lt (show value < 256 by omega)
  simp only [lead, UInt8.lt_iff_toNat_lt, ← UInt8.toNat_inj, same, UInt8.reduceToNat]
  rw [if_neg (by omega), if_neg (by omega), if_neg (by omega), if_pos high]

theorem lead_of_four (low : 0xF0 ≤ value) (high : value < 0xF5) :
    lead (UInt8.ofNat value) = .opens ⟨value - 0xF0, 3, if value = 0xF0 then 0x90 else 0x80,
      if value = 0xF4 then 0x8F else 0xBF⟩ := by
  have same := toNat_ofNat_of_lt (show value < 256 by omega)
  simp only [lead, UInt8.lt_iff_toNat_lt, ← UInt8.toNat_inj, same, UInt8.reduceToNat]
  rw [if_neg (by omega), if_neg (by omega), if_neg (by omega), if_neg (by omega), if_pos high]

theorem feed_of_opens (opens : lead octet = .opens rest) :
    Decoder.feed ⟨read, none⟩ octet = ⟨read, some rest⟩ := by
  simp only [Decoder.feed, Decoder.begin, opens]

theorem feed_of_due (small : value < 64) (low : rest.low.toNat ≤ value + 128)
    (high : value + 128 ≤ rest.high.toNat) :
    Decoder.feed ⟨read, some rest⟩ (UInt8.ofNat (value + 128)) =
      if rest.due ≤ 1 then ⟨some (Char.ofNat (rest.bits * 64 + value)) :: read, none⟩
      else ⟨read, some ⟨rest.bits * 64 + value, rest.due - 1, 0x80, 0xBF⟩⟩ := by
  have same := toNat_ofNat_of_lt (show value + 128 < 256 by omega)
  have allowed : rest.low ≤ UInt8.ofNat (value + 128) ∧ UInt8.ofNat (value + 128) ≤ rest.high := by
    simp only [UInt8.le_iff_toNat_le, same]
    exact ⟨low, high⟩
  simp only [Decoder.feed, allowed, and_self, if_true, same, Nat.add_sub_cancel]

/-! ## One character -/

theorem foldl_feed_two (read : List (Option Char)) (low : 0x80 ≤ value) (high : value < 0x800) :
    [UInt8.ofNat (value / 64 % 32 + 192), UInt8.ofNat (value % 64 + 128)].foldl Decoder.feed
      ⟨read, none⟩ = ⟨some (Char.ofNat value) :: read, none⟩ := by
  have opens := @lead_of_two (value / 64 % 32 + 192) (by omega) (by omega)
  have bits : (value / 64 % 32 + 192 - 0xC0) * 64 + value % 64 = value := by omega
  have last : value % 64 < 64 := Nat.mod_lt _ (by decide)
  simp only [List.foldl_cons, List.foldl_nil, feed_of_opens opens]
  rw [feed_of_due last (Nat.le_add_left ..) (by simp only [UInt8.reduceToNat]; omega)]
  simp only [Nat.le_refl, if_true, bits]

theorem foldl_feed_three (read : List (Option Char)) (low : 0x800 ≤ value) (high : value < 0x10000)
    (scalar : value < 0xD800 ∨ 0xDFFF < value) :
    [UInt8.ofNat (value / 4096 % 16 + 224), UInt8.ofNat (value / 64 % 64 + 128),
      UInt8.ofNat (value % 64 + 128)].foldl Decoder.feed ⟨read, none⟩ =
        ⟨some (Char.ofNat value) :: read, none⟩ := by
  have opens := @lead_of_three (value / 4096 % 16 + 224) (by omega) (by omega)
  have bits : ((value / 4096 % 16 + 224 - 0xE0) * 64 + value / 64 % 64) * 64 + value % 64 =
      value := by omega
  have middle : value / 64 % 64 < 64 := Nat.mod_lt _ (by decide)
  have last : value % 64 < 64 := Nat.mod_lt _ (by decide)
  simp only [List.foldl_cons, List.foldl_nil, feed_of_opens opens]
  -- the restricted second octets are those of overlong forms and of surrogates
  rw [feed_of_due middle (by dsimp only; split <;> simp only [UInt8.reduceToNat] <;> omega)
    (by dsimp only; split <;> simp only [UInt8.reduceToNat] <;> omega)]
  simp only [Nat.reduceLeDiff, if_false, Nat.reduceSub]
  rw [feed_of_due last (Nat.le_add_left ..) (by simp only [UInt8.reduceToNat]; omega)]
  simp only [Nat.le_refl, if_true, bits]

theorem foldl_feed_four (read : List (Option Char)) (low : 0x10000 ≤ value)
    (high : value < 0x110000) :
    [UInt8.ofNat (value / 262144 % 8 + 240), UInt8.ofNat (value / 4096 % 64 + 128),
      UInt8.ofNat (value / 64 % 64 + 128), UInt8.ofNat (value % 64 + 128)].foldl Decoder.feed
        ⟨read, none⟩ = ⟨some (Char.ofNat value) :: read, none⟩ := by
  have opens := @lead_of_four (value / 262144 % 8 + 240) (by omega) (by omega)
  have bits : (((value / 262144 % 8 + 240 - 0xF0) * 64 + value / 4096 % 64) * 64 +
      value / 64 % 64) * 64 + value % 64 = value := by omega
  have second : value / 4096 % 64 < 64 := Nat.mod_lt _ (by decide)
  have third : value / 64 % 64 < 64 := Nat.mod_lt _ (by decide)
  have last : value % 64 < 64 := Nat.mod_lt _ (by decide)
  simp only [List.foldl_cons, List.foldl_nil, feed_of_opens opens]
  -- the restricted second octets are those of overlong forms and of what no character has
  rw [feed_of_due second (by dsimp only; split <;> simp only [UInt8.reduceToNat] <;> omega)
    (by dsimp only; split <;> simp only [UInt8.reduceToNat] <;> omega)]
  simp only [Nat.reduceLeDiff, if_false, Nat.reduceSub]
  rw [feed_of_due third (Nat.le_add_left ..) (by simp only [UInt8.reduceToNat]; omega)]
  simp only [Nat.reduceLeDiff, if_false, Nat.reduceSub]
  rw [feed_of_due last (Nat.le_add_left ..) (by simp only [UInt8.reduceToNat]; omega)]
  simp only [Nat.le_refl, if_true, bits]

/-- The octets of a character take a decoder from one character to the next. -/
theorem foldl_feed_char (char : Char) (read : List (Option Char)) :
    (String.utf8EncodeChar char).foldl Decoder.feed ⟨read, none⟩ = ⟨some char :: read, none⟩ := by
  have scalar : char.val.toNat < 0xD800 ∨ 0xDFFF < char.val.toNat ∧ char.val.toNat < 0x110000 :=
    char.valid
  have itself : Char.ofNat char.val.toNat = char := Char.ofNat_toNat char
  conv => rhs; rw [← itself]
  simp only [String.utf8EncodeChar]
  generalize char.val.toNat = value at scalar
  split
  next one =>
    have same := toNat_ofNat_of_lt (show value < 256 by omega)
    rw [List.foldl_cons, List.foldl_nil, feed_of_ascii read (by omega), same]
  next =>
    split
    next two => exact foldl_feed_two read (by omega) (by omega)
    next =>
      split
      next three => exact foldl_feed_three read (by omega) (by omega) (by omega)
      next four => exact foldl_feed_four read (by omega) (by omega)

/-! ## A text -/

/-- An encoded text has its own characters and no hole. -/
theorem decode_encode (text : String) : decode (encode text) = text.toList.map some := by
  have fed : ∀ (chars : List Char) (read : List (Option Char)),
      (chars.flatMap String.utf8EncodeChar).foldl Decoder.feed ⟨read, none⟩ =
        ⟨(chars.map some).reverse ++ read, none⟩ := by
    intro chars
    induction chars with
    | nil => intro read; rfl
    | cons char chars ih =>
      intro read
      rw [List.flatMap_cons, List.foldl_append, foldl_feed_char, ih]
      simp
  simp [decode, encode, fed, Decoder.finish]

/-- An encoded text reads back, whatever characters it has. -/
theorem lossy_encode (text : String) : lossy (encode text) = text := by
  have kept : (text.toList.map some).map (fun char => char.getD '\uFFFD') = text.toList := by
    simp [Function.comp_def]
  rw [lossy, decode_encode, kept, String.ofList_toList]

/-! ## Octets below 128 -/

/-- An octet below 128 is the whole of the character that it belongs to. -/
theorem eq_ofNat_of_ascii (mem : octet ∈ String.utf8EncodeChar char)
    (ascii : octet.toNat < 0x80) : char = Char.ofNat octet.toNat := by
  have marked : ∀ value, 0x80 ≤ value → value < 256 → octet ≠ UInt8.ofNat value := by
    rintro value low high rfl
    rw [toNat_ofNat_of_lt high] at ascii
    omega
  simp only [String.utf8EncodeChar] at mem
  split at mem
  next one =>
    obtain rfl := List.mem_singleton.mp mem
    rw [toNat_ofNat_of_lt (by omega)]
    exact (Char.ofNat_toNat char).symm
  next =>
    exfalso
    repeat' split at mem
    all_goals simp only [List.mem_cons, List.not_mem_nil, or_false] at mem
    · rcases mem with here | here <;> exact marked _ (by omega) (by omega) here
    · rcases mem with here | here | here <;> exact marked _ (by omega) (by omega) here
    · rcases mem with here | here | here | here <;> exact marked _ (by omega) (by omega) here

theorem mem_toList_of_ascii {text : String} (mem : octet ∈ encode text)
    (ascii : octet.toNat < 0x80) : Char.ofNat octet.toNat ∈ text.toList := by
  obtain ⟨char, here, within⟩ := List.mem_flatMap.mp mem
  rwa [← eq_ofNat_of_ascii within ascii]

theorem getLast?_toList_of_ascii {text : String} (last : (encode text).getLast? = some octet)
    (ascii : octet.toNat < 0x80) : text.toList.getLast? = some (Char.ofNat octet.toNat) := by
  unfold encode at last
  rcases text.toList.eq_nil_or_concat with none | ⟨chars, char, whole⟩
  · rw [none] at last
    simp at last
  · rw [List.concat_eq_append] at whole
    have filled : String.utf8EncodeChar char ≠ [] := String.utf8EncodeChar_ne_nil
    obtain ⟨final, ends⟩ := Option.ne_none_iff_exists'.mp (mt List.getLast?_eq_none_iff.mp filled)
    rw [whole, List.flatMap_append, List.flatMap_singleton, List.getLast?_append, ends,
      Option.some_or] at last
    obtain rfl := Option.some.inj last
    rw [whole, List.getLast?_concat, eq_ofNat_of_ascii (List.mem_of_getLast? ends) ascii]

end WireStore.Utf8
