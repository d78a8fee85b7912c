import WireStore.Proofs.Text.Utf8

/-!
# Valid bytes are encoded texts

The decoder leaves a hole wherever bytes are not those of characters, and a hole stays. As long as
there is none, the bytes are those of the characters that have been read, and of the one under way
those octets that have come (`Whole`). So bytes are valid just if some text is encoded in them
(`isValid_iff`).
-/

namespace WireStore.Utf8

variable {bytes front octets : Bytes} {decoder : Decoder} {first second third fourth octet : UInt8}
  {rest : Unfinished} {value : Nat} {chars : List Char}

/-- The first octets of a character, and what a decoder makes of them. -/
inductive Opened : Bytes → Unfinished → Prop
  | lead {octet : UInt8} {rest : Unfinished} (opens : lead octet = .opens rest) :
    Opened [octet] rest
  | more {octets : Bytes} {octet : UInt8} {rest : Unfinished} (opened : Opened octets rest)
    (allowed : rest.low ≤ octet ∧ octet ≤ rest.high) (due : 1 < rest.due) :
    Opened (octets ++ [octet])
      ⟨rest.bits * 64 + (octet.toNat - 0x80), rest.due - 1, 0x80, 0xBF⟩

/-- Holds of a decoder that has read these bytes and left no hole. -/
inductive Whole : Bytes → Decoder → Prop
  | between (chars : List Char) :
    Whole (chars.flatMap String.utf8EncodeChar) ⟨(chars.map some).reverse, none⟩
  | amid (chars : List Char) {octets : Bytes} {rest : Unfinished} (opened : Opened octets rest) :
    Whole (chars.flatMap String.utf8EncodeChar ++ octets) ⟨(chars.map some).reverse, some rest⟩

/-! ## The octets of a character -/

theorem eq_of_lead_whole {char : Char} (whole : lead octet = .whole char) :
    octet.toNat < 0x80 ∧ char = Char.ofNat octet.toNat := by
  unfold lead at whole
  split at whole
  next ascii => exact ⟨UInt8.lt_iff_toNat_lt.mp ascii, (Lead.whole.inj whole).symm⟩
  next =>
    repeat' split at whole
    all_goals exact nomatch whole

/-- What opens a character of two, of three and of four octets. -/
theorem cases_of_lead_opens (opens : lead octet = .opens rest) :
    (0xC2 ≤ octet.toNat ∧ octet.toNat < 0xE0 ∧ rest = ⟨octet.toNat - 0xC0, 1, 0x80, 0xBF⟩) ∨
    (0xE0 ≤ octet.toNat ∧ octet.toNat < 0xF0 ∧
      rest = ⟨octet.toNat - 0xE0, 2, if octet = 0xE0 then 0xA0 else 0x80,
        if octet = 0xED then 0x9F else 0xBF⟩) ∨
    (0xF0 ≤ octet.toNat ∧ octet.toNat < 0xF5 ∧
      rest = ⟨octet.toNat - 0xF0, 3, if octet = 0xF0 then 0x90 else 0x80,
        if octet = 0xF4 then 0x8F else 0xBF⟩) := by
  simp only [lead, UInt8.lt_iff_toNat_lt, UInt8.reduceToNat] at opens
  split at opens
  · cases opens
  split at opens
  · cases opens
  split at opens
  · exact .inl ⟨by omega, by omega, (Lead.opens.inj opens).symm⟩
  split at opens
  · exact .inr (.inl ⟨by omega, by omega, (Lead.opens.inj opens).symm⟩)
  split at opens
  · exact .inr (.inr ⟨by omega, by omega, (Lead.opens.inj opens).symm⟩)
  · cases opens

theorem ofNat_eq (same : value = octet.toNat) : UInt8.ofNat value = octet := by
  rw [same, UInt8.ofNat_toNat]

theorem toNat_val_ofNat (valid : value.isValidChar) : (Char.ofNat value).val.toNat = value := by
  rw [Char.ofNat, dif_pos valid]
  rfl

theorem encodeChar_one (ascii : octet.toNat < 0x80) :
    String.utf8EncodeChar (Char.ofNat octet.toNat) = [octet] := by
  have scalar := toNat_val_ofNat (show octet.toNat.isValidChar from .inl (by omega))
  simp only [String.utf8EncodeChar, scalar]
  rw [if_pos (by omega), ofNat_eq rfl]

theorem encodeChar_two (low : 0xC2 ≤ first.toNat) (high : first.toNat < 0xE0)
    (tail : 0x80 ≤ second.toNat ∧ second.toNat ≤ 0xBF) :
    String.utf8EncodeChar (Char.ofNat ((first.toNat - 0xC0) * 64 + (second.toNat - 0x80))) =
      [first, second] := by
  generalize same : (first.toNat - 0xC0) * 64 + (second.toNat - 0x80) = value
  have scalar := toNat_val_ofNat (show value.isValidChar from .inl (by omega))
  simp only [String.utf8EncodeChar, scalar]
  rw [if_neg (by omega), if_pos (by omega), @ofNat_eq first _ (by omega),
    @ofNat_eq second _ (by omega)]

/-- The second octet keeps out what is too short for three octets, and the surrogates. -/
theorem encodeChar_three (low : 0xE0 ≤ first.toNat) (high : first.toNat < 0xF0)
    (middle : 0x80 ≤ second.toNat ∧ second.toNat ≤ 0xBF)
    (long : first.toNat = 0xE0 → 0xA0 ≤ second.toNat)
    (scalar : first.toNat = 0xED → second.toNat ≤ 0x9F)
    (tail : 0x80 ≤ third.toNat ∧ third.toNat ≤ 0xBF) :
    String.utf8EncodeChar (Char.ofNat (((first.toNat - 0xE0) * 64 + (second.toNat - 0x80)) * 64 +
      (third.toNat - 0x80))) = [first, second, third] := by
  generalize same : ((first.toNat - 0xE0) * 64 + (second.toNat - 0x80)) * 64 +
    (third.toNat - 0x80) = value
  have valid : value.isValidChar := by
    rw [Nat.isValidChar]
    omega
  simp only [String.utf8EncodeChar, toNat_val_ofNat valid]
  rw [if_neg (by omega), if_neg (by omega), if_pos (by omega), @ofNat_eq first _ (by omega),
    @ofNat_eq second _ (by omega), @ofNat_eq third _ (by omega)]

/-- The second octet keeps out what is too short for four octets, and what lies beyond the last
character. -/
theorem encodeChar_four (low : 0xF0 ≤ first.toNat) (high : first.toNat < 0xF5)
    (middle : 0x80 ≤ second.toNat ∧ second.toNat ≤ 0xBF)
    (long : first.toNat = 0xF0 → 0x90 ≤ second.toNat)
    (within : first.toNat = 0xF4 → second.toNat ≤ 0x8F)
    (next : 0x80 ≤ third.toNat ∧ third.toNat ≤ 0xBF)
    (tail : 0x80 ≤ fourth.toNat ∧ fourth.toNat ≤ 0xBF) :
    String.utf8EncodeChar (Char.ofNat ((((first.toNat - 0xF0) * 64 + (second.toNat - 0x80)) * 64 +
      (third.toNat - 0x80)) * 64 + (fourth.toNat - 0x80))) = [first, second, third, fourth] := by
  generalize same : (((first.toNat - 0xF0) * 64 + (second.toNat - 0x80)) * 64 +
    (third.toNat - 0x80)) * 64 + (fourth.toNat - 0x80) = value
  have valid : value.isValidChar := by
    rw [Nat.isValidChar]
    omega
  simp only [String.utf8EncodeChar, toNat_val_ofNat valid]
  rw [if_neg (by omega), if_neg (by omega), if_neg (by omega), @ofNat_eq first _ (by omega),
    @ofNat_eq second _ (by omega), @ofNat_eq third _ (by omega), @ofNat_eq fourth _ (by omega)]

/-- No character has more than four octets. -/
theorem Opened.due_le (opened : Opened octets rest) :
    0 < octets.length ∧ octets.length + rest.due ≤ 4 := by
  induction opened with
  | lead opens =>
    rcases cases_of_lead_opens opens with ⟨-, -, rfl⟩ | ⟨-, -, rfl⟩ | ⟨-, -, rfl⟩ <;> simp
  | more opened allowed due ih =>
    simp only [List.length_append, List.length_singleton]
    omega

theorem toNat_tail (allowed : 0x80 ≤ octet ∧ octet ≤ 0xBF) :
    0x80 ≤ octet.toNat ∧ octet.toNat ≤ 0xBF :=
  ⟨UInt8.le_iff_toNat_le.mp allowed.1, UInt8.le_iff_toNat_le.mp allowed.2⟩

/-- The second octet is a tail, and has a bound of its own behind the least lead and behind the
greatest. -/
theorem toNat_second {least floor greatest ceiling : UInt8}
    (allowed : (if first = least then floor else 0x80) ≤ second ∧
      second ≤ if first = greatest then ceiling else 0xBF)
    (low : 0x80 ≤ floor.toNat) (high : ceiling.toNat ≤ 0xBF) :
    (0x80 ≤ second.toNat ∧ second.toNat ≤ 0xBF) ∧
      (first.toNat = least.toNat → floor.toNat ≤ second.toNat) ∧
      (first.toNat = greatest.toNat → second.toNat ≤ ceiling.toNat) := by
  obtain ⟨above, below⟩ := allowed
  rw [UInt8.le_iff_toNat_le] at above below
  have tail : (0x80 : UInt8).toNat = 0x80 ∧ (0xBF : UInt8).toNat = 0xBF := ⟨rfl, rfl⟩
  refine ⟨⟨?_, ?_⟩, fun same => ?_, fun same => ?_⟩
  · split at above <;> omega
  · split at below <;> omega
  · rwa [if_pos (UInt8.toNat_inj.mp same)] at above
  · rwa [if_pos (UInt8.toNat_inj.mp same)] at below

/-- The octet that was due last completes the octets of a character. -/
theorem Opened.encodeChar (opened : Opened octets rest)
    (allowed : rest.low ≤ octet ∧ octet ≤ rest.high) (last : rest.due ≤ 1) :
    String.utf8EncodeChar (Char.ofNat (rest.bits * 64 + (octet.toNat - 0x80))) =
      octets ++ [octet] := by
  -- How far back the lead stands tells how many octets were due behind it, and so which lead it is.
  cases opened with
  | lead opens =>
    rcases cases_of_lead_opens opens with ⟨low, high, rfl⟩ | ⟨-, -, rfl⟩ | ⟨-, -, rfl⟩
    · exact encodeChar_two low high (toNat_tail allowed)
    · exact absurd last (by simp)
    · exact absurd last (by simp)
  | more opened second due =>
    cases opened with
    | lead opens =>
      rcases cases_of_lead_opens opens with ⟨-, -, rfl⟩ | ⟨low, high, rfl⟩ | ⟨-, -, rfl⟩
      · exact absurd due (by simp)
      · obtain ⟨middle, long, scalar⟩ := toNat_second second (by decide) (by decide)
        exact encodeChar_three low high middle long scalar (toNat_tail allowed)
      · exact absurd last (by simp)
    | more opened first due' =>
      cases opened with
      | lead opens =>
        rcases cases_of_lead_opens opens with ⟨-, -, rfl⟩ | ⟨-, -, rfl⟩ | ⟨low, high, rfl⟩
        · exact absurd due' (by simp)
        · exact absurd due (by simp)
        · obtain ⟨middle, long, within⟩ := toNat_second first (by decide) (by decide)
          exact encodeChar_four low high middle long within (toNat_tail second)
            (toNat_tail allowed)
      | more opened _ due'' =>
        have short := opened.due_le
        dsimp only at due due'
        omega

/-! ## Holes stay -/

theorem none_mem_begin {read : List (Option Char)} (hole : none ∈ read) (octet : UInt8) :
    none ∈ (Decoder.begin read octet).read := by
  unfold Decoder.begin
  split
  · exact List.mem_cons_of_mem _ hole
  · exact hole
  · exact List.mem_cons_self

theorem none_mem_feed (hole : none ∈ decoder.read) (octet : UInt8) :
    none ∈ (decoder.feed octet).read := by
  unfold Decoder.feed
  split
  · exact none_mem_begin hole octet
  · split
    · dsimp only
      split
      · exact List.mem_cons_of_mem _ hole
      · exact hole
    · exact none_mem_begin List.mem_cons_self octet

theorem none_mem_foldl (hole : none ∈ decoder.read) (bytes : Bytes) :
    none ∈ (bytes.foldl Decoder.feed decoder).read := by
  induction bytes generalizing decoder with
  | nil => exact hole
  | cons octet bytes ih => exact ih (none_mem_feed hole octet)

theorem none_mem_finish (hole : none ∈ decoder.read) : none ∈ decoder.finish := by
  unfold Decoder.finish
  split
  · exact List.mem_reverse.mpr hole
  · exact List.mem_reverse.mpr (List.mem_cons_of_mem _ hole)

/-! ## No hole -/

/-- An octet joins what has been read, or leaves a hole. -/
theorem Whole.feed (whole : Whole bytes decoder) (octet : UInt8) :
    Whole (bytes ++ [octet]) (decoder.feed octet) ∨ none ∈ (decoder.feed octet).read := by
  have joins (chars : List Char) (char : Char) :
      Whole (chars.flatMap String.utf8EncodeChar ++ String.utf8EncodeChar char)
        ⟨some char :: (chars.map some).reverse, none⟩ := by
    have longer := Whole.between (chars ++ [char])
    simpa using longer
  cases whole with
  | between chars =>
    simp only [Decoder.feed, Decoder.begin]
    split
    next char whole =>
      obtain ⟨ascii, rfl⟩ := eq_of_lead_whole whole
      rw [← encodeChar_one ascii]
      exact .inl (joins chars _)
    next rest opens => exact .inl (.amid chars (.lead opens))
    next => exact .inr List.mem_cons_self
  | @amid chars octets rest opened =>
    simp only [Decoder.feed]
    split
    next allowed =>
      split
      next last =>
        rw [List.append_assoc, ← opened.encodeChar allowed last]
        exact .inl (joins chars _)
      next due =>
        rw [List.append_assoc]
        exact .inl (.amid chars (opened.more allowed (Nat.lt_of_not_le due)))
    next => exact .inr (none_mem_begin List.mem_cons_self octet)

theorem Whole.run (whole : Whole front decoder) (bytes : Bytes) :
    Whole (front ++ bytes) (bytes.foldl Decoder.feed decoder) ∨
      none ∈ (bytes.foldl Decoder.feed decoder).read := by
  induction bytes generalizing front decoder with
  | nil => exact .inl (by simpa using whole)
  | cons octet bytes ih =>
    rw [List.append_cons]
    rcases whole.feed octet with still | hole
    · exact ih still
    · exact .inr (none_mem_foldl hole bytes)

/-- Where the end leaves no hole either, the bytes are those of the characters read. -/
theorem Whole.exists_encode (whole : Whole bytes decoder) (filled : none ∉ decoder.finish) :
    ∃ text : String, encode text = bytes := by
  cases whole with
  | between chars => exact ⟨String.ofList chars, by rw [encode, String.toList_ofList]⟩
  | amid chars opened => exact absurd (List.mem_reverse.mpr List.mem_cons_self) filled

theorem exists_encode_of_isValid (valid : isValid bytes = true) :
    ∃ text : String, encode text = bytes := by
  have filled : none ∉ decode bytes := fun hole =>
    Bool.false_ne_true (List.all_eq_true.mp valid none hole)
  rcases (Whole.between []).run bytes with whole | hole
  · exact whole.exists_encode filled
  · exact absurd (none_mem_finish hole) filled

theorem isValid_encode (text : String) : isValid (encode text) = true := by
  rw [isValid, decode_encode]
  simp

/-- Bytes are valid if they are the encoding of some text, and only then. -/
theorem isValid_iff : isValid bytes = true ↔ ∃ text : String, encode text = bytes := by
  refine ⟨exists_encode_of_isValid, ?_⟩
  rintro ⟨text, rfl⟩
  exact isValid_encode text

/-! ## Behind ASCII -/

/-- An octet of ASCII at the front is a character of its own, so a text follows it. -/
theorem isValid_of_cons (ascii : octet.toNat < 0x80) (valid : isValid (octet :: bytes) = true) :
    isValid bytes = true := by
  obtain ⟨text, same⟩ := isValid_iff.mp valid
  unfold encode at same
  cases listed : text.toList with
  | nil => exact nomatch listed ▸ same
  | cons char chars =>
    rw [listed, List.flatMap_cons] at same
    cases encoded : String.utf8EncodeChar char with
    | nil => exact absurd encoded String.utf8EncodeChar_ne_nil
    | cons head tail =>
      rw [encoded, List.cons_append] at same
      obtain ⟨rfl, behind⟩ := List.cons.inj same
      have itself : char = Char.ofNat head.toNat :=
        eq_ofNat_of_ascii (encoded ▸ List.mem_cons_self) ascii
      rw [itself, encodeChar_one ascii] at encoded
      obtain rfl : [] = tail := (List.cons.inj encoded).2
      refine isValid_iff.mpr ⟨String.ofList chars, ?_⟩
      rw [encode, String.toList_ofList]
      exact behind

theorem isValid_of_append (ascii : ∀ octet ∈ front, octet.toNat < 0x80)
    (valid : isValid (front ++ bytes) = true) : isValid bytes = true := by
  induction front with
  | nil => exact valid
  | cons octet front ih =>
    exact ih (fun other mem => ascii other (List.mem_cons_of_mem _ mem))
      (isValid_of_cons (ascii octet List.mem_cons_self) valid)

end WireStore.Utf8
