import WireStore.Frame.Header
import WireStore.Proofs.Text.Written

/-!
# Headers and their tokens

A header line is read when its tokens are: what a token that names a verb, a key or a size is made
of is ASCII, so a line of such tokens is text and need not be looked at twice (`parse_eq_ok_iff`).

Where a value is carried, the tokens of a header may stand at the front of a longer text. Then the
text goes on where the size ends (`Begins`), and what it goes on with is no concern of the header
as long as a blank comes first (`begins_append_iff`).
-/

namespace WireStore

variable {line text front back tail rest token : Bytes} {method : Method} {header : Header}

open Ascii Token

namespace Method

theorem graphic_word (method : Method) : ∀ octet ∈ Utf8.encode method.word, Graphic octet := by
  cases method <;> decide +kernel

theorem word_ne_nil (method : Method) : Utf8.encode method.word ≠ [] := by
  cases method <;> decide

theorem length_word_le (method : Method) : (Utf8.encode method.word).length ≤ 6 := by
  cases method <;> decide

theorem parse?_word (method : Method) : parse? (Utf8.encode method.word) = some method := by
  cases method <;> decide

/-- A verb is told by the lower case of its token alone. -/
theorem parse?_congr {other : Bytes} (same : token.map lower = other.map lower) :
    parse? token = parse? other := by
  simp only [parse?, sameIgnoringCase, same]

theorem parse?_eq_some_iff : parse? token = some method ↔
    sameIgnoringCase (Utf8.encode method.word) token = true := by
  constructor
  · intro read
    unfold parse? at read
    simpa using List.find?_some read
  · intro same
    rw [← parse?_congr (sameIgnoringCase_iff.mp same)]
    exact parse?_word method

theorem only_of_parse? (read : parse? token = some method) : Only token ∧ token ≠ [] := by
  have same := parse?_eq_some_iff.mp read
  refine ⟨(only_of_graphic method.graphic_word).of_sameIgnoringCase same, ?_⟩
  rintro rfl
  exact method.word_ne_nil (List.map_eq_nil_iff.mp (sameIgnoringCase_iff.mp same))

end Method

namespace Header

theorem size?_of_carriesValue (carries : method.carriesValue = true) (afterKey : Bytes) :
    size? method afterKey = (Numeral.size? (next afterKey).1).map (·, (next afterKey).2) := by
  simp [size?, carries]

theorem size?_of_no_value (carries : method.carriesValue = false) (afterKey : Bytes) :
    size? method afterKey = some (0, afterKey) := by
  simp [size?, carries]

theorem arguments?_eq_some_iff : arguments? method text = some header ↔
    header.method = method ∧ Key.parse? (next text).1 = some header.key ∧
      ∃ rest, size? method (next text).2 = some (header.size, rest) ∧ allBlank rest = true := by
  unfold arguments?
  constructor
  · intro read
    obtain ⟨key, keyRead, sized⟩ := Option.bind_eq_some_iff.mp read
    obtain ⟨⟨size, rest⟩, sizeRead, blank⟩ := Option.bind_eq_some_iff.mp sized
    obtain ⟨allBlank, equal⟩ := Option.ite_none_right_eq_some.mp blank
    obtain rfl := Option.some.inj equal
    exact ⟨rfl, keyRead, rest, sizeRead, allBlank⟩
  · rintro ⟨rfl, keyRead, rest, sizeRead, blank⟩
    simp [keyRead, sizeRead, blank]

theorem only_of_size? {size : Nat} (read : size? method text = some (size, rest))
    (others : Only rest) : Only text := by
  cases carries : method.carriesValue with
  | true =>
    rw [size?_of_carriesValue carries] at read
    obtain ⟨number, numeral, equal⟩ := Option.map_eq_some_iff.mp read
    obtain ⟨-, rfl⟩ := Prod.mk.inj equal
    exact only_of_next (Numeral.only_of_size? numeral).1 others
  | false =>
    rw [size?_of_no_value carries] at read
    obtain ⟨-, rfl⟩ := Prod.mk.inj (Option.some.inj read)
    exact others

theorem only_of_arguments? (read : arguments? method text = some header) : Only text := by
  obtain ⟨-, keyRead, rest, sizeRead, blank⟩ := arguments?_eq_some_iff.mp read
  have behind : Only rest := only_of_blank (blank_of_allBlank blank)
  exact only_of_next (Key.only_of_parse? keyRead).1 (only_of_size? sizeRead behind)

/-- A line is a header if its tokens make one. -/
theorem parse_eq_ok_iff : parse line = .ok header ↔
    Method.parse? (next line).1 = some header.method ∧
      arguments? header.method (next line).2 = some header := by
  unfold parse
  constructor
  · intro read
    split at read
    next => exact nomatch read
    next =>
      simp only at read
      split at read
      next => exact nomatch read
      next =>
        split at read
        next => exact nomatch read
        next method verb =>
          split at read
          next => exact nomatch read
          next found arguments =>
            obtain rfl := Except.ok.inj read
            obtain ⟨rfl, -⟩ := arguments?_eq_some_iff.mp arguments
            exact ⟨verb, arguments⟩
  · rintro ⟨verb, arguments⟩
    obtain ⟨verbOnly, filled⟩ := Method.only_of_parse? verb
    have valid : Utf8.isValid line = true :=
      Utf8.isValid_of_ascii (only_of_next verbOnly (only_of_arguments? arguments))
    simp [valid, verb, arguments, filled]

/-- Holds of a text that begins with the tokens of a header and goes on with `rest`. -/
def Begins (header : Header) (text rest : Bytes) : Prop :=
  ∃ verb afterVerb key afterKey size,
    next text = (verb, afterVerb) ∧ Method.parse? verb = some header.method ∧
    next afterVerb = (key, afterKey) ∧ Key.parse? key = some header.key ∧
    next afterKey = (size, rest) ∧ Numeral.size? size = some header.size

/-- A line with a size is a header if only blanks follow the size. -/
theorem parse_eq_ok_iff_begins (carries : header.method.carriesValue = true) :
    parse line = .ok header ↔ ∃ rest, header.Begins line rest ∧ allBlank rest = true := by
  rw [parse_eq_ok_iff, arguments?_eq_some_iff]
  constructor
  · rintro ⟨verb, -, key, rest, sized, blank⟩
    rw [size?_of_carriesValue carries] at sized
    obtain ⟨number, size, equal⟩ := Option.map_eq_some_iff.mp sized
    obtain ⟨rfl, rfl⟩ := Prod.mk.inj equal
    exact ⟨_, ⟨_, _, _, _, _, rfl, verb, rfl, key, rfl, size⟩, blank⟩
  · rintro ⟨rest, ⟨verbToken, afterVerb, keyToken, afterKey, sizeToken, verbCut, verb, keyCut, key,
      sizeCut, size⟩, blank⟩
    rw [verbCut, keyCut]
    refine ⟨verb, rfl, key, rest, ?_, blank⟩
    rw [size?_of_carriesValue carries, sizeCut, size]
    rfl

theorem Begins.detached (begins : header.Begins text rest) : Detached rest := by
  obtain ⟨_, _, _, afterKey, _, -, -, -, -, sizeCut, -⟩ := begins
  have behind := detached_rest afterKey
  rwa [sizeCut] at behind

theorem Begins.suffix (begins : header.Begins text rest) : rest <:+ text := by
  obtain ⟨_, afterVerb, _, afterKey, _, verbCut, -, keyCut, -, sizeCut, -⟩ := begins
  have first := rest_suffix text
  have second := rest_suffix afterVerb
  have third := rest_suffix afterKey
  rw [verbCut] at first
  rw [keyCut] at second
  rw [sizeCut] at third
  exact (third.trans second).trans first

/-- What stands behind a header is put there, or taken away, without changing the header. -/
theorem begins_append_iff (detached : Detached tail) :
    header.Begins (front ++ tail) (back ++ tail) ↔ header.Begins front back := by
  constructor
  · rintro ⟨verbToken, afterVerb, keyToken, afterKey, sizeToken, verbCut, verb, keyCut, key,
      sizeCut, size⟩
    -- The rests are suffixes of each other, so each of them ends in what stands behind.
    have third := rest_suffix afterKey
    have second := rest_suffix afterVerb
    rw [sizeCut] at third
    rw [keyCut] at second
    obtain ⟨afterKey', rfl⟩ := (List.suffix_append back tail).trans third
    obtain ⟨afterVerb', rfl⟩ := (List.suffix_append afterKey' tail).trans second
    rw [next_append_iff (Method.only_of_parse? verb).2 detached] at verbCut
    rw [next_append_iff (Key.only_of_parse? key).2 detached] at keyCut
    rw [next_append_iff (Numeral.only_of_size? size).2 detached] at sizeCut
    exact ⟨_, _, _, _, _, verbCut, verb, keyCut, key, sizeCut, size⟩
  · rintro ⟨verbToken, afterVerb, keyToken, afterKey, sizeToken, verbCut, verb, keyCut, key,
      sizeCut, size⟩
    refine ⟨_, afterVerb ++ tail, _, afterKey ++ tail, _, ?_, verb, ?_, key, ?_, size⟩
    · exact (next_append_iff (Method.only_of_parse? verb).2 detached).mpr verbCut
    · exact (next_append_iff (Key.only_of_parse? key).2 detached).mpr keyCut
    · exact (next_append_iff (Numeral.only_of_size? size).2 detached).mpr sizeCut

end Header

end WireStore
