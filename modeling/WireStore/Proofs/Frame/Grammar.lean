import WireStore.Proofs.Frame.Headers
import WireStore.Proofs.Text.Decimal
import WireStore.Proofs.Text.Validity

/-!
# The grammar of request headers

A header is a verb in any case, a key, and a size if the verb carries a value, with blanks between
them and, at will, around them (`Spelled`, `WrittenAs`). A line is read as the header that it is
written for. A line of text whose first token is no verb is an unknown command, and every other line
is malformed (`parse_classifies`).
-/

namespace WireStore

variable {octet : UInt8} {bytes line text head front rest token verb numeral indent gap : Bytes}
  {method : Method} {key : Key} {header : Header}

open Ascii

namespace Ascii

theorem isBlank_lower (octet : UInt8) : isBlank (lower octet) = isBlank octet := by
  unfold lower
  split
  next letter =>
    have low : 65 ≤ octet.toNat := UInt8.le_iff_toNat_le.mp letter.1
    have high : octet.toNat ≤ 90 := UInt8.le_iff_toNat_le.mp letter.2
    have graphic : Graphic octet := ⟨by omega, by omega⟩
    have lowered : Graphic (octet + 32) := by
      have step : (32 : UInt8).toNat = 32 := rfl
      unfold Graphic
      rw [UInt8.toNat_add, step]
      omega
    rw [graphic.isBlank_eq_false, lowered.isBlank_eq_false]
  next => rfl

end Ascii

namespace Token

/-- Holds of bytes that are blank. -/
def Blanks (bytes : Bytes) : Prop := ∀ octet ∈ bytes, isBlank octet = true

/-- Holds of what parts two tokens. -/
def Gap (bytes : Bytes) : Prop := bytes ≠ [] ∧ Blanks bytes

instance : Decidable (Blanks bytes) := List.decidableBAll _ bytes
instance : Decidable (Gap bytes) := inferInstanceAs (Decidable (_ ∧ _))

/-- Holds of bytes that may make up a token. -/
def Inked (bytes : Bytes) : Prop := bytes ≠ [] ∧ ∀ octet ∈ bytes, isInk octet = true

/-- Holds of a token in front of which only blanks stand. -/
def First (token line : Bytes) : Prop :=
  ∃ indent rest, Blanks indent ∧ Inked token ∧ Detached rest ∧ line = indent ++ (token ++ rest)

theorem first_iff : First token line ↔ token ≠ [] ∧ (next line).1 = token := by
  constructor
  · rintro ⟨indent, rest, blank, ⟨filled, ink⟩, detached, whole⟩
    have cut := (next_eq_iff filled).mpr ⟨indent, blank, ink, detached, whole⟩
    exact ⟨filled, congrArg Prod.fst cut⟩
  · rintro ⟨filled, rfl⟩
    obtain ⟨indent, blank, ink, detached, whole⟩ := (next_eq_iff filled).mp rfl
    exact ⟨indent, _, blank, ⟨filled, ink⟩, detached, whole⟩

theorem inked_of_graphic (filled : token ≠ []) (graphic : ∀ octet ∈ token, Graphic octet) :
    Inked token := by
  refine ⟨filled, fun octet mem => ?_⟩
  rw [isInk, (graphic octet mem).isBlank_eq_false]
  rfl

/-- The case of letters does not matter to what a token may be made of. -/
theorem Inked.of_sameIgnoringCase (inked : Inked front)
    (same : sameIgnoringCase front token = true) : Inked token := by
  rw [sameIgnoringCase_iff] at same
  refine ⟨?_, fun octet mem => ?_⟩
  · rintro rfl
    exact inked.1 (List.map_eq_nil_iff.mp same)
  · have lowered := List.mem_map_of_mem (f := lower) mem
    rw [← same] at lowered
    obtain ⟨other, here, equal⟩ := List.mem_map.mp lowered
    rw [isInk, ← isBlank_lower, ← equal, isBlank_lower]
    exact inked.2 other here

theorem Blanks.detached (blank : Blanks bytes) : Detached bytes :=
  fun octet first => blank octet (List.mem_of_head? first)

theorem Gap.detached (gapped : Gap gap) (rest : Bytes) : Detached (gap ++ rest) := by
  obtain ⟨octet, gap, rfl⟩ := List.exists_cons_of_ne_nil gapped.1
  exact detached_cons (gapped.2 octet List.mem_cons_self) _

/-- Between two tokens there is a gap. -/
theorem gap_of_detached (detached : Detached (indent ++ (token ++ rest))) (blank : Blanks indent)
    (inked : Inked token) : Gap indent := by
  refine ⟨?_, blank⟩
  rintro rfl
  obtain ⟨octet, token, rfl⟩ := List.exists_cons_of_ne_nil inked.1
  have seen := inked.2 octet List.mem_cons_self
  rw [isInk, detached octet rfl] at seen
  cases seen

end Token

open Token

namespace Numeral

theorem Denotes.inked {size : Nat} (denotes : Denotes token size) : Inked token :=
  inked_of_graphic denotes.ne_nil denotes.graphic

theorem DenotesInteger.inked {integer : Int} (denotes : DenotesInteger token integer) :
    Inked token := by
  have signed {sign : UInt8} {digits : Bytes} {size : Nat} (graphic : Graphic sign)
      (denotes : Denotes digits size) : Inked (sign :: digits) := by
    refine inked_of_graphic (List.cons_ne_nil _ _) fun octet mem => ?_
    rcases List.mem_cons.mp mem with rfl | later
    · exact graphic
    · exact denotes.graphic octet later
  cases denotes with
  | plain denotes => exact denotes.inked
  | plus denotes => exact signed ⟨by decide, by decide⟩ denotes
  | minus denotes => exact signed ⟨by decide, by decide⟩ denotes

end Numeral

namespace Method

theorem inked_of_names (names : sameIgnoringCase (Utf8.encode method.word) verb = true) :
    Inked verb :=
  (inked_of_graphic method.word_ne_nil method.graphic_word).of_sameIgnoringCase names

end Method

namespace Header

/-- Holds of a text that is a verb and a key, with blanks between them and at will in front. -/
inductive Opens (method : Method) (key : Key) : Bytes → Prop
  | intro {indent verb gap numeral : Bytes} (indented : Blanks indent)
    (names : sameIgnoringCase (Utf8.encode method.word) verb = true) (parted : Gap gap)
    (denotes : Numeral.DenotesInteger numeral key.toInt) :
    Opens method key (indent ++ (verb ++ (gap ++ numeral)))

/-- Holds of the texts that a header is written as, up to its last token. -/
inductive Spelled : Header → Bytes → Prop
  | bare {method : Method} {key : Key} {text : Bytes} (carries : method.carriesValue = false)
    (opens : Opens method key text) : Spelled ⟨method, key, 0⟩ text
  | sized {method : Method} {key : Key} {size : Nat} {text gap numeral : Bytes}
    (carries : method.carriesValue = true) (opens : Opens method key text) (parted : Gap gap)
    (denotes : Numeral.Denotes numeral size) (small : size < 2 ^ 64) :
    Spelled ⟨method, key, size⟩ (text ++ (gap ++ numeral))

/-- Holds of the lines that a header is written as. -/
def WrittenAs (header : Header) (line : Bytes) : Prop :=
  ∃ head trail, Spelled header head ∧ Blanks trail ∧ line = head ++ trail

/-- Holds of lines of text whose first token is no verb. -/
def Unknown (line : Bytes) : Prop :=
  (∃ text : String, Utf8.encode text = line) ∧
    ∃ token, First token line ∧
      ∀ method : Method, sameIgnoringCase (Utf8.encode method.word) token = false

/-- A verb and a key are what a line that opens with them is cut into. -/
theorem opens_iff :
    (∃ verb afterVerb numeral, next line = (verb, afterVerb) ∧ Method.parse? verb = some method ∧
      next afterVerb = (numeral, rest) ∧ Key.parse? numeral = some key) ↔
    Detached rest ∧ ∃ head, Opens method key head ∧ line = head ++ rest := by
  constructor
  · rintro ⟨verb, afterVerb, numeral, verbCut, named, keyCut, denotes⟩
    have filled := (Key.only_of_parse? denotes).2
    obtain ⟨indent, indented, -, behind, rfl⟩ :=
      (next_eq_iff (Method.only_of_parse? named).2).mp verbCut
    obtain ⟨gap, blank, ink, detached, rfl⟩ := (next_eq_iff filled).mp keyCut
    -- What the verb was cut off from begins with a blank, so the key does not follow at once.
    refine ⟨detached, _, .intro indented (Method.parse?_eq_some_iff.mp named)
      (gap_of_detached behind blank ⟨filled, ink⟩) (Key.parse?_eq_some_iff.mp denotes), ?_⟩
    simp only [List.append_assoc]
  · rintro ⟨detached, _, ⟨indented, names, parted, denotes⟩, rfl⟩
    obtain ⟨verbFilled, verbInk⟩ := Method.inked_of_names names
    obtain ⟨keyFilled, keyInk⟩ := denotes.inked
    refine ⟨_, _, _, (next_eq_iff verbFilled).mpr ⟨_, indented, verbInk, ?_, ?_⟩,
      Method.parse?_eq_some_iff.mpr names,
      (next_eq_iff keyFilled).mpr ⟨_, parted.2, keyInk, detached, rfl⟩,
      Key.parse?_eq_some_iff.mpr denotes⟩
    · exact parted.detached _
    · simp only [List.append_assoc]

/-- A header with a size is what a text that begins with it is cut into. -/
theorem begins_iff (carries : header.method.carriesValue = true) :
    header.Begins line rest ↔
      Detached rest ∧ ∃ head, Spelled header head ∧ line = head ++ rest := by
  constructor
  · rintro ⟨verb, afterVerb, key, afterKey, numeral, verbCut, named, keyCut, keyRead, sizeCut,
      sizeRead⟩
    obtain ⟨denotes, small⟩ := Numeral.size?_eq_some_iff.mp sizeRead
    obtain ⟨behind, head, opens, rfl⟩ :=
      opens_iff.mp ⟨verb, afterVerb, key, verbCut, named, keyCut, keyRead⟩
    obtain ⟨gap, blank, ink, detached, rfl⟩ := (next_eq_iff denotes.ne_nil).mp sizeCut
    have parted := gap_of_detached behind blank ⟨denotes.ne_nil, ink⟩
    refine ⟨detached, _, .sized carries opens parted denotes small, ?_⟩
    simp only [List.append_assoc]
  · rintro ⟨detached, _, spelled, rfl⟩
    cases spelled with
    | bare bare => exact nomatch carries.symm.trans bare
    | sized _ opens parted denotes small =>
      obtain ⟨filled, ink⟩ := denotes.inked
      obtain ⟨verb, afterVerb, key, verbCut, named, keyCut, keyRead⟩ :=
        opens_iff.mpr ⟨parted.detached _, _, opens, rfl⟩
      refine ⟨verb, afterVerb, key, _, _, ?_, named, keyCut, keyRead,
        (next_eq_iff filled).mpr ⟨_, parted.2, ink, detached, rfl⟩,
        Numeral.size?_eq_some_iff.mpr ⟨denotes, small⟩⟩
      rw [← verbCut]
      simp only [List.append_assoc]

theorem parse_eq_ok_iff_opens (carries : method.carriesValue = false) {size : Nat} :
    parse line = .ok ⟨method, key, size⟩ ↔
      size = 0 ∧ ∃ head rest, Opens method key head ∧ Blanks rest ∧ line = head ++ rest := by
  rw [parse_eq_ok_iff, arguments?_eq_some_iff, size?_of_no_value carries]
  constructor
  · rintro ⟨named, -, read, rest, sized, blank⟩
    obtain ⟨rfl, rfl⟩ := Prod.mk.inj (Option.some.inj sized)
    obtain ⟨-, head, opens, whole⟩ := opens_iff.mp ⟨_, _, _, rfl, named, rfl, read⟩
    exact ⟨rfl, head, _, opens, blank_of_allBlank blank, whole⟩
  · rintro ⟨rfl, head, rest, opens, blank, rfl⟩
    obtain ⟨verb, afterVerb, numeral, verbCut, named, keyCut, read⟩ :=
      opens_iff.mpr ⟨blank.detached, head, opens, rfl⟩
    rw [verbCut, keyCut]
    exact ⟨named, rfl, read, rest, rfl, List.all_eq_true.mpr blank⟩

/-- A line is read as the header that it is written for. -/
theorem parse_eq_ok_iff_writtenAs : parse line = .ok header ↔ WrittenAs header line := by
  cases carries : header.method.carriesValue with
  | true =>
    rw [parse_eq_ok_iff_begins carries]
    constructor
    · rintro ⟨rest, begins, blank⟩
      obtain ⟨-, head, spelled, rfl⟩ := (begins_iff carries).mp begins
      exact ⟨head, rest, spelled, blank_of_allBlank blank, rfl⟩
    · rintro ⟨head, trail, spelled, blank, rfl⟩
      have begins := (begins_iff carries).mpr ⟨Blanks.detached blank, head, spelled, rfl⟩
      exact ⟨trail, begins, List.all_eq_true.mpr blank⟩
  | false =>
    obtain ⟨method, key, size⟩ := header
    rw [parse_eq_ok_iff_opens carries]
    constructor
    · rintro ⟨rfl, head, rest, opens, blank, rfl⟩
      exact ⟨head, rest, .bare carries opens, blank, rfl⟩
    · rintro ⟨head, trail, spelled, blank, rfl⟩
      cases spelled with
      | bare _ opens => exact ⟨rfl, head, trail, opens, blank, rfl⟩
      | sized sized => exact nomatch carries.symm.trans sized

theorem parse?_eq_none_iff : Method.parse? token = none ↔
    ∀ method : Method, sameIgnoringCase (Utf8.encode method.word) token = false := by
  rw [Option.eq_none_iff_forall_ne_some]
  refine forall_congr' fun method => ?_
  rw [ne_eq, Method.parse?_eq_some_iff, Bool.not_eq_true]

theorem unknown_iff : Unknown line ↔ Utf8.isValid line = true ∧ (next line).1 ≠ [] ∧
    Method.parse? (next line).1 = none := by
  simp only [Unknown, ← Utf8.isValid_iff, ← parse?_eq_none_iff, first_iff]
  constructor
  · rintro ⟨valid, token, ⟨filled, rfl⟩, none⟩
    exact ⟨valid, filled, none⟩
  · rintro ⟨valid, filled, none⟩
    exact ⟨valid, _, ⟨filled, rfl⟩, none⟩

theorem parse_of_unknown (unknown : Unknown line) : parse line = .error .unknownCommand := by
  obtain ⟨valid, filled, none⟩ := unknown_iff.mp unknown
  simp [parse, valid, filled, none]

/-- A line that is no header is refused for one of two reasons. -/
theorem refused_cases {reason : Error} (refused : parse line = .error reason) :
    (reason = .unknownCommand ∧ Unknown line) ∨ reason = .malformed := by
  unfold parse at refused
  split at refused
  next => exact .inr (Except.error.inj refused).symm
  next valid =>
    simp only at refused
    split at refused
    next => exact .inr (Except.error.inj refused).symm
    next filled =>
      split at refused
      next none =>
        refine .inl ⟨(Except.error.inj refused).symm, unknown_iff.mpr ⟨?_, ?_, none⟩⟩
        · simpa using valid
        · simpa using filled
      next =>
        split at refused
        next => exact .inr (Except.error.inj refused).symm
        next => exact nomatch refused

theorem parse_eq_unknown_iff : parse line = .error .unknownCommand ↔ Unknown line := by
  refine ⟨fun refused => ?_, parse_of_unknown⟩
  rcases refused_cases refused with ⟨-, unknown⟩ | same
  · exact unknown
  · exact nomatch same

theorem parse_eq_malformed_iff :
    parse line = .error .malformed ↔ (∀ header, ¬WrittenAs header line) ∧ ¬Unknown line := by
  constructor
  · intro refused
    refine ⟨fun header written => ?_, fun unknown => ?_⟩
    · exact nomatch refused.symm.trans (parse_eq_ok_iff_writtenAs.mpr written)
    · exact nomatch refused.symm.trans (parse_of_unknown unknown)
  · rintro ⟨silent, known⟩
    cases found : parse line with
    | ok header => exact absurd (parse_eq_ok_iff_writtenAs.mp found) (silent header)
    | error reason =>
      rcases refused_cases found with ⟨-, unknown⟩ | rfl
      · exact absurd unknown known
      · rfl

/-- Every line is a header, an unknown command or malformed, and which of them it is can be told
from the grammar. -/
theorem parse_classifies (line : Bytes) :
    (∀ header, parse line = .ok header ↔ WrittenAs header line) ∧
    (parse line = .error .unknownCommand ↔ Unknown line) ∧
    (parse line = .error .malformed ↔ (∀ header, ¬WrittenAs header line) ∧ ¬Unknown line) ∧
    ∀ reason, parse line = .error reason → reason = .unknownCommand ∨ reason = .malformed := by
  refine ⟨fun header => parse_eq_ok_iff_writtenAs, parse_eq_unknown_iff, parse_eq_malformed_iff, ?_⟩
  intro reason refused
  exact (refused_cases refused).imp_left And.left

end Header

end WireStore
