import WireStore.Client.Instruction
import WireStore.Proofs.Frame.Headers

/-!
# User lines and headers

A user who types a request writes a header. A line that carries no value is a request if it is a
header that a server reads, and it is the same request. A line that carries a value is a header, one
blank and the value, whose length the header announces; the header ends in its size then, since a
blank behind the size would be taken for the one in front of the value (`parse_request_iff`).
-/

namespace WireStore

variable {line text front back rest value token : Bytes} {key : Key} {size : Nat}
  {method : Method} {header : Header} {verb : Verb} {request : Request}

open Ascii Token

namespace Verb

/-- The verb of user lines that asks for a request. -/
def ofMethod : Method → Verb
  | .create => create
  | .update => update
  | .read => read
  | .delete => delete

theorem parse?_congr {other : Bytes} (same : token.map lower = other.map lower) :
    parse? token = parse? other := by
  simp only [parse?, sameIgnoringCase, same]

/-- A token is a verb if it is a spelling of it, and no spelling has two verbs. -/
theorem parse?_eq_some_iff : parse? token = some verb ↔
    ∃ entry ∈ spellings, entry.2 = verb ∧
      sameIgnoringCase (Utf8.encode entry.1) token = true := by
  constructor
  · intro read
    obtain ⟨entry, found, named⟩ := Option.map_eq_some_iff.mp read
    exact ⟨entry, List.mem_of_find?_eq_some found, named,
      List.find?_some (p := fun entry : String × Verb =>
        sameIgnoringCase (Utf8.encode entry.1) token) found⟩
  · rintro ⟨entry, mem, rfl, same⟩
    have own : ∀ entry ∈ spellings, parse? (Utf8.encode entry.1) = some entry.2 := by
      decide +kernel
    rw [← parse?_congr (sameIgnoringCase_iff.mp same)]
    exact own entry mem

/-- Each verb of requests has one spelling among those of user lines. -/
theorem spelling_ofMethod (method : Method) : ∀ entry ∈ spellings, entry.2 = ofMethod method →
    (Utf8.encode entry.1).map lower = (Utf8.encode method.word).map lower := by
  cases method <;> decide

/-- Clients and servers agree on what spells the verb of a request. -/
theorem parse?_eq_ofMethod_iff :
    parse? token = some (ofMethod method) ↔ Method.parse? token = some method := by
  rw [Method.parse?_eq_some_iff, sameIgnoringCase_iff]
  constructor
  · intro read
    obtain ⟨entry, mem, named, same⟩ := parse?_eq_some_iff.mp read
    rw [← sameIgnoringCase_iff.mp same]
    exact (spelling_ofMethod method entry mem named).symm
  · intro same
    rw [← parse?_congr same]
    cases method <;> decide

end Verb

namespace Token

/-- Holds of bytes that do not end in a blank. -/
def EndsInInk (bytes : Bytes) : Prop := ∀ octet ∈ bytes.getLast?, isBlank octet = false

theorem endsInInk_nil : EndsInInk [] := fun _ last => absurd last (by simp)

theorem endsInInk_of_suffix (suffix : back <:+ front) (ends : EndsInInk front) :
    EndsInInk back := by
  obtain ⟨before, rfl⟩ := suffix
  intro octet last
  apply ends
  rw [List.getLast?_append, Option.mem_def.mp last]
  rfl

/-- A text ends as what follows its first token does, or in that token. -/
theorem endsInInk_of_next (filled : token ≠ []) (cut : next text = (token, rest))
    (ends : EndsInInk rest) : EndsInInk text := by
  obtain ⟨blanks, -, ink, -, rfl⟩ := (next_eq_iff filled).mp cut
  intro octet last
  rw [← List.append_assoc, List.getLast?_append] at last
  -- The last octet is one of what follows, and one of the token only if nothing follows.
  cases tail : rest.getLast? with
  | some final =>
    obtain rfl : final = octet := by simpa [tail] using last
    exact ends final tail
  | none =>
    rw [tail, Option.none_or, List.getLast?_append, List.getLast?_eq_some_getLast filled,
      Option.some_or] at last
    obtain rfl : token.getLast filled = octet := by simpa using last
    simpa [isInk] using ink _ (List.getLast_mem filled)

theorem eq_nil_of_allBlank (blank : allBlank bytes = true) (ends : EndsInInk bytes) :
    bytes = [] := by
  cases last : bytes.getLast? with
  | none => exact List.getLast?_eq_none_iff.mp last
  | some octet =>
    have here := blank_of_allBlank blank octet (List.mem_of_getLast? last)
    exact absurd here (by simp [ends octet last])

end Token

namespace Header

theorem Begins.endsInInk (begins : header.Begins text rest) (ends : EndsInInk rest) :
    EndsInInk text := by
  obtain ⟨_, _, _, _, _, verbCut, verb, keyCut, key, sizeCut, size⟩ := begins
  have third := endsInInk_of_next (Numeral.only_of_size? size).2 sizeCut ends
  have second := endsInInk_of_next (Key.only_of_parse? key).2 keyCut third
  exact endsInInk_of_next (Method.only_of_parse? verb).2 verbCut second

/-- A line that ends in its size is a header without anything behind it. -/
theorem begins_nil_iff (carries : header.method.carriesValue = true) :
    header.Begins line [] ↔ parse line = .ok header ∧ EndsInInk line := by
  rw [parse_eq_ok_iff_begins carries]
  constructor
  · intro begins
    exact ⟨⟨[], begins, rfl⟩, begins.endsInInk endsInInk_nil⟩
  · rintro ⟨⟨rest, begins, blank⟩, ends⟩
    obtain rfl := eq_nil_of_allBlank blank (endsInInk_of_suffix begins.suffix ends)
    exact begins

/-- Holds of a text made of a header, one blank and a value; without a value the blank may be
missing too. -/
def Precedes (header : Header) (value text : Bytes) : Prop :=
  ∃ line separator, text = line ++ separator ++ value ∧
    parse line = .ok header ∧ EndsInInk line ∧
    ((∃ octet, separator = [octet] ∧ isBlank octet = true) ∨ (separator = [] ∧ value = []))

/-- The value is what stands behind the header, the first blank left out. -/
theorem precedes_iff (carries : header.method.carriesValue = true) :
    header.Precedes value text ↔
      ∃ rest, header.Begins text rest ∧ Instruction.afterBlank rest = value := by
  constructor
  · rintro ⟨line, separator, rfl, read, ends, parted⟩
    have begins := (begins_nil_iff carries).mpr ⟨read, ends⟩
    refine ⟨separator ++ value, ?_, ?_⟩
    · have detached : Detached (separator ++ value) := by
        rcases parted with ⟨octet, rfl, blank⟩ | ⟨rfl, rfl⟩
        · exact detached_cons blank value
        · exact detached_nil
      -- The header ends where its line does, so that line is all that goes in front.
      rw [List.append_assoc]
      change header.Begins _ ([] ++ (separator ++ value))
      exact (begins_append_iff detached).mpr begins
    · rcases parted with ⟨octet, rfl, blank⟩ | ⟨rfl, rfl⟩
      · simp [Instruction.afterBlank, blank]
      · rfl
  · rintro ⟨rest, begins, rfl⟩
    obtain ⟨line, rfl⟩ := begins.suffix
    have alone : header.Begins line [] := (begins_append_iff begins.detached).mp begins
    obtain ⟨read, ends⟩ := (begins_nil_iff carries).mp alone
    cases rest with
    | nil => exact ⟨line, [], by simp [Instruction.afterBlank], read, ends, .inr ⟨rfl, rfl⟩⟩
    | cons octet rest =>
      have blank : isBlank octet = true := begins.detached octet rfl
      exact ⟨line, [octet], by simp [Instruction.afterBlank, blank], read, ends,
        .inl ⟨octet, rfl, blank⟩⟩

end Header

namespace Instruction

/-- Only the verb of a request makes it. -/
theorem verb_of_request {arguments : Bytes}
    (made : ofVerb verb arguments = .ok (.request request)) :
    verb = .ofMethod request.method := by
  cases verb with
  | connect =>
    simp only [ofVerb] at made
    split at made <;> exact nomatch made
  | disconnect | help | quit => exact nomatch made
  | read | delete =>
    simp only [ofVerb, naming] at made
    split at made
    · exact nomatch made
    · obtain rfl := Instruction.request.inj (Except.ok.inj made)
      rfl
  | create | update =>
    simp only [ofVerb, carrying] at made
    split at made
    · exact nomatch made
    · split at made
      · obtain rfl := Instruction.request.inj (Except.ok.inj made)
        rfl
      · exact nomatch made

/-- A line is a request if a server would take its first token for the verb and the rest makes the
request. -/
theorem parse_eq_request_iff : parse line = .ok (some (.request request)) ↔
    Method.parse? (next line.stripLineEnd).1 = some request.method ∧
      ofVerb (.ofMethod request.method) (next line.stripLineEnd).2 = .ok (.request request) := by
  unfold parse splitVerb
  constructor
  · intro read
    simp only at read
    split at read
    next => exact nomatch read
    next =>
      split at read
      next => exact nomatch read
      next verb found =>
        cases made : ofVerb verb (next line.stripLineEnd).2 with
        | error reason => simp [made, Except.map] at read
        | ok instruction =>
          simp only [made, Except.map, Except.ok.injEq, Option.some.injEq] at read
          subst read
          obtain rfl := verb_of_request made
          exact ⟨Verb.parse?_eq_ofMethod_iff.mp found, made⟩
  · rintro ⟨read, made⟩
    have filled := (Method.only_of_parse? read).2
    have found := Verb.parse?_eq_ofMethod_iff.mpr read
    simp [filled, found, made, Except.map]

theorem onlyKey?_eq_some_iff : onlyKey? text = some key ↔
    Key.parse? (next text).1 = some key ∧ allBlank (next text).2 = true := by
  simp only [onlyKey?, Option.bind_eq_some_iff, Option.ite_none_right_eq_some, Option.some.injEq]
  constructor
  · rintro ⟨found, read, blank, rfl⟩
    exact ⟨read, blank⟩
  · rintro ⟨read, blank⟩
    exact ⟨key, read, blank, rfl⟩

/-- A key that stands alone is what follows the verb in a header without a size. -/
theorem onlyKey?_iff_arguments? (carries : method.carriesValue = false) :
    onlyKey? text = some key ↔ Header.arguments? method text = some ⟨method, key, 0⟩ := by
  rw [onlyKey?_eq_some_iff, Header.arguments?_eq_some_iff, Header.size?_of_no_value carries]
  constructor
  · rintro ⟨read, blank⟩
    exact ⟨rfl, read, _, rfl, blank⟩
  · rintro ⟨-, read, rest, sized, blank⟩
    obtain rfl := (Prod.mk.inj (Option.some.inj sized)).2
    exact ⟨read, blank⟩

theorem binding?_eq_some_iff : binding? text = some (key, size, value) ↔
    Key.parse? (next text).1 = some key ∧ Numeral.size? (next (next text).2).1 = some size ∧
      afterBlank (next (next text).2).2 = value := by
  simp only [binding?, Option.bind_eq_some_iff, Option.map_eq_some_iff, Prod.mk.injEq]
  constructor
  · rintro ⟨found, keyRead, number, sizeRead, rfl, rfl, rfl⟩
    exact ⟨keyRead, sizeRead, rfl⟩
  · rintro ⟨keyRead, sizeRead, rfl⟩
    exact ⟨key, keyRead, size, sizeRead, rfl, rfl, rfl⟩

/-- A line that names a key only is a request if it is a header without a size. -/
theorem parse_naming_iff {make : Key → Request} (carries : method.carriesValue = false)
    (named : (make key).method = method)
    (names : ofVerb (.ofMethod method) = naming make (.ofMethod method))
    (distinct : ∀ other, make other = make key → other = key) :
    parse line = .ok (some (.request (make key))) ↔
      Header.parse line.stripLineEnd = .ok ⟨method, key, 0⟩ := by
  rw [parse_eq_request_iff, Header.parse_eq_ok_iff, named, ← onlyKey?_iff_arguments? carries, names]
  refine and_congr_right fun _ => ?_
  unfold naming
  constructor
  · intro made
    split at made
    next => exact nomatch made
    next other found =>
      rw [found, distinct other (Instruction.request.inj (Except.ok.inj made))]
  · intro read
    rw [read]

/-- A line that carries a value is a request if it is a header in front of the value. -/
theorem parse_carrying_iff {make : Key → Bytes → Request} (carries : method.carriesValue = true)
    (named : (make key value).method = method)
    (names : ofVerb (.ofMethod method) = carrying make (.ofMethod method))
    (distinct : ∀ other found, make other found = make key value → other = key ∧ found = value) :
    parse line = .ok (some (.request (make key value))) ↔
      Header.Precedes ⟨method, key, value.length⟩ value line.stripLineEnd := by
  rw [parse_eq_request_iff, Header.precedes_iff carries, named, names]
  -- The length of the value is checked against the size last, so the value is bound with its size.
  have bound : carrying make (.ofMethod method) (next line.stripLineEnd).2 =
      .ok (.request (make key value)) ↔
      binding? (next line.stripLineEnd).2 = some (key, value.length, value) := by
    unfold carrying
    constructor
    · intro made
      split at made
      next => exact nomatch made
      next other declared found read =>
        split at made
        next size =>
          obtain ⟨rfl, rfl⟩ := distinct other found (Instruction.request.inj (Except.ok.inj made))
          rw [read, size]
        next => exact nomatch made
    · intro read
      simp [read]
  rw [bound, binding?_eq_some_iff]
  constructor
  · rintro ⟨verb, keyRead, sizeRead, behind⟩
    exact ⟨_, ⟨_, _, _, _, _, rfl, verb, rfl, keyRead, rfl, sizeRead⟩, behind⟩
  · rintro ⟨rest, ⟨_, _, _, _, _, verbCut, verb, keyCut, keyRead, sizeCut, sizeRead⟩, behind⟩
    simp only [verbCut, keyCut, sizeCut]
    exact ⟨verb, keyRead, sizeRead, behind⟩

/-- What a user types for a request is what a server reads as the header of it, followed by the
value if there is one. -/
theorem parse_request_iff (line : Bytes) (key : Key) :
    (parse line = .ok (some (.request (.read key))) ↔
      Header.parse line.stripLineEnd = .ok ⟨.read, key, 0⟩) ∧
    (parse line = .ok (some (.request (.delete key))) ↔
      Header.parse line.stripLineEnd = .ok ⟨.delete, key, 0⟩) ∧
    ∀ value : Bytes,
      (parse line = .ok (some (.request (.create key value))) ↔
        Header.Precedes ⟨.create, key, value.length⟩ value line.stripLineEnd) ∧
      (parse line = .ok (some (.request (.update key value))) ↔
        Header.Precedes ⟨.update, key, value.length⟩ value line.stripLineEnd) := by
  refine ⟨?_, ?_, fun value => ⟨?_, ?_⟩⟩
  · exact parse_naming_iff rfl rfl rfl fun other => Request.read.inj
  · exact parse_naming_iff rfl rfl rfl fun other => Request.delete.inj
  · exact parse_carrying_iff rfl rfl rfl fun other found => Request.create.inj
  · exact parse_carrying_iff rfl rfl rfl fun other found => Request.update.inj

end Instruction

end WireStore
