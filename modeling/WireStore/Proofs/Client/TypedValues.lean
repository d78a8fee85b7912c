import WireStore.Proofs.Client.UserLines
import WireStore.Proofs.Frame.Grammar
import WireStore.Proofs.Frame.Stages

/-!
# Values as they are typed

A user who types a value announces its size, and the value is what stands behind the one blank that
follows the size. The tokens in front of it are looked for from the left and the line end from the
right, so a value may contain anything: blanks at either end, line ends, octets that are no text
(`parse_typed`). Only what ends the line is dropped, and where no line end stands it is the last
carriage return of the value that is taken for one (`parse_typed_unterminated`).
-/

namespace WireStore

open Ascii Token

/-- The blanks of a line that carries a value. -/
structure Spacing where
  /-- What stands in front of the verb. -/
  indent : Bytes
  beforeKey : Bytes
  beforeSize : Bytes
  /-- The one blank in front of the value. -/
  separator : UInt8
  indented : Blanks indent
  keyParted : Gap beforeKey
  sizeParted : Gap beforeSize
  blank : isBlank separator = true

namespace Spacing

/-- One space between any two tokens, and one in front of the value. -/
def single : Spacing where
  indent := []
  beforeKey := [32]
  beforeSize := [32]
  separator := 32
  indented := by decide
  keyParted := by decide
  sizeParted := by decide
  blank := by decide

/-- The tokens in front of a value, with the blanks between them. -/
def head (spacing : Spacing) (verb : Bytes) (key : Key) (size : Bytes) : Bytes :=
  spacing.indent ++ (verb ++ (spacing.beforeKey ++ key.text)) ++ (spacing.beforeSize ++ size)

/-- A line that carries a value, without a line end. -/
def line (spacing : Spacing) (verb : Bytes) (key : Key) (size value : Bytes) : Bytes :=
  spacing.head verb key size ++ spacing.separator :: value

end Spacing

variable {line head tail verb count value ending : Bytes} {separator octet : UInt8} {key : Key}
  {size : Nat} {header : Header} {request : Request}

/-- The tokens in front of a value are written as a header. -/
theorem Spacing.spelled (spacing : Spacing) {method : Method} (carries : method.carriesValue = true)
    (named : sameIgnoringCase (Utf8.encode method.word) verb = true) (key : Key)
    (denotes : Numeral.Denotes count size) (small : size < 2 ^ 64) :
    Header.Spelled ⟨method, key, size⟩ (spacing.head verb key count) :=
  .sized carries (.intro spacing.indented named spacing.keyParted key.denotesInteger_text)
    spacing.sizeParted denotes small

/-! ## The line end -/

namespace Bytes

theorem stripLast_append_cons (differs : separator ≠ octet) (head value : Bytes) :
    stripLast octet (head ++ separator :: value) = head ++ separator :: stripLast octet value := by
  unfold stripLast
  cases last : value.getLast? with
  | none =>
    obtain rfl := List.getLast?_eq_none_iff.mp last
    simp [differs]
  | some final =>
    obtain ⟨front, rfl⟩ := List.getLast?_eq_some_iff.mp last
    have whole : head ++ separator :: (front ++ [final]) =
        (head ++ separator :: front) ++ [final] := by simp
    rw [whole, List.getLast?_concat, List.dropLast_concat, List.dropLast_concat]
    split
    · rfl
    · exact whole.symm

end Bytes

namespace Instruction

/-! ## Lines that carry a value -/

theorem ofVerb_of_binding {method : Method} {arguments : Bytes}
    (carries : method.carriesValue = true)
    (bound : binding? arguments = some (key, size, value)) :
    ofVerb (.ofMethod method) arguments =
      if value.length = size then .ok (.request (.ofHeader ⟨method, key, size⟩ value))
      else .error (.sizeMismatch size value.length) := by
  cases method with
  | create | update => simp only [Verb.ofMethod, ofVerb, carrying, bound, Request.ofHeader]
  | read | delete => cases carries

/-- A line that begins with a header is the request that the header makes with the rest, if the rest
is as long as announced. -/
theorem parse_of_spelled (carries : header.method.carriesValue = true)
    (spelled : header.Spelled head) (detached : Detached tail)
    (text : line.stripLineEnd = head ++ tail) :
    parse line =
      if (afterBlank tail).length = header.size then
        .ok (some (.request (.ofHeader header (afterBlank tail))))
      else .error (.sizeMismatch header.size (afterBlank tail).length) := by
  obtain ⟨verb, afterVerb, key, afterKey, count, verbCut, named, keyCut, keyRead, sizeCut,
    sizeRead⟩ := (Header.begins_iff carries).mpr ⟨detached, head, spelled, text⟩
  have bound : binding? afterVerb = some (header.key, header.size, afterBlank tail) := by
    rw [binding?_eq_some_iff, keyCut, sizeCut]
    exact ⟨keyRead, sizeRead, rfl⟩
  have filled : verb.isEmpty = false := by simpa using (Method.only_of_parse? named).2
  simp only [parse, splitVerb, verbCut, filled, Bool.false_eq_true, if_false,
    Verb.parse?_eq_ofMethod_iff.mpr named, ofVerb_of_binding carries bound]
  split <;> rfl

/-! ## Typed values -/

/-- Holds of what may end a line behind a value. -/
def Ends (value ending : Bytes) : Prop :=
  ending = [Bytes.carriageReturn, Bytes.lineFeed] ∨
    ending = [Bytes.lineFeed] ∧ value.getLast? ≠ some Bytes.carriageReturn

theorem afterBlank_cons (blank : isBlank separator = true) (value : Bytes) :
    afterBlank (separator :: value) = value := by
  rw [afterBlank, if_pos blank]

/-- Nothing of a value is taken for the end of its line. If the value is empty, the separator may
be, and nothing is lost. -/
theorem exists_stripLineEnd (blank : isBlank separator = true) (ends : Ends value ending) :
    ∃ tail, (head ++ separator :: value ++ ending).stripLineEnd = head ++ tail ∧
      Detached tail ∧ afterBlank tail = value := by
  have whole : Detached (separator :: value) ∧ afterBlank (separator :: value) = value :=
    ⟨detached_cons blank value, afterBlank_cons blank value⟩
  rcases ends with rfl | ⟨rfl, kept⟩
  · refine ⟨separator :: value, ?_, whole⟩
    rw [List.append_cons (head ++ separator :: value), Bytes.stripLineEnd_append_lineFeed,
      Bytes.stripLast_append_self]
  · rw [Bytes.stripLineEnd_append_lineFeed]
    by_cases lost : value = [] ∧ separator = Bytes.carriageReturn
    · obtain ⟨rfl, rfl⟩ := lost
      exact ⟨[], by rw [Bytes.stripLast_append_self, List.append_nil], detached_nil, rfl⟩
    · refine ⟨separator :: value, Bytes.stripLast_of_getLast? ?_, whole⟩
      cases last : value.getLast? with
      | none =>
        obtain rfl := List.getLast?_eq_none_iff.mp last
        simpa using lost
      | some final =>
        rw [List.getLast?_append, List.getLast?_cons, last]
        rwa [last] at kept

theorem ofHeader_of_value? (carried : request.value? = some value) (size : Nat) :
    request.method.carriesValue = true ∧
      Request.ofHeader ⟨request.method, request.key, size⟩ value = request := by
  cases request with
  | create | update =>
    obtain rfl := Option.some.inj carried
    exact ⟨rfl, rfl⟩
  | read | delete => exact nomatch carried

/-- A typed value is taken as it is, whatever it is made of, if its size is the one announced. -/
theorem parse_typed (spacing : Spacing) (carried : request.value? = some value)
    (named : sameIgnoringCase (Utf8.encode request.method.word) verb = true)
    (ends : Ends value ending) :
    (value.length < 2 ^ 64 →
      parse (spacing.line verb request.key (Numeral.digits value.length) value ++ ending) =
        .ok (some (.request request))) ∧
    ∀ count declared, Numeral.Denotes count declared → declared < 2 ^ 64 →
      parse (spacing.line verb request.key count value ++ ending) =
        if value.length = declared then .ok (some (.request request))
        else .error (.sizeMismatch declared value.length) := by
  have typed (count : Bytes) (declared : Nat) (denotes : Numeral.Denotes count declared)
      (small : declared < 2 ^ 64) :
      parse (spacing.line verb request.key count value ++ ending) =
        if value.length = declared then .ok (some (.request request))
        else .error (.sizeMismatch declared value.length) := by
    obtain ⟨carries, made⟩ := ofHeader_of_value? carried declared
    have spelled := spacing.spelled carries named request.key denotes small
    obtain ⟨tail, text, detached, behind⟩ :=
      @exists_stripLineEnd (spacing.head verb request.key count) value ending spacing.separator
        spacing.blank ends
    have parsed := parse_of_spelled carries spelled detached text
    rw [behind, made] at parsed
    exact parsed
  refine ⟨fun small => ?_, typed⟩
  rw [typed _ _ (Numeral.denotes_digits value.length) small, if_pos rfl]

/-- A value that begins with blanks, ends in a carriage return and has a line feed and an octet
in it that is no text. -/
theorem parse_typed_of_blank_value :
    let spacing : Spacing :=
      ⟨[9, 32], [12], [32, 13], 10, by decide, by decide, by decide, by decide⟩
    let value : Bytes := [32, 10, 255, 13]
    let ending : Bytes := [Bytes.carriageReturn, Bytes.lineFeed]
    parse (spacing.line (Utf8.encode "cReAtE") (-7) (Numeral.digits 4) value ++ ending) =
        .ok (some (.request (.create (-7) value))) ∧
      parse (spacing.line (Utf8.encode "cReAtE") (-7) (Utf8.encode "05") value ++ ending) =
        .error (.sizeMismatch 5 4) := by
  intro spacing value ending
  have carried : (Request.create (-7) value).value? = some value := rfl
  have named : sameIgnoringCase (Utf8.encode Method.create.word) (Utf8.encode "cReAtE") = true := by
    decide
  have ends : Ends value ending := .inl rfl
  obtain ⟨whole, other⟩ := parse_typed spacing carried named ends
  refine ⟨whole (by decide), ?_⟩
  exact other _ 5 (.more (.single rfl) rfl) (by decide)

/-! ## Lines that nothing ends -/

theorem stripLineEnd_of_unbroken (unbroken : Bytes.lineFeed ∉ value) (head : Bytes) :
    (head ++ 32 :: value).stripLineEnd =
      head ++ 32 :: value.stripLast Bytes.carriageReturn := by
  have kept : value.stripLast Bytes.lineFeed = value :=
    Bytes.stripLast_of_getLast? fun last => unbroken (List.mem_of_getLast? last)
  rw [Bytes.stripLineEnd, Bytes.stripLast_append_cons (by decide), kept,
    Bytes.stripLast_append_cons (by decide)]

/-- On a line that nothing ends, a value keeps all but a carriage return at its end. That one is
taken for a part of a line end, and the value is then too short for its size. -/
theorem parse_typed_unterminated (carried : request.value? = some value)
    (named : sameIgnoringCase (Utf8.encode request.method.word) verb = true)
    (unbroken : Bytes.lineFeed ∉ value) (small : value.length < 2 ^ 64) :
    parse (Spacing.single.line verb request.key (Numeral.digits value.length) value) =
      if value.getLast? = some Bytes.carriageReturn then
        .error (.sizeMismatch value.length (value.length - 1))
      else .ok (some (.request request)) := by
  obtain ⟨carries, -⟩ := ofHeader_of_value? carried value.length
  have spelled := Spacing.single.spelled carries named request.key
    (Numeral.denotes_digits value.length) small
  have parsed := parse_of_spelled carries spelled (detached_cons (by decide) _)
    (stripLineEnd_of_unbroken unbroken _)
  rw [afterBlank_cons (by decide)] at parsed
  split
  next last =>
    obtain ⟨front, rfl⟩ := List.getLast?_eq_some_iff.mp last
    have short : (front ++ [Bytes.carriageReturn]).length - 1 = front.length := by simp
    rw [Bytes.stripLast_append_self, if_neg (by simp)] at parsed
    rw [short]
    exact parsed
  next kept =>
    rw [Bytes.stripLast_of_getLast? kept, if_pos rfl, (ofHeader_of_value? carried _).2] at parsed
    exact parsed

theorem parse_typed_unterminated_of_words :
    let value := Utf8.encode " a\r b "
    parse (Spacing.single.line (Utf8.encode "update") 3 (Numeral.digits value.length) value) =
      .ok (some (.request (.update 3 value))) := by
  intro value
  have carried : (Request.update 3 value).value? = some value := rfl
  have named : sameIgnoringCase (Utf8.encode Method.update.word) (Utf8.encode "update") = true := by
    decide
  have parsed := parse_typed_unterminated carried named (by decide +kernel) (by decide +kernel)
  rwa [if_neg (by decide +kernel)] at parsed

/-- A carriage return alone is a value that is lost with the end of the input. -/
theorem typed_value_cut_short : ¬∀ (key : Key) (value : Bytes), Bytes.lineFeed ∉ value →
    parse (Spacing.single.line (Utf8.encode "create") key (Numeral.digits value.length) value) =
      .ok (some (.request (.create key value))) := by
  intro kept
  have whole := kept 1 [Bytes.carriageReturn] (by decide)
  have short : parse (Spacing.single.line (Utf8.encode "create") 1 (Numeral.digits 1)
      [Bytes.carriageReturn]) = .error (.sizeMismatch 1 0) := by decide +kernel
  exact nomatch whole.symm.trans short

end Instruction

end WireStore
