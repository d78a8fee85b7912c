import WireStore.Proofs.Frame.Opening

/-!
# Lines at their limit

A header line is read in two stages, of which the first is bounded and the second is not. From
outside this cannot be told: wherever the bound falls among the last bytes of a line, the line is
what stands before the first line feed, less one carriage return, and only then is it measured.
`read_exact` says so of every source, and that the source is left behind that line feed; if there is
none, all bytes are gone up to the first fault, or up to the end.
-/

namespace WireStore

namespace Signal

/-- The octets before the first fault, and what is signalled from that fault on. -/
def lead : List Signal → Bytes × List Signal
  | octet value :: signals => (value :: (lead signals).1, (lead signals).2)
  | signals => ([], signals)

theorem octets_lead (signals : List Signal) :
    octets (lead signals).1 ++ (lead signals).2 = signals := by
  induction signals with
  | nil => rfl
  | cons signal signals ih =>
    cases signal with
    | octet value => exact congrArg (octet value :: ·) ih
    | fault reason => rfl

/-- Behind the octets nothing follows, or a fault does. -/
theorem lead_cases (signals : List Signal) :
    (lead signals).2 = [] ∨ ∃ reason later, (lead signals).2 = fault reason :: later := by
  induction signals with
  | nil => exact .inl rfl
  | cons signal signals ih =>
    cases signal with
    | octet value => exact ih
    | fault reason => exact .inr ⟨reason, signals, rfl⟩

end Signal

namespace Line

/-- Whatever a source delivers, and in whatever chunks, a line with its line feed is cut off what
comes before the first fault. It is given back if it is within the limit without its carriage
return, and is reported as too long otherwise. Where no line feed comes, the fault is passed on, and
the end of the source is told from a line that was broken off. There is no third case. -/
theorem read_exact (maxLength : Nat) (source : Source) :
    let bytes := (Signal.lead source.signals).1
    let behind := (Signal.lead source.signals).2
    let result := (read maxLength source).1
    let rest := (read maxLength source).2
    (∃ line tail, Bytes.Unbroken line ∧ bytes = line ++ Bytes.lineFeed :: tail ∧
      let content := Bytes.stripLast Bytes.carriageReturn line
      result = .ok (if content.length ≤ maxLength then .complete content else .tooLong) ∧
        rest.signals = Signal.octets tail ++ behind) ∨
    (Bytes.Unbroken bytes ∧
      match behind with
      | .fault reason :: later => result = .error (.io reason) ∧ rest.signals = later
      | _ => result = (if bytes = [] then .ok .ended else .error (.io .brokenLine)) ∧
        rest.signals = []) := by
  intro bytes behind result rest
  have same : Signal.octets bytes ++ behind = source.signals := Signal.octets_lead source.signals
  cases cut : Bytes.cutLine? bytes with
  | some parts =>
    obtain ⟨line, tail⟩ := parts
    obtain ⟨unbroken, whole⟩ := Bytes.cutLine?_eq_some_iff.mp cut
    have arrives : source.signals =
        Signal.octets line ++ .octet Bytes.lineFeed :: (Signal.octets tail ++ behind) := by
      rw [← same, whole, Signal.octets_append, Signal.octets_cons, List.append_assoc,
        List.cons_append]
    obtain ⟨after, found, left⟩ := read_of_line maxLength unbroken arrives
    have parts : result = .ok (ofLine maxLength line) ∧ rest = after := Prod.mk.inj found
    refine .inl ⟨line, tail, unbroken, whole, ?_⟩
    rw [parts.1, parts.2]
    exact ⟨rfl, left⟩
  | none =>
    have unbroken : Bytes.Unbroken bytes := Bytes.cutLine?_eq_none_iff.mp cut
    refine .inr ⟨unbroken, ?_⟩
    rcases Signal.lead_cases source.signals with nothing | ⟨reason, later, raised⟩
    · have ends : behind = [] := nothing
      rw [ends] at same ⊢
      rw [List.append_nil] at same
      obtain ⟨after, found, left⟩ := read_to_end maxLength unbroken same.symm
      have parts : result = ofEnd bytes ∧ rest = after := Prod.mk.inj found
      rw [parts.1, parts.2]
      refine ⟨?_, left⟩
      cases bytes with
      | nil => rfl
      | cons => rfl
    · have breaks : behind = .fault reason :: later := raised
      rw [breaks] at same ⊢
      obtain ⟨after, found, left⟩ := read_of_fault maxLength unbroken same.symm
      have parts : result = .error (.io reason) ∧ rest = after := Prod.mk.inj found
      rw [parts.1, parts.2]
      exact ⟨rfl, left⟩

/-- A line that fills its limit, with an interruption inside its line end. -/
example :
    (read 3 (.chunk [97, 98, 99, 13] (.fault ⟨.interrupted, "again"⟩ (.ofBytes [10, 100])))).1 =
      .ok (.complete [97, 98, 99]) := rfl

end Line

end WireStore
