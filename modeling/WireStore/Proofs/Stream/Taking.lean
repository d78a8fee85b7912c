import WireStore.Proofs.Stream.Signals
import WireStore.Stream.Reader

/-!
# What a reader takes

A reader takes some bytes for a result if it comes to that result wherever these
bytes come next, and leaves whatever is behind them: other bytes, the end of the
source, or a fault, which is still to be raised. Such a reader has asked for
nothing behind the bytes it took, so one that waits for the result before it
sends more is never waited for.

`Takes.andThen` puts the stages of a frame together, `outcomes_of_takes` the
frames of a stream that one reader takes, and `inTurn_of_takes` those that are
taken by a reader each.
-/

namespace WireStore.Reader

variable {α β γ : Type} {front back : Bytes} {source : Source} {more : List Signal}

/-- Holds if a reader takes the bytes `front`, and no others, for `result`. -/
def Takes (reader : Source → β × Source) (front : Bytes) (result : β) : Prop :=
  ∀ source more, source.signals = Signal.octets front ++ more →
    ∃ rest, reader source = (result, rest) ∧ rest.signals = more

/-- A reader that decides from what another found how to go on takes what both take. -/
theorem Takes.andThen {reader : Source → γ × Source} {first : Source → β × Source}
    {next : Source → γ × Source} {found : β} {result : γ}
    (head : Takes first front found) (tail : Takes next back result)
    (goesOn : ∀ source rest, first source = (found, rest) → reader source = next rest) :
    Takes reader (front ++ back) result := by
  intro source more same
  rw [Signal.octets_append, List.append_assoc] at same
  obtain ⟨behind, here, left⟩ := head source _ same
  obtain ⟨rest, there, last⟩ := tail behind more left
  exact ⟨rest, (goesOn source behind here).trans there, last⟩

/-- A reader that only says otherwise what another found takes what that one takes. -/
theorem Takes.restate {reader : Source → γ × Source} {first : Source → β × Source} {found : β}
    {result : γ} (head : Takes first front found)
    (follows : ∀ source rest, first source = (found, rest) → reader source = (result, rest)) :
    Takes reader front result := by
  intro source more same
  obtain ⟨rest, here, left⟩ := head source more same
  exact ⟨rest, follows source rest here, left⟩

/-- A reader that says the same of every source takes nothing for it. -/
theorem takes_nil (result : β) : Takes (fun source => (result, source)) [] result :=
  fun source _ same => ⟨source, rfl, same⟩

/-- Where a reader takes the bytes of one item after another, it reads them item by item, and
then what is behind them. -/
theorem outcomes_of_takes {ι : Type} {reader : Reader α} {goesOn : Except Error α → Bool}
    {items : List ι} {bytes : ι → Bytes} {result : ι → Except Error α}
    (takes : ∀ item ∈ items, Takes reader (bytes item) (result item))
    (goes : ∀ item ∈ items, goesOn (result item) = true)
    (same : source.signals = Signal.octets (items.flatMap bytes) ++ more) :
    ∃ readings last,
      (∀ further, outcomes reader goesOn (items.length + further) source =
        readings ++ outcomes reader goesOn further last) ∧
      readings.map Prod.fst = items.map result ∧
      (readings.map Prod.snd).getLastD source = last ∧
      last.signals = more := by
  induction items generalizing source with
  | nil =>
    refine ⟨[], source, fun further => ?_, rfl, rfl, same⟩
    rw [List.length_nil, Nat.zero_add, List.nil_append]
  | cons item items ih =>
    rw [List.flatMap_cons, Signal.octets_append, List.append_assoc] at same
    obtain ⟨rest, read, left⟩ := takes item List.mem_cons_self source _ same
    obtain ⟨readings, last, later, results, ends, signals⟩ :=
      ih (fun other mem => takes other (List.mem_cons_of_mem _ mem))
        (fun other mem => goes other (List.mem_cons_of_mem _ mem)) left
    refine ⟨(result item, rest) :: readings, last, fun further => ?_, ?_, ?_, signals⟩
    · have count : (item :: items).length + further = (items.length + further) + 1 := by
        simp only [List.length_cons]
        omega
      have here := later further
      unfold outcomes at here ⊢
      rw [count, List.replicate_succ]
      simp only [inTurn, read, goes item List.mem_cons_self, if_true, List.cons_append]
      rw [here]
    · rw [List.map_cons, List.map_cons, results]
    · rw [List.map_cons, List.getLastD_cons, ends]

/-- Where each of some readers takes the bytes of its own item, what is left after each of them
begins with the bytes of the next item. -/
theorem inTurn_of_takes {ι : Type} {reader : ι → Reader α} {goesOn : Except Error α → Bool}
    {items : List ι} {bytes : ι → Bytes} {result : ι → Except Error α}
    (takes : ∀ item ∈ items, Takes (reader item) (bytes item) (result item))
    (goes : ∀ item ∈ items, goesOn (result item) = true)
    (same : source.signals = Signal.octets (items.flatMap bytes) ++ more) :
    let readings := inTurn goesOn (items.map reader) source
    readings.map Prod.fst = items.map result ∧
      ∀ index found rest, readings[index]? = some (found, rest) →
        rest.signals = Signal.octets ((items.drop (index + 1)).flatMap bytes) ++ more := by
  induction items generalizing source with
  | nil => exact ⟨rfl, fun index found rest here => nomatch here⟩
  | cons item items ih =>
    rw [List.flatMap_cons, Signal.octets_append, List.append_assoc] at same
    obtain ⟨after, read, left⟩ := takes item List.mem_cons_self source _ same
    obtain ⟨results, unread⟩ := ih (fun other mem => takes other (List.mem_cons_of_mem _ mem))
      (fun other mem => goes other (List.mem_cons_of_mem _ mem)) left
    simp only [List.map_cons, inTurn, read, goes item List.mem_cons_self, if_true]
    refine ⟨by rw [results], fun index found rest here => ?_⟩
    cases index with
    | zero =>
      obtain ⟨rfl, rfl⟩ := Prod.mk.inj (Option.some.inj here)
      exact left
    | succ index => exact unread index found rest here

end WireStore.Reader
