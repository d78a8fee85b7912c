import WireStore.Stream.Source.Lemmas

/-!
# What a source signals

Chunks and interruptions are how a source delivers, not what it delivers. Its
signals are what is left without them: the octets in order, and each other fault
at the position at which it is raised. `scan_signals` says that a scan is a
function of the signals: it takes the same bytes, stops the same way and leaves
the same signals as a scan of the list of signals does. Everything read from a
source is read by scans, so statements about readers are proved on lists.
-/

namespace WireStore

/-- What a reader can meet at a position of a source. -/
inductive Signal where
  | octet (value : UInt8)
  /-- A fault that is no interruption. -/
  | fault (reason : Fault)
  deriving DecidableEq, Repr

namespace Signal

/-- The signals of some bytes. -/
def octets (bytes : Bytes) : List Signal := bytes.map octet

/-- The byte that a signal delivers. -/
def value? : Signal → Option UInt8
  | octet value => some value
  | fault _ => none

/-- Takes bytes up to and including the first that satisfies `ends`, at most `limit` of them:
the bytes, how that stopped, and the signals left. -/
def scan (ends : UInt8 → Bool) : Option Nat → List Signal → Bytes × Stop × List Signal
  | limit, [] => ([], if limit = some 0 then .full else .ended, [])
  | limit, fault reason :: rest =>
    if limit = some 0 then ([], .full, fault reason :: rest) else ([], .fault reason, rest)
  | limit, octet value :: rest =>
    if limit = some 0 then ([], .full, octet value :: rest)
    else if ends value then ([value], .found, rest)
    else
      let (taken, stop, left) := scan ends (limit.map (· - 1)) rest
      (value :: taken, stop, left)

variable {ends : UInt8 → Bool} {limit : Option Nat} {bytes : Bytes} {signals : List Signal}

@[simp]
theorem octets_nil : octets [] = [] := rfl

@[simp]
theorem octets_cons (value : UInt8) (bytes : Bytes) :
    octets (value :: bytes) = octet value :: octets bytes := rfl

theorem octets_append (first second : Bytes) :
    octets (first ++ second) = octets first ++ octets second :=
  List.map_append

theorem filterMap_octets (bytes : Bytes) : (octets bytes).filterMap value? = bytes := by
  simp [octets, List.filterMap_map, Function.comp_def, value?]

theorem scan_zero (ends : UInt8 → Bool) (signals : List Signal) :
    scan ends (some 0) signals = ([], .full, signals) := by
  rcases signals with _ | ⟨_ | _, _⟩ <;> simp [scan]

/-- A scan goes past octets that do not satisfy `ends`, as far as the limit allows. -/
theorem scan_octets (clear : ∀ value ∈ bytes, ends value = false)
    (fits : ∀ bound, limit = some bound → bytes.length ≤ bound) :
    scan ends limit (octets bytes ++ signals) =
      (bytes ++ (scan ends (limit.map (· - bytes.length)) signals).1,
        (scan ends (limit.map (· - bytes.length)) signals).2) := by
  induction bytes generalizing limit with
  | nil => cases limit <;> simp
  | cons value bytes ih =>
    have positive : limit ≠ some 0 := by
      intro zero
      exact absurd (fits 0 zero) (by simp)
    have later := @ih (limit.map (· - 1))
      (fun value mem => clear value (List.mem_cons_of_mem _ mem)) (by
        intro bound less
        obtain ⟨whole, rfl, rfl⟩ := Option.map_eq_some_iff.mp less
        have := fits whole rfl
        simp only [List.length_cons] at this
        omega)
    have shift : (limit.map (· - 1)).map (· - bytes.length) =
        limit.map (· - (value :: bytes).length) := by
      cases limit with
      | none => rfl
      | some bound =>
        simp only [Option.map_some, List.length_cons, Option.some.injEq]
        omega
    rw [shift] at later
    simp only [octets_cons, List.cons_append, scan, positive, if_false,
      clear value List.mem_cons_self, Bool.false_eq_true, later]

/-- A limit above the number of bytes passed leaves room for another. -/
theorem room_left (fits : ∀ bound, limit = some bound → bytes.length < bound) :
    limit.map (· - bytes.length) ≠ some 0 := by
  intro zero
  obtain ⟨bound, rfl, used⟩ := Option.map_eq_some_iff.mp zero
  have := fits bound rfl
  omega

theorem scan_found (ends : UInt8 → Bool) (limit : Option Nat) {last : UInt8}
    (clear : ∀ value ∈ bytes, ends value = false)
    (here : ends last = true) (fits : ∀ bound, limit = some bound → bytes.length < bound) :
    scan ends limit (octets bytes ++ octet last :: signals) =
      (bytes ++ [last], .found, signals) := by
  rw [scan_octets clear fun bound same => Nat.le_of_lt (fits bound same)]
  simp [scan, room_left fits, here]

theorem scan_full (ends : UInt8 → Bool) (bytes : Bytes) (signals : List Signal)
    (clear : ∀ value ∈ bytes, ends value = false) :
    scan ends (some bytes.length) (octets bytes ++ signals) = (bytes, .full, signals) := by
  rw [scan_octets clear (by simp)]
  simp [scan_zero]

theorem scan_ended (ends : UInt8 → Bool) (limit : Option Nat)
    (clear : ∀ value ∈ bytes, ends value = false)
    (fits : ∀ bound, limit = some bound → bytes.length < bound) :
    scan ends limit (octets bytes) = (bytes, .ended, []) := by
  have whole := @scan_octets ends limit bytes [] clear
    fun bound same => Nat.le_of_lt (fits bound same)
  rw [List.append_nil] at whole
  rw [whole]
  simp [scan, room_left fits]

theorem scan_fault (ends : UInt8 → Bool) (limit : Option Nat) {reason : Fault}
    (clear : ∀ value ∈ bytes, ends value = false)
    (fits : ∀ bound, limit = some bound → bytes.length < bound) :
    scan ends limit (octets bytes ++ fault reason :: signals) =
      (bytes, .fault reason, signals) := by
  rw [scan_octets clear fun bound same => Nat.le_of_lt (fits bound same)]
  simp [scan, room_left fits]

end Signal

namespace Source

variable {ends : UInt8 → Bool} {limit : Option Nat} {bytes taken passed rest : Bytes} {stop : Stop}

/-- What a source delivers, however it is cut into chunks and whenever it is interrupted. -/
def signals : Source → List Signal
  | .ended => []
  | .chunk bytes next => Signal.octets bytes ++ next.signals
  | .fault reason next =>
    if reason.kind = .interrupted then next.signals else .fault reason :: next.signals

theorem signals_append (first second : Source) :
    (first ++ second).signals = first.signals ++ second.signals := by
  change (first.append second).signals = _
  induction first with
  | ended => rfl
  | chunk bytes next ih => simp [Source.append, Source.signals, ih]
  | fault reason next ih =>
    simp only [Source.append, Source.signals]
    split <;> simp [ih]

theorem bytes_eq_signals (source : Source) :
    source.bytes = source.signals.filterMap Signal.value? := by
  induction source with
  | ended => rfl
  | chunk bytes next ih =>
    simp [Source.bytes, signals, List.filterMap_append, Signal.filterMap_octets, ih]
  | fault reason next ih =>
    simp only [Source.bytes, signals]
    split
    · exact ih
    · rw [List.filterMap_cons_none rfl]
      exact ih

/-- Octets that were taken off the signals of a source were taken off its bytes. -/
theorem bytes_of_signals {front : Bytes} {source rest : Source}
    (same : source.signals = Signal.octets front ++ rest.signals) :
    source.bytes = front ++ rest.bytes := by
  rw [bytes_eq_signals, same, List.filterMap_append, Signal.filterMap_octets, ← bytes_eq_signals]

/-- The number of bytes left can be told from the signals. -/
theorem size_eq_of_signals {first second : Source} (same : first.signals = second.signals) :
    first.size = second.size := by
  rw [← length_bytes, ← length_bytes, bytes_eq_signals, bytes_eq_signals, same]

/-- A scan that splits a chunk makes no difference to what is behind the chunk. -/
theorem signal_scan_of_cut (split : cut ends limit passed bytes = (taken, some (stop, rest)))
    (more : List Signal) :
    ∃ front, taken = passed.reverse ++ front ∧
      Signal.scan ends limit (Signal.octets bytes ++ more) =
        (front, stop, Signal.octets rest ++ more) := by
  induction bytes generalizing limit passed with
  | nil => simp [cut] at split
  | cons octet octets ih =>
    unfold cut at split
    split at split
    next zero =>
      obtain ⟨rfl, rfl, rfl⟩ := by simpa using split
      subst zero
      exact ⟨[], by simp, Signal.scan_zero ends _⟩
    next positive =>
      split at split
      next here =>
        obtain ⟨rfl, rfl, rfl⟩ := by simpa using split
        exact ⟨[octet], by simp, by simp [Signal.scan, positive, here]⟩
      next clear =>
        obtain ⟨front, rfl, later⟩ := ih split
        exact ⟨octet :: front, by simp, by simp [Signal.scan, positive, clear, later]⟩

theorem clear_of_cut (whole : cut ends limit passed bytes = (taken, none)) :
    ∀ value ∈ bytes, ends value = false := by
  induction bytes generalizing limit passed with
  | nil => simp
  | cons octet octets ih =>
    unfold cut at whole
    split at whole
    · simp at whole
    · split at whole
      · simp at whole
      next clear =>
        intro value mem
        rcases List.mem_cons.mp mem with rfl | mem
        · simpa using clear
        · exact ih whole value mem

/-- A scan is a function of the signals. -/
theorem scan_signals (ends : UInt8 → Bool) (limit : Option Nat) (source : Source) :
    Signal.scan ends limit source.signals =
      ((source.scan ends limit).taken, (source.scan ends limit).stop,
        (source.scan ends limit).rest.signals) := by
  refine scan_induction ends
    (motive := fun limit source scan =>
      Signal.scan ends limit source.signals = (scan.taken, scan.stop, scan.rest.signals))
    ?_ ?_ ?_ ?_ ?_ ?_ limit source
  · intro source
    exact Signal.scan_zero ends _
  · intro limit positive
    simp [signals, Signal.scan, positive]
  · intro limit reason next scan _ retried same
    simpa [signals, retried] using same
  · intro limit reason next positive raised
    simp [signals, raised, Signal.scan, positive]
  · intro limit bytes next taken stop rest split
    obtain ⟨front, same, scanned⟩ := signal_scan_of_cut split next.signals
    obtain rfl : taken = front := by simpa using same
    simpa [signals] using scanned
  · intro limit bytes next scan whole same
    simp only [signals]
    rw [Signal.scan_octets (clear_of_cut whole) (cut_none_le whole), same]

/-- Sources with the same signals are scanned alike. -/
theorem scan_congr (ends : UInt8 → Bool) (limit : Option Nat) {first second : Source}
    (same : first.signals = second.signals) :
    (first.scan ends limit).taken = (second.scan ends limit).taken ∧
      (first.scan ends limit).stop = (second.scan ends limit).stop ∧
      (first.scan ends limit).rest.signals = (second.scan ends limit).rest.signals := by
  have left := scan_signals ends limit first
  rw [same, scan_signals] at left
  simpa [eq_comm] using left

end Source

end WireStore
