import WireStore.Stream.Source

/-!
# What a scan does

The transitions of `Source.scan`, one equation each, and what follows from them
by induction: `bytes_scan` says that a scan loses, adds and reorders nothing;
a scan that found its byte took at least that one; a scan stopped by its limit
took exactly as many bytes as the limit allows.
-/

namespace WireStore.Source

variable {ends : UInt8 → Bool} {limit : Option Nat} {source next : Source}
  {bytes taken passed rest : Bytes} {stop : Stop} {reason : Fault}

/-- A chunk is split, not changed. -/
theorem cut_some (split : cut ends limit passed bytes = (taken, some (stop, rest))) :
    taken ++ rest = passed.reverse ++ bytes := by
  induction bytes generalizing limit passed with
  | nil => simp [cut] at split
  | cons octet octets ih =>
    unfold cut at split
    split at split
    · obtain ⟨rfl, _, rfl⟩ := by simpa using split
      rfl
    · split at split
      · obtain ⟨rfl, _, rfl⟩ := by simpa using split
        simp
      · simpa using ih split

/-- A chunk that is not split is taken whole. -/
theorem cut_none (whole : cut ends limit passed bytes = (taken, none)) :
    taken = passed.reverse ++ bytes := by
  induction bytes generalizing limit passed with
  | nil => simpa [cut] using whole.symm
  | cons octet octets ih =>
    unfold cut at whole
    split at whole
    · simp at whole
    · split at whole
      · simp at whole
      · simpa using ih whole

theorem cut_found (found : cut ends limit passed bytes = (taken, some (.found, rest))) :
    taken ≠ [] := by
  induction bytes generalizing limit passed with
  | nil => simp [cut] at found
  | cons octet octets ih =>
    unfold cut at found
    split at found
    · simp at found
    · split at found
      · obtain ⟨rfl, _⟩ := by simpa using found
        simp
      · exact ih found

theorem cut_full (full : cut ends limit passed bytes = (taken, some (.full, rest))) :
    limit.map (· + passed.length) = some taken.length := by
  induction bytes generalizing limit passed with
  | nil => simp [cut] at full
  | cons octet octets ih =>
    unfold cut at full
    split at full
    next zero =>
      obtain ⟨rfl, _⟩ := by simpa using full
      simp [zero]
    next positive =>
      split at full
      · simp at full
      · have later := ih full
        cases limit with
        | none => simp at later
        | some bound =>
          simp only [Option.map_some, List.length_cons, Option.some.injEq] at later positive ⊢
          omega

theorem cut_none_le (whole : cut ends limit passed bytes = (taken, none)) :
    ∀ bound, limit = some bound → bytes.length ≤ bound := by
  induction bytes generalizing limit passed with
  | nil => simp
  | cons octet octets ih =>
    unfold cut at whole
    split at whole
    · simp at whole
    next positive =>
      split at whole
      · simp at whole
      · rintro bound rfl
        have later := ih whole (bound - 1) rfl
        simp only [Option.some.injEq] at positive
        simp only [List.length_cons]
        omega

theorem scan_chunk_split (split : cut ends limit [] bytes = (taken, some (stop, rest))) :
    (chunk bytes next).scan ends limit = ⟨taken, stop, .chunk rest next⟩ := by
  simp [scan, split]

theorem scan_chunk_whole (whole : cut ends limit [] bytes = (taken, none)) :
    (chunk bytes next).scan ends limit =
      ⟨bytes ++ (next.scan ends (limit.map (· - bytes.length))).taken,
        (next.scan ends (limit.map (· - bytes.length))).stop,
        (next.scan ends (limit.map (· - bytes.length))).rest⟩ := by
  obtain rfl : taken = bytes := by simpa using cut_none whole
  simp [scan, whole]

/-- Where a chunk is cut, in terms of the position at which its front satisfies `ends`. -/
theorem cut_eq (ends : UInt8 → Bool) (limit : Option Nat) (passed bytes : Bytes) :
    cut ends limit passed bytes =
      match (bytes.within limit).findIdx? ends with
      | some index =>
        (passed.reverse ++ bytes.take (index + 1), some (.found, bytes.drop (index + 1)))
      | none =>
        if (bytes.within limit).length < bytes.length then
          (passed.reverse ++ bytes.within limit,
            some (.full, bytes.drop (bytes.within limit).length))
        else (passed.reverse ++ bytes, none) := by
  induction bytes generalizing limit passed with
  | nil => cases limit <;> simp [cut, Bytes.within]
  | cons octet octets ih =>
    unfold cut
    by_cases zero : limit = some 0
    · subst zero
      simp [Bytes.within]
    rw [if_neg zero]
    -- past a positive limit the front of the tail is measured by one less
    have front : Bytes.within limit (octet :: octets) =
        octet :: Bytes.within (limit.map (· - 1)) octets := by
      cases limit with
      | none => rfl
      | some bound =>
        obtain ⟨less, rfl⟩ : ∃ less, bound = less + 1 :=
          ⟨bound - 1, by simp only [Option.some.injEq] at zero; omega⟩
        rfl
    rw [front, List.findIdx?_cons]
    cases here : ends octet with
    | true => simp
    | false =>
      simp only [Bool.false_eq_true, if_false, ih]
      cases (Bytes.within (limit.map (· - 1)) octets).findIdx? ends with
      | some index => simp
      | none =>
        simp only [Option.map_none, List.length_cons, Nat.add_lt_add_iff_right]
        split <;> simp

/-- Bytes let by are the bytes that a scan would have taken: the two ways of reading agree on
how many there are, on how it ends and on what is left. -/
theorem pass_eq (ends : UInt8 → Bool) (limit : Option Nat) (source : Source) :
    source.pass ends limit =
      ⟨(source.scan ends limit).taken.length, (source.scan ends limit).stop,
        (source.scan ends limit).rest⟩ := by
  induction source generalizing limit with
  | ended => unfold pass scan; split <;> rfl
  | fault reason next ih =>
    unfold pass scan
    split
    · rfl
    · split
      · exact ih limit
      · rfl
  | chunk bytes next ih =>
    have split := cut_eq ends limit [] bytes
    unfold pass
    cases place : (bytes.within limit).findIdx? ends with
    | some index =>
      simp only [place, List.reverse_nil, List.nil_append] at split
      have inside : index < bytes.length := by
        have before := (List.findIdx?_eq_some_iff_getElem.mp place).1
        cases limit with
        | none => exact before
        | some bound => exact Nat.lt_of_lt_of_le before (List.length_take_le' ..)
      rw [scan_chunk_split split]
      simp only [place, List.length_take]
      rw [Nat.min_eq_left inside]
    | none =>
      simp only [place, List.reverse_nil, List.nil_append] at split
      simp only [place]
      by_cases short : (bytes.within limit).length < bytes.length
      · rw [if_pos short] at split
        rw [if_pos short, scan_chunk_split split]
      · rw [if_neg short] at split
        rw [if_neg short, scan_chunk_whole split, ih]
        simp

/-- What holds of each transition of a scan holds of every scan. -/
theorem scan_induction (ends : UInt8 → Bool) {motive : Option Nat → Source → Scan → Prop}
    (full : ∀ source, motive (some 0) source ⟨[], .full, source⟩)
    (ended : ∀ limit, limit ≠ some 0 → motive limit .ended ⟨[], .ended, .ended⟩)
    (interrupted : ∀ limit reason next scan, limit ≠ some 0 → reason.kind = .interrupted →
      motive limit next scan → motive limit (.fault reason next) scan)
    (fault : ∀ limit reason next, limit ≠ some 0 → reason.kind ≠ .interrupted →
      motive limit (.fault reason next) ⟨[], .fault reason, next⟩)
    (split : ∀ limit bytes next taken stop rest,
      cut ends limit [] bytes = (taken, some (stop, rest)) →
      motive limit (.chunk bytes next) ⟨taken, stop, .chunk rest next⟩)
    (whole : ∀ limit bytes next scan,
      cut ends limit [] bytes = (bytes, none) →
      motive (limit.map (· - bytes.length)) next scan →
      motive limit (.chunk bytes next) ⟨bytes ++ scan.taken, scan.stop, scan.rest⟩)
    (limit : Option Nat) (source : Source) : motive limit source (source.scan ends limit) := by
  induction source generalizing limit with
  | ended =>
    by_cases zero : limit = some 0
    · subst zero; simpa [scan] using full _
    · simpa [scan, zero] using ended _ zero
  | fault reason next ih =>
    by_cases zero : limit = some 0
    · subst zero; simpa [scan] using full _
    · by_cases retried : reason.kind = .interrupted
      · simpa [scan, zero, retried] using interrupted _ _ _ _ zero retried (ih limit)
      · simpa [scan, zero, retried] using fault _ _ next zero retried
  | chunk bytes next ih =>
    rcases parts : cut ends limit [] bytes with ⟨taken, _ | ⟨stop, rest⟩⟩
    · rw [scan_chunk_whole parts]
      obtain rfl : taken = bytes := by simpa using cut_none parts
      exact whole _ _ _ _ parts (ih _)
    · rw [scan_chunk_split parts]
      exact split _ _ _ _ _ _ parts

theorem append_ended (source : Source) : source ++ Source.ended = source := by
  induction source with
  | ended => rfl
  | chunk bytes next ih => exact congrArg (chunk bytes) ih
  | fault reason next ih => exact congrArg (fault reason) ih

theorem length_bytes (source : Source) : source.bytes.length = source.size := by
  induction source with
  | ended => rfl
  | chunk bytes next ih => simp [Source.bytes, size, ih]
  | fault fault next ih => simpa [Source.bytes, size] using ih

/-- A scan loses no byte, adds none and keeps their order. -/
theorem bytes_scan (ends : UInt8 → Bool) (limit : Option Nat) (source : Source) :
    (source.scan ends limit).taken ++ (source.scan ends limit).rest.bytes = source.bytes := by
  refine scan_induction ends
    (motive := fun _ source scan => scan.taken ++ scan.rest.bytes = source.bytes)
    ?_ ?_ ?_ ?_ ?_ ?_ limit source
  · intro source; rfl
  · intros; rfl
  · intro limit reason next scan _ _ same; simpa [Source.bytes] using same
  · intros; rfl
  · intro limit bytes next taken stop rest parts
    simp only [Source.bytes, ← List.append_assoc, cut_some parts, List.reverse_nil,
      List.nil_append]
  · intro limit bytes next scan _ same
    simp only [Source.bytes, List.append_assoc, same]

theorem size_scan (ends : UInt8 → Bool) (limit : Option Nat) (source : Source) :
    (source.scan ends limit).taken.length + (source.scan ends limit).rest.size = source.size := by
  rw [← length_bytes, ← length_bytes, ← List.length_append, bytes_scan]

theorem taken_ne_nil_of_found (found : (source.scan ends limit).stop = .found) :
    (source.scan ends limit).taken ≠ [] := by
  revert found
  refine scan_induction ends
    (motive := fun _ _ scan => scan.stop = .found → scan.taken ≠ [])
    ?_ ?_ ?_ ?_ ?_ ?_ limit source
  · intro _ found; cases found
  · intro _ _ found; cases found
  · intro _ _ _ _ _ _ same; exact same
  · intro _ _ _ _ _ found; cases found
  · intro _ _ _ _ _ _ parts found
    obtain rfl : _ = Stop.found := found
    exact cut_found parts
  · intro _ _ _ _ _ same found empty
    exact same found (List.append_eq_nil_iff.mp empty).2

theorem length_taken_of_full (full : (source.scan ends limit).stop = .full) :
    limit = some (source.scan ends limit).taken.length := by
  revert full
  refine scan_induction ends
    (motive := fun limit _ scan => scan.stop = .full → limit = some scan.taken.length)
    ?_ ?_ ?_ ?_ ?_ ?_ limit source
  · intro _ _; rfl
  · intro _ _ full; cases full
  · intro _ _ _ _ _ _ same; exact same
  · intro _ _ _ _ _ full; cases full
  · intro _ _ _ _ _ _ parts full
    obtain rfl : _ = Stop.full := full
    simpa using cut_full parts
  · intro limit bytes _ scan parts same full
    cases limit with
    | none => simpa using same full
    | some bound =>
      have more := same full
      have enough := cut_none_le parts bound rfl
      simp only [Option.map_some, Option.some.injEq, List.length_append] at more ⊢
      omega

/-- A scan takes no more bytes than its limit allows. -/
theorem length_taken_le {bound : Nat} :
    (source.scan ends (some bound)).taken.length ≤ bound := by
  refine scan_induction ends
    (motive := fun limit _ scan => ∀ bound, limit = some bound → scan.taken.length ≤ bound)
    ?_ ?_ ?_ ?_ ?_ ?_ (some bound) source bound rfl
  · intro _ _ _; exact Nat.zero_le _
  · intro _ _ _ _; exact Nat.zero_le _
  · intro _ _ _ _ _ _ same; exact same
  · intro _ _ _ _ _ _ _; exact Nat.zero_le _
  · intro limit bytes next taken stop rest split bound same
    subst same
    rw [cut_eq] at split
    cases place : (Bytes.within (some bound) bytes).findIdx? ends with
    | some index =>
      have before := (List.findIdx?_eq_some_iff_getElem.mp place).1
      simp only [place, Prod.mk.injEq, List.reverse_nil, List.nil_append] at split
      rw [← split.1, List.length_take]
      have := List.length_take_le bound bytes
      simp only [Bytes.within] at before
      omega
    | none =>
      simp only [place, List.reverse_nil, List.nil_append] at split
      split at split
      · rw [← (Prod.mk.inj split).1]
        exact List.length_take_le bound bytes
      · exact nomatch (Prod.mk.inj split).2
  · intro limit bytes next scan whole same bound limited
    subst limited
    have enough := cut_none_le whole bound rfl
    have more := same (bound - bytes.length) rfl
    simp only [List.length_append]
    omega

end WireStore.Source
