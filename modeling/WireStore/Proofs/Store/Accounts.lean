import Mathlib.Algebra.BigOperators.Ring.Finset
import WireStore.Proofs.Store.History

/-!
# What a store keeps count of

The size of a store and the lengths of its values are sums over the keys that are bound, each
counted once since no key is bound twice (`tally_eq_sum`). So both can be told from the bindings
alone, and a change to one binding changes them by what it adds less what it takes away
(`tally_of_set`).

Which of the errors an operation comes to, if any, is decided by the value of its key and by the
memory there is (`result_operate`). An operation that fails leaves everything as it was, and one
that succeeds changes one binding; `operate_settles` says by how much the counts move then.
-/

namespace WireStore

/-- What an operation on a key with this value comes to: a read gives the value, a change none. -/
def Request.verdict (alloc : Allocator) (bound : Option Bytes) :
    Request → Except Error (Option Bytes)
  | .create _ value =>
    if bound.isSome then .error .keyExists
    else if alloc value.length then .ok none
    else .error .outOfMemory
  | .update _ value =>
    if value = [] then .error .emptyUpdate
    else if bound = none then .error .keyNotFound
    else if alloc value.length then .ok none
    else .error .outOfMemory
  | .read _ => bound.elim (.error .keyNotFound) fun value => .ok (some value)
  | .delete _ => if bound = none then .error .keyNotFound else .ok none

/-- Only what is not there can be created, and only what is there can be used. -/
theorem Request.isSome_of_verdict {alloc : Allocator} {request : Request}
    {bound found : Option Bytes} (allowed : request.verdict alloc bound = .ok found) :
    bound.isSome = true ↔ request.method ≠ .create := by
  cases bound with
  | none =>
    cases request with
    | create key value => simp [method]
    | read key | delete key => cases allowed
    | update key value =>
      simp only [verdict, if_true] at allowed
      split at allowed <;> cases allowed
  | some old =>
    cases request with
    | create key value => cases allowed
    | update key value | read key | delete key => simp [method]

namespace Store

variable {store after : Store} {alloc : Allocator} {request : Request} {key : Key}
  {value : Option Bytes} {result : Except Error (Option Bytes)}

/-! ## Sums over the bound keys -/

/-- The keys that are bound. -/
def keys (store : Store) : Finset Key :=
  ⟨store.bindings.map Prod.fst, store.distinct⟩

/-- Adds up a measure of all values. -/
def tally (store : Store) (measure : Bytes → Nat) : Nat :=
  (store.bindings.map fun binding => measure binding.2).sum

theorem size_eq_tally (store : Store) : store.size = store.tally fun _ => 1 := by
  simp [size, tally]

theorem totalBytes_eq_tally (store : Store) : store.totalBytes = store.tally List.length := by
  unfold totalBytes tally
  induction store.bindings with
  | nil => rfl
  | cons binding others ih => rw [List.foldr_cons, ih, List.map_cons, List.sum_cons]

theorem find?_of_mem {binding : Key × Bytes} (mem : binding ∈ store.bindings) :
    store.find? binding.1 = some binding.2 := by
  have bound : store.contains binding.1 = true :=
    contains_of_mem_keys (List.mem_map_of_mem mem)
  obtain ⟨value, found⟩ := contains_iff.mp bound
  obtain ⟨other, first, rfl⟩ := Option.map_eq_some_iff.mp found
  have same : other.1 = binding.1 := by simpa using List.find?_some first
  -- No key is bound twice, so the first binding of the key is this one.
  have equal := List.inj_on_of_nodup_map store.distinct (List.mem_of_find?_eq_some first) mem same
  rw [found, equal]

theorem mem_keys_iff : key ∈ store.keys ↔ ∃ value, store.find? key = some value := by
  constructor
  · intro mem
    have listed : key ∈ store.bindings.map Prod.fst := mem
    obtain ⟨binding, bound, rfl⟩ := List.mem_map.mp listed
    exact ⟨binding.2, find?_of_mem bound⟩
  · rintro ⟨value, found⟩
    obtain ⟨binding, first, -⟩ := Option.map_eq_some_iff.mp found
    have same : binding.1 = key := by simpa using List.find?_some first
    have mem := List.mem_map_of_mem (f := Prod.fst) (List.mem_of_find?_eq_some first)
    exact same ▸ mem

/-- The measure of a value counts once for each key that has it. -/
theorem tally_eq_sum (store : Store) (measure : Bytes → Nat) :
    store.tally measure = ∑ key ∈ store.keys, (store.find? key).elim 0 measure := by
  have each : store.bindings.map (fun binding => measure binding.2) =
      (store.bindings.map Prod.fst).map fun key => (store.find? key).elim 0 measure := by
    rw [List.map_map]
    apply List.map_congr_left
    intro binding mem
    simp only [Function.comp, find?_of_mem mem, Option.elim]
  rw [tally, each]
  rfl

/-- Keys without a binding count for nothing. -/
theorem tally_eq_sum_of_subset {keys : Finset Key} (all : store.keys ⊆ keys)
    (measure : Bytes → Nat) :
    store.tally measure = ∑ key ∈ keys, (store.find? key).elim 0 measure := by
  rw [tally_eq_sum]
  apply Finset.sum_subset all
  intro key _ unbound
  cases found : store.find? key with
  | none => rfl
  | some value => exact absurd (mem_keys_iff.mpr ⟨value, found⟩) unbound

/-- A change to one binding changes a sum by what it adds less what it takes away. -/
theorem tally_of_set (changed : after.find? = Bindings.set store.find? key value)
    (measure : Bytes → Nat) :
    after.tally measure + (store.find? key).elim 0 measure =
      store.tally measure + value.elim 0 measure := by
  let others := (store.keys ∪ after.keys).erase key
  have here : key ∉ others := Finset.notMem_erase key _
  have everywhere : store.keys ∪ after.keys ⊆ insert key others :=
    Finset.subset_insert_iff.mpr (Finset.Subset.refl _)
  have unmoved : ∑ other ∈ others, (after.find? other).elim 0 measure =
      ∑ other ∈ others, (store.find? other).elim 0 measure := by
    apply Finset.sum_congr rfl
    intro other mem
    rw [changed, Bindings.set_of_ne (Finset.ne_of_mem_erase mem)]
  have before := tally_eq_sum_of_subset (Finset.union_subset_left everywhere) measure
  have behind := tally_eq_sum_of_subset (Finset.union_subset_right everywhere) measure
  rw [Finset.sum_insert here] at before behind
  rw [behind, before, unmoved, changed, Bindings.set_same]
  omega

theorem counts_of_set (changed : after.find? = Bindings.set store.find? key value) :
    after.size + (store.find? key).elim 0 (fun _ => 1) = store.size + value.elim 0 (fun _ => 1) ∧
      after.totalBytes + (store.find? key).elim 0 List.length =
        store.totalBytes + value.elim 0 List.length := by
  simp only [size_eq_tally, totalBytes_eq_tally]
  exact ⟨tally_of_set changed _, tally_of_set changed _⟩

/-! ## What an operation comes to -/

theorem result_operate (store : Store) (alloc : Allocator) (request : Request) :
    (store.operate alloc request).1 = request.verdict alloc (store.find? request.key) := by
  cases request with
  | create key value =>
    have bound : (store.find? key).isSome = store.contains key := rfl
    simp only [operate, create, Request.verdict, Request.key, bound]
    by_cases unbound : store.contains key = false
    · cases alloc value.length <;> simp [unbound, changed]
    · simp [unbound, changed]
  | update key value =>
    simp only [operate, update, Request.verdict, Request.key, ← contains_eq_false_iff]
    by_cases empty : value = []
    · simp [empty, changed]
    · cases store.contains key <;> cases alloc value.length <;> simp [empty, changed]
  | read key =>
    simp only [operate, read, Request.verdict, Request.key]
    cases store.find? key <;> rfl
  | delete key =>
    simp only [operate, delete, Request.verdict, Request.key, ← contains_eq_false_iff]
    cases store.contains key <;> simp [changed]

/-- What an operation that succeeded did: one binding changed, and the counts with it. -/
inductive Settled (before after : Store) : Request → Prop where
  | created {key : Key} {value : Bytes} (unbound : before.find? key = none)
      (bindings : after.find? = Bindings.set before.find? key (some value))
      (size : after.size = before.size + 1)
      (bytes : after.totalBytes = before.totalBytes + value.length) :
      Settled before after (.create key value)
  | updated {key : Key} {value old : Bytes} (bound : before.find? key = some old)
      (bindings : after.find? = Bindings.set before.find? key (some value))
      (size : after.size = before.size)
      (bytes : after.totalBytes + old.length = before.totalBytes + value.length) :
      Settled before after (.update key value)
  | read {key : Key} (unchanged : after = before) : Settled before after (.read key)
  | deleted {key : Key} {old : Bytes} (bound : before.find? key = some old)
      (bindings : after.find? = Bindings.set before.find? key none)
      (size : after.size + 1 = before.size)
      (bytes : after.totalBytes + old.length = before.totalBytes) :
      Settled before after (.delete key)

theorem unchanged_of_failed {reason : Error}
    (failed : store.operate alloc request = (.error reason, after)) : after = store := by
  rcases operate_cases failed with ⟨same, -⟩ | ⟨change, -, succeeded, -⟩
  · exact same
  · exact nomatch succeeded

theorem settled_of_succeeded {found : Option Bytes}
    (succeeded : store.operate alloc request = (.ok found, after)) :
    store.Settled after request := by
  have allowed := result_operate store alloc request
  rw [succeeded] at allowed
  have present := Request.isSome_of_verdict allowed.symm
  rcases operate_cases succeeded with ⟨rfl, idle⟩ | ⟨change, changes, -, bindings, -⟩
  · -- Without a change and without an error it was a read.
    rcases idle with reads | ⟨reason, failed⟩
    · cases request with
      | read key => exact .read rfl
      | create key value | update key value | delete key => cases reads
    · cases failed
  · obtain ⟨size, bytes⟩ := counts_of_set bindings
    cases request with
    | create key value =>
      obtain rfl := Option.some.inj changes
      have unbound : store.find? key = none := by
        simpa [Request.key, Request.method] using present
      rw [Request.key, unbound] at size bytes
      exact .created unbound bindings size bytes
    | update key value =>
      obtain rfl := Option.some.inj changes
      obtain ⟨old, bound⟩ := Option.isSome_iff_exists.mp (present.mpr (by simp [Request.method]))
      rw [bound] at size bytes
      exact .updated bound bindings (Nat.add_right_cancel size) bytes
    | read key => cases changes
    | delete key =>
      obtain rfl := Option.some.inj changes
      obtain ⟨old, bound⟩ := Option.isSome_iff_exists.mp (present.mpr (by simp [Request.method]))
      rw [bound] at size bytes
      exact .deleted bound bindings size bytes

/-! ## What the counts say -/

/-- The counts of a store are those of its bindings. -/
structure Counted (store : Store) (keys : Finset Key) : Prop where
  bound : ∀ key, key ∈ keys ↔ store.contains key = true
  isEmpty : store.isEmpty = true ↔ store.size = 0
  size : store.size = keys.card
  totalBytes : store.totalBytes = ∑ key ∈ keys, ((store.find? key).getD []).length

theorem counted (store : Store) : store.Counted store.keys where
  bound key := mem_keys_iff.trans contains_iff.symm
  isEmpty := isEmpty_iff
  size := (List.length_map Prod.fst).symm
  totalBytes := by
    rw [totalBytes_eq_tally, tally_eq_sum]
    apply Finset.sum_congr rfl
    intro key _
    cases store.find? key <;> rfl

/-- An operation on a store, with or without the memory for it, comes to what the value of its key
decides. If it fails it leaves the store as it was; if it succeeds it changes the one binding, and
the counts by as much as that binding counts for. The counts are those of the bindings at all
times. -/
theorem operate_settles (store : Store) (alloc : Allocator) (request : Request) :
    let (result, after) := store.operate alloc request
    result = request.verdict alloc (store.find? request.key) ∧
      (∀ reason, result = .error reason → after = store) ∧
      (∀ found, result = .ok found → store.Settled after request) ∧
      store.Counted store.keys ∧ after.Counted after.keys := by
  rcases operated : store.operate alloc request with ⟨result, after⟩
  have decided := result_operate store alloc request
  rw [operated] at decided
  refine ⟨decided, ?_, ?_, store.counted, after.counted⟩
  · rintro reason rfl
    exact unchanged_of_failed operated
  · rintro found rfl
    exact settled_of_succeeded operated

end Store

end WireStore
