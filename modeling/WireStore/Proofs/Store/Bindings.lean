import WireStore.Server.Execution
import WireStore.Store.Lemmas

/-!
# Requests on a partial map

What a store means is a partial map from keys to values. `Bindings.execute` says
what each request does to such a map and what it is answered, with nothing said
of how bindings are kept or of memory; `execute_eq` says that a store that is
given the memory it asks for does the same.

What a request comes to is decided by the value bound to its key, and that binding
is all it may change: `Request.effect` says so without a map, and with the memory
there is. A store does just that (`execute_eq_effect`), from which the rest follows.
-/

namespace WireStore

/-- A partial map from keys to values. -/
abbrev Bindings := Key → Option Bytes

namespace Bindings

/-- The map with the value of one key set, or with its binding removed. -/
def set (bindings : Bindings) (key : Key) (value : Option Bytes) : Bindings :=
  fun other => if other = key then value else bindings other

/-- The reply to a request, and the map after it. -/
def execute (bindings : Bindings) : Request → Reply × Bindings
  | .create key value =>
    match bindings key with
    | none => (.ok, bindings.set key (some value))
    | some _ => (.error "key exists", bindings)
  | .update key value =>
    if value = [] then (.error "size must be > 0", bindings)
    else
      match bindings key with
      | none => (.error "no such key", bindings)
      | some _ => (.ok, bindings.set key (some value))
  | .read key =>
    match bindings key with
    | none => (.error "no such key", bindings)
    | some value => (.value value, bindings)
  | .delete key =>
    match bindings key with
    | none => (.error "no such key", bindings)
    | some _ => (.ok, bindings.set key none)

variable {bindings : Bindings} {key other : Key} {value later : Option Bytes}

@[simp]
theorem set_same : bindings.set key value key = value := if_pos rfl

theorem set_of_ne (differs : other ≠ key) : bindings.set key value other = bindings other :=
  if_neg differs

theorem set_self (bound : bindings key = value) : bindings.set key value = bindings := by
  funext other
  by_cases same : other = key
  · rw [same, set_same, bound]
  · rw [set_of_ne same]

theorem set_comm (differs : key ≠ other) :
    (bindings.set key value).set other later = (bindings.set other later).set key value := by
  funext third
  by_cases first : third = key
  · rw [first, set_of_ne differs, set_same, set_same]
  · by_cases second : third = other
    · rw [second, set_same, set_of_ne differs.symm, set_same]
    · rw [set_of_ne second, set_of_ne first, set_of_ne first, set_of_ne second]

end Bindings

/-- The reply to a request whose key has this value, and the value of the key after it. -/
def Request.effect (alloc : Allocator) : Request → Option Bytes → Reply × Option Bytes
  | .create _ value, none =>
    if alloc value.length then (.ok, some value) else (.ofError .outOfMemory, none)
  | .create _ _, some old => (.ofError .keyExists, some old)
  | .update _ value, bound =>
    if value = [] then (.ofError .emptyUpdate, bound)
    else
      match bound with
      | none => (.ofError .keyNotFound, none)
      | some old =>
        if alloc value.length then (.ok, some value) else (.ofError .outOfMemory, some old)
  | .read _, none => (.ofError .keyNotFound, none)
  | .read _, some value => (.value value, some value)
  | .delete _, none => (.ofError .keyNotFound, none)
  | .delete _, some _ => (.ok, none)

/-- With the memory for its value, a request is carried out on a map as it is on the value of its
key. -/
theorem Bindings.execute_eq_effect {alloc : Allocator} (bindings : Bindings) (request : Request)
    (memory : ∀ value, request.value? = some value → alloc value.length = true) :
    bindings.execute request =
      ((request.effect alloc (bindings request.key)).1,
        bindings.set request.key (request.effect alloc (bindings request.key)).2) := by
  cases request with
  | create key value =>
    have room := memory value rfl
    cases bound : bindings key with
    | none => simp only [execute, Request.key, Request.effect, bound, room, if_true]
    | some old =>
      simp only [execute, Request.key, Request.effect, bound, set_self bound]
      rfl
  | update key value =>
    have room := memory value rfl
    by_cases empty : value = []
    · simp only [execute, Request.key, Request.effect, empty, if_true, set_self rfl]
      rfl
    · cases bound : bindings key with
      | none =>
        simp only [execute, Request.key, Request.effect, empty, if_false, bound, set_self bound]
        rfl
      | some old => simp only [execute, Request.key, Request.effect, empty, if_false, bound, room,
          if_true]
  | read key =>
    cases bound : bindings key with
    | none =>
      simp only [execute, Request.key, Request.effect, bound, set_self bound]
      rfl
    | some value => simp only [execute, Request.key, Request.effect, bound, set_self bound]
  | delete key =>
    cases bound : bindings key with
    | none =>
      simp only [execute, Request.key, Request.effect, bound, set_self bound]
      rfl
    | some old => simp only [execute, Request.key, Request.effect, bound]

namespace Store

variable {store : Store} {key : Key} {value : Bytes}

theorem find?_bind_eq_set (unbound : store.contains key = false) :
    (store.bind key value unbound).find? = Bindings.set store.find? key (some value) :=
  funext fun _ => find?_bind unbound

theorem find?_replace_eq_set (bound : store.contains key = true) :
    (store.replace key value).find? = Bindings.set store.find? key (some value) :=
  funext fun _ => find?_replace bound

theorem find?_erase_eq_set : (store.erase key).find? = Bindings.set store.find? key none :=
  funext fun _ => find?_erase

/-- A request reads the binding of its key and changes no other. -/
theorem execute_eq_effect (alloc : Allocator) (store : Store) (request : Request) :
    (store.execute alloc request).1 =
        (request.effect alloc (store.find? request.key)).1 ∧
      (store.execute alloc request).2.find? =
        Bindings.set store.find? request.key
          (request.effect alloc (store.find? request.key)).2 := by
  cases request with
  | create key value =>
    cases bound : store.find? key with
    | none =>
      have unbound := contains_eq_false_iff.mpr bound
      cases room : alloc value.length with
      | true =>
        simp only [execute, create, unbound, dif_pos, room, if_true, acknowledge, Request.key,
          bound, Request.effect, true_and]
        exact find?_bind_eq_set unbound
      | false =>
        simp only [execute, create, unbound, dif_pos, room, Bool.false_eq_true, if_false,
          acknowledge, Request.key, bound, Request.effect, true_and]
        exact (Bindings.set_self bound).symm
    | some old =>
      have contained := contains_iff.mpr ⟨old, bound⟩
      simp only [execute, create, contained, acknowledge, Bool.true_eq_false, dif_neg,
        not_false_eq_true, Request.key, bound, Request.effect, true_and]
      exact (Bindings.set_self bound).symm
  | update key value =>
    by_cases empty : value = []
    · simp only [execute, update, empty, List.isEmpty_nil, if_true, acknowledge, Request.key,
        Request.effect, true_and]
      exact (Bindings.set_self rfl).symm
    · have filled : value.isEmpty = false := by simpa using empty
      cases bound : store.find? key with
      | none =>
        have unbound := contains_eq_false_iff.mpr bound
        simp only [execute, update, filled, unbound, Bool.false_eq_true, if_false, acknowledge,
          Request.key, bound, Request.effect, empty, true_and]
        exact (Bindings.set_self bound).symm
      | some old =>
        have contained := contains_iff.mpr ⟨old, bound⟩
        cases room : alloc value.length with
        | true =>
          simp only [execute, update, filled, contained, room, Bool.false_eq_true, if_false,
            if_true, acknowledge, Request.key, bound, Request.effect, empty, true_and]
          exact find?_replace_eq_set contained
        | false =>
          simp only [execute, update, filled, contained, room, Bool.false_eq_true, if_false,
            if_true, acknowledge, Request.key, bound, Request.effect, empty, true_and]
          exact (Bindings.set_self bound).symm
  | read key =>
    cases bound : store.find? key with
    | none =>
      simp only [execute, read, Request.key, bound, Request.effect, true_and]
      exact (Bindings.set_self bound).symm
    | some value =>
      simp only [execute, read, Request.key, bound, Request.effect, true_and]
      exact (Bindings.set_self bound).symm
  | delete key =>
    cases bound : store.find? key with
    | none =>
      have unbound := contains_eq_false_iff.mpr bound
      simp only [execute, delete, unbound, Bool.false_eq_true, if_false, acknowledge,
        Request.key, bound, Request.effect, true_and]
      exact (Bindings.set_self bound).symm
    | some old =>
      have contained := contains_iff.mpr ⟨old, bound⟩
      simp only [execute, delete, contained, if_true, acknowledge, Request.key, bound,
        Request.effect, true_and]
      exact find?_erase_eq_set

/-- A store that is given the memory for the value of a request carries the request out as it
is carried out on the partial map of its bindings. -/
theorem execute_eq {alloc : Allocator} (store : Store) (request : Request)
    (memory : ∀ value, request.value? = some value → alloc value.length = true) :
    (store.execute alloc request).1 = (Bindings.execute store.find? request).1 ∧
      (store.execute alloc request).2.find? = (Bindings.execute store.find? request).2 := by
  obtain ⟨reply, bindings⟩ := execute_eq_effect alloc store request
  rw [reply, bindings, Bindings.execute_eq_effect store.find? request memory]
  exact ⟨rfl, rfl⟩

end Store

end WireStore
