import WireStore.Allocator
import WireStore.Error
import WireStore.Key

/-!
# The store

A store binds keys to values. It is created empty, a key is bound at most once
at any time, and an operation that fails changes nothing: it returns no store.
A value read from a store is a value of its own and is not affected by what
happens to the binding later.

The bindings are kept as a list with distinct keys; `find?` is the view through
which the operations are described (`WireStore.Store.Lemmas`).
-/

namespace WireStore

/-- Bindings of keys to values, no key bound twice. -/
structure Store where
  bindings : List (Key × Bytes)
  distinct : (bindings.map Prod.fst).Nodup

namespace Store

/-- The store that binds nothing. -/
def empty : Store := ⟨[], List.nodup_nil⟩

instance : EmptyCollection Store := ⟨empty⟩
instance : Inhabited Store := ⟨empty⟩

/-- The value bound to a key. -/
def find? (store : Store) (key : Key) : Option Bytes :=
  (store.bindings.find? fun binding => binding.1 == key).map Prod.snd

/-- Holds of the keys that are bound. -/
def contains (store : Store) (key : Key) : Bool :=
  (store.find? key).isSome

/-- The number of bindings. -/
def size (store : Store) : Nat := store.bindings.length

def isEmpty (store : Store) : Bool := store.bindings.isEmpty

/-- The lengths of all values together. -/
def totalBytes (store : Store) : Nat :=
  store.bindings.foldr (fun binding total => binding.2.length + total) 0

theorem contains_of_mem_keys {store : Store} {key : Key}
    (bound : key ∈ store.bindings.map Prod.fst) : store.contains key = true := by
  obtain ⟨binding, mem, rfl⟩ := List.mem_map.mp bound
  cases found : store.bindings.find? fun entry => entry.1 == binding.1 with
  | some entry => simp [contains, find?, found]
  | none => simpa using List.find?_eq_none.mp found binding mem

/-- Adds a binding for a key that has none. -/
def bind (store : Store) (key : Key) (value : Bytes) (unbound : store.contains key = false) :
    Store where
  bindings := (key, value) :: store.bindings
  distinct := by
    simp only [List.map_cons, List.nodup_cons]
    refine ⟨fun bound => ?_, store.distinct⟩
    simp [contains_of_mem_keys bound] at unbound

/-- Puts a value in place of the one bound to a key. -/
def replace (store : Store) (key : Key) (value : Bytes) : Store where
  bindings := store.bindings.map fun binding =>
    if binding.1 = key then (binding.1, value) else binding
  distinct := by
    have same : (Prod.fst ∘ fun binding : Key × Bytes =>
        if binding.1 = key then (binding.1, value) else binding) = Prod.fst := by
      funext binding
      by_cases here : binding.1 = key <;> simp [here]
    rw [List.map_map, same]
    exact store.distinct

/-- Removes the binding of a key. -/
def erase (store : Store) (key : Key) : Store where
  bindings := store.bindings.filter fun binding => binding.1 != key
  distinct := store.distinct.sublist (List.filter_sublist.map Prod.fst)

/-- Binds a key that is not bound to a copy of a value, which may be empty. -/
def create (store : Store) (alloc : Allocator) (key : Key) (value : Bytes) :
    Except Error Store :=
  if unbound : store.contains key = false then
    if alloc value.length then .ok (store.bind key value unbound) else .error .outOfMemory
  else .error .keyExists

/-- Replaces the value of a bound key by a copy of another, which may not be empty. -/
def update (store : Store) (alloc : Allocator) (key : Key) (value : Bytes) :
    Except Error Store :=
  if value.isEmpty then .error .emptyUpdate
  else if store.contains key then
    if alloc value.length then .ok (store.replace key value) else .error .outOfMemory
  else .error .keyNotFound

/-- The value bound to a key. -/
def read (store : Store) (key : Key) : Except Error Bytes :=
  match store.find? key with
  | some value => .ok value
  | none => .error .keyNotFound

/-- Removes a key and its value. -/
def delete (store : Store) (key : Key) : Except Error Store :=
  if store.contains key then .ok (store.erase key) else .error .keyNotFound

end Store

end WireStore
