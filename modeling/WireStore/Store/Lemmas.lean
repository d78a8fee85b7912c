import WireStore.Store

/-!
# What the store's operations do to its bindings

Each operation is described through `Store.find?`, the view of a store as a
partial map, and through the two counts `size` and `totalBytes`.
-/

namespace WireStore.Store

variable {store : Store} {key other : Key} {value old : Bytes}

theorem contains_iff : store.contains key = true ↔ ∃ value, store.find? key = some value := by
  simp [contains, Option.isSome_iff_exists]

theorem contains_eq_false_iff : store.contains key = false ↔ store.find? key = none := by
  simp [contains]

theorem isEmpty_iff : store.isEmpty = true ↔ store.size = 0 := by
  simp [isEmpty, size]

@[simp]
theorem find?_empty : empty.find? key = none := rfl

theorem find?_bind (unbound : store.contains key = false) :
    (store.bind key value unbound).find? other =
      if other = key then some value else store.find? other := by
  by_cases same : other = key
  · simp [find?, bind, same]
  · have differs : (key == other) = false := by simpa using Ne.symm same
    simp [find?, bind, same, differs]

theorem find?_replace (bound : store.contains key = true) :
    (store.replace key value).find? other =
      if other = key then some value else store.find? other := by
  obtain ⟨old, found⟩ := contains_iff.mp bound
  have step : (fun binding : Key × Bytes => binding.1 == other) ∘
      (fun binding => if binding.1 = key then (binding.1, value) else binding) =
      fun binding => binding.1 == other := by
    funext binding
    by_cases here : binding.1 = key <;> simp [here]
  simp only [find?, replace, List.find?_map, step] at found ⊢
  by_cases same : other = key
  · subst same
    cases entry : store.bindings.find? fun binding => binding.1 == other with
    | none => simp [entry] at found
    | some binding =>
      have here : binding.1 = other := by simpa using List.find?_some entry
      simp [here]
  · simp only [same, if_false]
    cases entry : store.bindings.find? fun binding => binding.1 == other with
    | none => simp
    | some binding =>
      have here : binding.1 = other := by simpa using List.find?_some entry
      simp [here, same]

theorem find?_erase :
    (store.erase key).find? other = if other = key then none else store.find? other := by
  simp only [find?, erase, List.find?_filter]
  by_cases same : other = key
  · subst same
    rw [List.find?_eq_none.mpr (by simp)]
    simp
  · have step : (fun binding : Key × Bytes =>
        decide ((binding.1 != key) = true ∧ (binding.1 == other) = true)) =
        fun binding => binding.1 == other := by
      funext binding
      by_cases here : binding.1 = other <;> simp [here, same]
    rw [step, if_neg same]

theorem size_bind (unbound : store.contains key = false) :
    (store.bind key value unbound).size = store.size + 1 := rfl

@[simp]
theorem size_replace : (store.replace key value).size = store.size := by
  simp [size, replace]

theorem totalBytes_bind (unbound : store.contains key = false) :
    (store.bind key value unbound).totalBytes = value.length + store.totalBytes := rfl

end WireStore.Store
