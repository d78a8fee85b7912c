import WireStore.Proofs.Store.Bindings

/-!
# Keys do not interfere

A request reads the binding of its key and changes no other. So the requests on one key are a
conversation of their own, whatever requests on other keys stand between them (`perform_filter`),
and the order of requests on different keys does not matter (`perform_swap`). Whether memory is
granted for a value depends on its size only, so refusals make no difference to this.
-/

namespace WireStore.Store

variable {store twin : Store} {key : Key} {request one other : Request}
  {requests : List Request}

/-- Requests carried out one after another, each with its reply, and the store after them. -/
def perform (alloc : Allocator) (store : Store) :
    List Request → List (Request × Reply) × Store
  | [] => ([], store)
  | request :: others =>
    let (reply, changed) := store.execute alloc request
    let (entries, last) := changed.perform alloc others
    ((request, reply) :: entries, last)

/-! ## One request -/

theorem find?_execute_of_ne (alloc : Allocator) (store : Store) (differs : request.key ≠ key) :
    (store.execute alloc request).2.find? key = store.find? key := by
  rw [(execute_eq_effect alloc store request).2]
  exact Bindings.set_of_ne differs.symm

/-- Stores that bind the key of a request alike answer it alike. -/
theorem execute_congr (alloc : Allocator)
    (same : store.find? request.key = twin.find? request.key) :
    (store.execute alloc request).1 = (twin.execute alloc request).1 ∧
      (store.execute alloc request).2.find? request.key =
        (twin.execute alloc request).2.find? request.key := by
  obtain ⟨reply, bindings⟩ := execute_eq_effect alloc store request
  obtain ⟨reply', bindings'⟩ := execute_eq_effect alloc twin request
  rw [reply, reply', bindings, bindings', Bindings.set_same, Bindings.set_same, same]
  exact ⟨rfl, rfl⟩

/-! ## Requests one after another -/

theorem perform_cons (alloc : Allocator) (store : Store) (request : Request)
    (others : List Request) :
    store.perform alloc (request :: others) =
      ((request, (store.execute alloc request).1) ::
          ((store.execute alloc request).2.perform alloc others).1,
        ((store.execute alloc request).2.perform alloc others).2) := rfl

theorem perform_append (alloc : Allocator) (store : Store) (first second : List Request) :
    store.perform alloc (first ++ second) =
      ((store.perform alloc first).1 ++ ((store.perform alloc first).2.perform alloc second).1,
        ((store.perform alloc first).2.perform alloc second).2) := by
  induction first generalizing store with
  | nil => rfl
  | cons request others ih =>
    rw [List.cons_append, perform_cons, ih, perform_cons]
    rfl

/-- What happens to one key can be told from a store that agrees on this key and is asked for
nothing else. -/
theorem perform_filter (alloc : Allocator) (requests : List Request)
    (same : store.find? key = twin.find? key) :
    (store.perform alloc requests).1.filter (fun entry => entry.1.key = key) =
        (twin.perform alloc (requests.filter fun request => request.key = key)).1 ∧
      (store.perform alloc requests).2.find? key =
        (twin.perform alloc (requests.filter fun request => request.key = key)).2.find? key := by
  -- The two stores need not agree on any other key, and in general do not after the first request.
  induction requests generalizing store twin with
  | nil => exact ⟨rfl, same⟩
  | cons request others ih =>
    by_cases here : request.key = key
    · subst here
      obtain ⟨reply, bound⟩ := execute_congr alloc same
      obtain ⟨entries, last⟩ := ih bound
      simp only [List.filter_cons, decide_true, if_true, perform_cons]
      rw [entries, reply]
      exact ⟨rfl, last⟩
    · have kept := (find?_execute_of_ne alloc store here).trans same
      simpa only [List.filter_cons, here, decide_false, Bool.false_eq_true, if_false,
        perform_cons] using ih kept

theorem perform_congr (alloc : Allocator) (requests : List Request)
    (same : store.find? = twin.find?) :
    (store.perform alloc requests).1 = (twin.perform alloc requests).1 ∧
      (store.perform alloc requests).2.find? = (twin.perform alloc requests).2.find? := by
  induction requests generalizing store twin with
  | nil => exact ⟨rfl, same⟩
  | cons request others ih =>
    obtain ⟨reply, bindings⟩ := execute_eq_effect alloc store request
    obtain ⟨reply', bindings'⟩ := execute_eq_effect alloc twin request
    rw [same] at reply bindings
    obtain ⟨entries, last⟩ := ih (bindings.trans bindings'.symm)
    rw [perform_cons, perform_cons, reply, reply', entries]
    exact ⟨rfl, last⟩

/-- Neither of two requests on different keys takes notice of the other. -/
theorem execute_swap (alloc : Allocator) (store : Store) (differs : one.key ≠ other.key) :
    ((store.execute alloc one).2.execute alloc other).1 = (store.execute alloc other).1 ∧
      ((store.execute alloc one).2.execute alloc other).2.find? =
        ((store.execute alloc other).2.execute alloc one).2.find? := by
  obtain ⟨-, first⟩ := execute_eq_effect alloc store one
  obtain ⟨-, second⟩ := execute_eq_effect alloc store other
  obtain ⟨-, then'⟩ := execute_eq_effect alloc (store.execute alloc one).2 other
  obtain ⟨-, before⟩ := execute_eq_effect alloc (store.execute alloc other).2 one
  have kept : (store.execute alloc one).2.find? other.key = store.find? other.key :=
    find?_execute_of_ne alloc store differs
  have kept' : (store.execute alloc other).2.find? one.key = store.find? one.key :=
    find?_execute_of_ne alloc store differs.symm
  refine ⟨(execute_congr alloc kept).1, ?_⟩
  rw [then', before, kept, kept', first, second]
  exact Bindings.set_comm differs

theorem perform_swap (alloc : Allocator) (store : Store) (after : List Request)
    (differs : one.key ≠ other.key) :
    ∃ reply reply' entries,
      (store.perform alloc (one :: other :: after)).1 =
          (one, reply) :: (other, reply') :: entries ∧
        (store.perform alloc (other :: one :: after)).1 =
          (other, reply') :: (one, reply) :: entries ∧
        (store.perform alloc (one :: other :: after)).2.find? =
          (store.perform alloc (other :: one :: after)).2.find? := by
  obtain ⟨unmoved, bindings⟩ := execute_swap alloc store differs
  obtain ⟨unmoved', -⟩ := execute_swap alloc store differs.symm
  obtain ⟨entries, last⟩ := perform_congr alloc after bindings
  let later := ((store.execute alloc one).2.execute alloc other).2.perform alloc after
  refine ⟨(store.execute alloc one).1, (store.execute alloc other).1, later.1, ?_, ?_, last⟩
  · rw [perform_cons, perform_cons, unmoved]
  · rw [perform_cons, perform_cons, unmoved', ← entries]

/-- The keys of a store do not interfere. Whatever requests are carried out one after another: those
on one key are answered, and leave the key bound, as if they had been the only ones. So two rows of
requests with the same requests on each key in the same order are answered alike and leave the same
bindings; and two neighbours on different keys can be exchanged, with nothing else changed. -/
theorem keys_independent (alloc : Allocator) (store : Store) :
    (∀ requests key,
      (store.perform alloc requests).1.filter (fun entry => entry.1.key = key) =
          (store.perform alloc (requests.filter fun request => request.key = key)).1 ∧
        (store.perform alloc requests).2.find? key =
          (store.perform alloc (requests.filter fun request => request.key = key)).2.find? key) ∧
    (∀ first second : List Request,
      (∀ key, first.filter (fun request => request.key = key) =
        second.filter fun request => request.key = key) →
      (store.perform alloc first).2.find? = (store.perform alloc second).2.find? ∧
        ∀ key, (store.perform alloc first).1.filter (fun entry => entry.1.key = key) =
          (store.perform alloc second).1.filter fun entry => entry.1.key = key) ∧
    ∀ before after one other, one.key ≠ other.key →
      ∃ earlier later reply reply',
        (store.perform alloc (before ++ one :: other :: after)).1 =
            earlier ++ (one, reply) :: (other, reply') :: later ∧
          (store.perform alloc (before ++ other :: one :: after)).1 =
            earlier ++ (other, reply') :: (one, reply) :: later ∧
          (store.perform alloc (before ++ one :: other :: after)).2.find? =
            (store.perform alloc (before ++ other :: one :: after)).2.find? := by
  refine ⟨fun requests key => perform_filter alloc requests rfl, ?_, ?_⟩
  · intro first second same
    have both (key : Key) := @perform_filter store store key alloc first rfl
    have both' (key : Key) := @perform_filter store store key alloc second rfl
    refine ⟨funext fun key => ?_, fun key => ?_⟩
    · rw [(both key).2, (both' key).2, same]
    · rw [(both key).1, (both' key).1, same]
  · intro before after one other differs
    obtain ⟨reply, reply', entries, forth, back, last⟩ :=
      perform_swap alloc (store.perform alloc before).2 after differs
    refine ⟨(store.perform alloc before).1, entries, reply, reply', ?_, ?_, ?_⟩
    · rw [perform_append, forth]
    · rw [perform_append, back]
    · rw [perform_append, perform_append]
      exact last

/-- Two ways of mixing what is asked of key `1`, for which memory is refused once, with what is
asked of key `2`. -/
theorem keys_independent_of_mixed_requests :
    let alloc : Allocator := .upTo 1
    let first : List Request :=
      [.create 1 [97], .create 2 [98], .delete 1, .update 2 [], .create 1 [99, 99], .read 2]
    let second : List Request :=
      [.create 2 [98], .update 2 [], .create 1 [97], .read 2, .delete 1, .create 1 [99, 99]]
    (∀ key, first.filter (fun request => request.key = key) =
        second.filter fun request => request.key = key) ∧
      ((∅ : Store).perform alloc first).2.find? = ((∅ : Store).perform alloc second).2.find? ∧
      ((∅ : Store).perform alloc second).1.filter (fun entry => entry.1.key = 1) =
        [(.create 1 [97], .ok), (.delete 1, .ok),
          (.create 1 [99, 99], .error "out of memory")] ∧
      ((∅ : Store).perform alloc (first.filter fun request => request.key = 2)).1 =
        [(.create 2 [98], .ok), (.update 2 [], .error "size must be > 0"),
          (.read 2, .value [98])] := by
  intro alloc first second
  have same (key : Key) : first.filter (fun request => request.key = key) =
      second.filter fun request => request.key = key := by
    by_cases one : key = 1
    · subst one
      decide
    · by_cases two : key = 2
      · subst two
        decide
      · simp [first, second, Request.key, Ne.symm one, Ne.symm two]
  obtain ⟨alone, mixed, -⟩ := keys_independent alloc ∅
  obtain ⟨bindings, replies⟩ := mixed first second same
  refine ⟨same, bindings, ?_, ?_⟩
  · rw [← replies 1]
    decide +kernel
  · rw [← (alone first 2).1]
    decide +kernel

end WireStore.Store
