import WireStore.Proofs.Store.Bindings

/-!
# What a store has been through

Operations follow one another on a store that begins empty, and some of them
fail: for want of memory, before or after the key was looked up, because a key is
bound or is not, or because it was to be bound anew to nothing. What the store
holds for a key can be told from the operations on that key which succeeded and
changed something, and from nothing else.

`Life` is the grammar of such changes to one key, with the value bound after
them. An operation prolongs the life of its key by at most one change and that
of every other key by none (`life_operate`); all else is said of lives.
-/

namespace WireStore.Store

/-- An operation, and what it came to: a read gives a value, a change gives none. -/
structure Entry where
  request : Request
  result : Except Error (Option Bytes)

def changed (before : Store) : Except Error Store → Except Error (Option Bytes) × Store
  | .ok after => (.ok none, after)
  | .error reason => (.error reason, before)

/-- One operation, with the memory there is for it. -/
def operate (store : Store) (alloc : Allocator) : Request → Except Error (Option Bytes) × Store
  | .create key value => store.changed (store.create alloc key value)
  | .update key value => store.changed (store.update alloc key value)
  | .read key => ((store.read key).map some, store)
  | .delete key => store.changed (store.delete key)

/-- Operations one after another, as they came out, and the store after them. -/
def history (store : Store) : List (Allocator × Request) → List Entry × Store
  | [] => ([], store)
  | (alloc, request) :: others =>
    let (result, after) := store.operate alloc request
    let (entries, last) := after.history others
    (⟨request, result⟩ :: entries, last)

/-! ## Changes to one key -/

inductive Change where
  | created (value : Bytes)
  | updated (value : Bytes)
  | deleted
  deriving DecidableEq

namespace Change

def value? : Change → Option Bytes
  | created value | updated value => some value
  | deleted => none

def isCreation : Change → Bool
  | created _ => true
  | _ => false

def isDeletion : Change → Bool
  | deleted => true
  | _ => false

/-- The change that an operation makes if it succeeds. -/
def of? : Request → Option Change
  | .create _ value => some (created value)
  | .update _ value => some (updated value)
  | .read _ => none
  | .delete _ => some deleted

end Change

/-- The change that an operation made to a key. -/
def Entry.change? (key : Key) (entry : Entry) : Option Change :=
  match entry.result with
  | .ok _ => if entry.request.key = key then Change.of? entry.request else none
  | .error _ => none

def changes (key : Key) (entries : List Entry) : List Change :=
  entries.filterMap (Entry.change? key)

/-- The creations and deletions among some changes. -/
def bounds (changes : List Change) : List Change :=
  changes.filter fun change => change.isCreation || change.isDeletion

/-- The value of the last change, unless that was a deletion. -/
def lastValue? (changes : List Change) : Option Bytes :=
  changes.getLast?.bind Change.value?

def recalled (changes : List Change) : Except Error Bytes :=
  (lastValue? changes).elim (.error .keyNotFound) .ok

/-- Holds of changes of which the first, the third and so on are creations, and no others. -/
def Alternate (changes : List Change) : Prop :=
  ∀ index change, changes[index]? = some change → change.isCreation = decide (index % 2 = 0)

variable {past : List Change} {bound : Option Bytes} {change : Change}

theorem bounds_concat_of_bound (isBound : (change.isCreation || change.isDeletion) = true) :
    bounds (past ++ [change]) = bounds past ++ [change] := by
  simp only [bounds, List.filter_append, List.filter_cons, isBound, if_true, List.filter_nil]

theorem bounds_concat_updated (value : Bytes) :
    bounds (past ++ [.updated value]) = bounds past := by
  simp [bounds, Change.isCreation, Change.isDeletion]

theorem Alternate.concat (alternate : Alternate past)
    (next : change.isCreation = decide (past.length % 2 = 0)) : Alternate (past ++ [change]) := by
  intro index other here
  by_cases earlier : index < past.length
  · rw [List.getElem?_append_left earlier] at here
    exact alternate index other here
  · obtain ⟨last, -⟩ := List.getElem?_eq_some_iff.mp here
    rw [List.length_append, List.length_singleton] at last
    obtain rfl : index = past.length := by omega
    rw [List.getElem?_concat_length] at here
    cases here
    exact next

/-- The changes that a key can undergo, and the value bound to it after them. -/
inductive Life : List Change → Option Bytes → Prop
  | unbound : Life [] none
  | created {past : List Change} (value : Bytes) (life : Life past none) :
      Life (past ++ [.created value]) (some value)
  | updated {past : List Change} {old : Bytes} (value : Bytes) (filled : value ≠ [])
      (life : Life past (some old)) : Life (past ++ [.updated value]) (some value)
  | deleted {past : List Change} {old : Bytes} (life : Life past (some old)) :
      Life (past ++ [.deleted]) none

namespace Life

theorem lastValue?_eq (life : Life past bound) : lastValue? past = bound := by
  cases life with
  | unbound => rfl
  | created value life | updated value filled life | deleted life =>
    rw [lastValue?, List.getLast?_concat]
    rfl

/-- Creations and deletions alternate, and a key is bound while there is one creation more. -/
theorem alternate_bounds (life : Life past bound) :
    Alternate (bounds past) ∧ ((bounds past).length % 2 = 0 ↔ bound = none) := by
  induction life with
  | unbound => exact ⟨nofun, by simp [bounds]⟩
  | created value life ih =>
    obtain ⟨alternate, even⟩ := ih
    have parity := even.mpr rfl
    rw [bounds_concat_of_bound rfl, List.length_append, List.length_singleton]
    refine ⟨alternate.concat (decide_eq_true parity).symm, ?_⟩
    simp only [reduceCtorEq, iff_false]
    omega
  | updated value filled life ih =>
    rw [bounds_concat_updated]
    simpa using ih
  | deleted life ih =>
    obtain ⟨alternate, even⟩ := ih
    have parity : ¬(bounds _).length % 2 = 0 := fun zero => nomatch even.mp zero
    rw [bounds_concat_of_bound rfl, List.length_append, List.length_singleton]
    refine ⟨alternate.concat (decide_eq_false parity).symm, ?_⟩
    simp only [iff_true]
    omega

/-- The latest creation of a bound key has not been followed by a deletion. -/
theorem exists_creation (life : Life past bound) (isBound : bound.isSome = true) :
    ∃ first, (bounds past).getLast? = some (.created first) := by
  induction life with
  | unbound => exact nomatch isBound
  | created value life ih =>
    rw [bounds_concat_of_bound rfl, List.getLast?_concat]
    exact ⟨value, rfl⟩
  | updated value filled life ih =>
    rw [bounds_concat_updated]
    exact ih rfl
  | deleted life ih => exact nomatch isBound

/-- An update falls between a creation and the next deletion. -/
theorem exists_creation_of_updated (life : Life past bound) {earlier : List Change}
    {value : Bytes} (here : earlier ++ [.updated value] <+: past) :
    ∃ first, (bounds earlier).getLast? = some (.created first) := by
  induction life with
  | unbound => simp at here
  | created other life ih =>
    rcases List.prefix_concat_iff.mp here with same | before
    · exact nomatch (List.append_inj' same rfl).2
    · exact ih before
  | updated other filled life ih =>
    rcases List.prefix_concat_iff.mp here with same | before
    · obtain rfl := (List.append_inj' same rfl).1
      exact life.exists_creation rfl
    · exact ih before
  | deleted life ih =>
    rcases List.prefix_concat_iff.mp here with same | before
    · exact nomatch (List.append_inj' same rfl).2
    · exact ih before

theorem countP_isCreation (life : Life past bound) :
    past.countP Change.isCreation =
      past.countP Change.isDeletion + (if bound.isSome then 1 else 0) := by
  induction life with
  | unbound => rfl
  | created value life ih | updated value filled life ih | deleted life ih =>
    simp only [List.countP_append, ih]
    rfl

/-- Only a creation binds a key to nothing. -/
theorem created_of_empty (life : Life past (some [])) : past.getLast? = some (.created []) := by
  cases life with
  | created value life => rw [List.getLast?_concat]
  | updated value filled life => exact absurd rfl filled

end Life

/-! ## Operations one after another -/

variable {store after : Store} {alloc : Allocator} {request : Request} {key : Key}
  {result : Except Error (Option Bytes)} {entries : List Entry}

/-- An operation that came out as `result` made no change. -/
def Idle (request : Request) (result : Except Error (Option Bytes)) : Prop :=
  Change.of? request = none ∨ ∃ reason, result = .error reason

/-- What an operation does: nothing, or a change to its key that the life of the key allows. -/
theorem operate_cases (operated : store.operate alloc request = (result, after)) :
    (after = store ∧ Idle request result) ∨
      ∃ change, Change.of? request = some change ∧ result = .ok none ∧
        after.find? = Bindings.set store.find? request.key change.value? ∧
        ∀ past, Life past (store.find? request.key) → Life (past ++ [change]) change.value? := by
  cases request with
  | create key value =>
    simp only [operate, create] at operated
    by_cases unbound : store.contains key = false
    · by_cases room : alloc value.length = true
      · rw [dif_pos unbound, if_pos room] at operated
        obtain ⟨rfl, rfl⟩ := Prod.mk.inj operated
        refine .inr ⟨.created value, rfl, rfl, find?_bind_eq_set unbound, fun past life => ?_⟩
        exact .created value (contains_eq_false_iff.mp unbound ▸ life)
      · rw [dif_pos unbound, if_neg room] at operated
        obtain ⟨rfl, rfl⟩ := Prod.mk.inj operated
        exact .inl ⟨rfl, .inr ⟨_, rfl⟩⟩
    · rw [dif_neg unbound] at operated
      obtain ⟨rfl, rfl⟩ := Prod.mk.inj operated
      exact .inl ⟨rfl, .inr ⟨_, rfl⟩⟩
  | update key value =>
    simp only [operate, update] at operated
    by_cases empty : value.isEmpty = true
    · rw [if_pos empty] at operated
      obtain ⟨rfl, rfl⟩ := Prod.mk.inj operated
      exact .inl ⟨rfl, .inr ⟨_, rfl⟩⟩
    rw [if_neg empty] at operated
    by_cases bound : store.contains key = true
    · rw [if_pos bound] at operated
      by_cases room : alloc value.length = true
      · rw [if_pos room] at operated
        obtain ⟨rfl, rfl⟩ := Prod.mk.inj operated
        obtain ⟨old, found⟩ := contains_iff.mp bound
        refine .inr ⟨.updated value, rfl, rfl, find?_replace_eq_set bound, fun past life => ?_⟩
        have before : Life past (some old) := found ▸ life
        exact before.updated value (by simpa using empty)
      · rw [if_neg room] at operated
        obtain ⟨rfl, rfl⟩ := Prod.mk.inj operated
        exact .inl ⟨rfl, .inr ⟨_, rfl⟩⟩
    · rw [if_neg bound] at operated
      obtain ⟨rfl, rfl⟩ := Prod.mk.inj operated
      exact .inl ⟨rfl, .inr ⟨_, rfl⟩⟩
  | read key =>
    obtain ⟨-, rfl⟩ := Prod.mk.inj operated
    exact .inl ⟨rfl, .inl rfl⟩
  | delete key =>
    simp only [operate, delete] at operated
    by_cases bound : store.contains key = true
    · rw [if_pos bound] at operated
      obtain ⟨rfl, rfl⟩ := Prod.mk.inj operated
      obtain ⟨old, found⟩ := contains_iff.mp bound
      refine .inr ⟨.deleted, rfl, rfl, find?_erase_eq_set, fun past life => ?_⟩
      have before : Life past (some old) := found ▸ life
      exact before.deleted
    · rw [if_neg bound] at operated
      obtain ⟨rfl, rfl⟩ := Prod.mk.inj operated
      exact .inl ⟨rfl, .inr ⟨_, rfl⟩⟩

theorem changes_of_idle (idle : Idle request result) (key : Key) :
    changes key [⟨request, result⟩] = [] := by
  rcases idle with reads | ⟨reason, rfl⟩
  · cases result <;> simp [changes, Entry.change?, reads]
  · rfl

theorem changes_singleton (changes? : Change.of? request = some change) (value : Option Bytes)
    (key : Key) :
    changes key [⟨request, .ok value⟩] = if request.key = key then [change] else [] := by
  by_cases here : request.key = key <;> simp [changes, Entry.change?, here, changes?]

theorem changes_append (key : Key) (first second : List Entry) :
    changes key (first ++ second) = changes key first ++ changes key second :=
  List.filterMap_append ..

/-- An operation prolongs the life of its key by one change at most, and no other. -/
theorem life_operate (operated : store.operate alloc request = (result, after)) (key : Key)
    (life : Life past (store.find? key)) :
    Life (past ++ changes key [⟨request, result⟩]) (after.find? key) := by
  rcases operate_cases operated with ⟨rfl, idle⟩ | ⟨change, changed, rfl, bindings, allowed⟩
  · rw [changes_of_idle idle, List.append_nil]
    exact life
  · rw [changes_singleton changed, bindings]
    by_cases here : request.key = key
    · subst here
      rw [if_pos rfl, Bindings.set, if_pos rfl]
      exact allowed past life
    · rw [if_neg here, List.append_nil, Bindings.set, if_neg (Ne.symm here)]
      exact life

theorem read_eq_recalled (life : Life past (store.find? key)) : store.read key = recalled past := by
  rw [recalled, life.lastValue?_eq, read]
  cases store.find? key <;> rfl

/-- What has been said of the entries of a history stays true of those that follow. -/
theorem life_history (calls : List (Allocator × Request)) (earlier : List Entry)
    (life : ∀ key, Life (changes key earlier) (store.find? key)) :
    (∀ key, Life (changes key (earlier ++ (store.history calls).1))
      ((store.history calls).2.find? key)) ∧
    ∀ before key result, before ++ [⟨.read key, result⟩] <+: (store.history calls).1 →
      result = (recalled (changes key (earlier ++ before))).map some := by
  induction calls generalizing store earlier with
  | nil =>
    refine ⟨fun key => ?_, fun before key result here => ?_⟩
    · simpa [history] using life key
    · simp [history] at here
  | cons call calls ih =>
    obtain ⟨alloc, request⟩ := call
    rcases operated : store.operate alloc request with ⟨result, after⟩
    have later := ih (earlier ++ [⟨request, result⟩]) (fun key => by
      rw [changes_append]
      exact life_operate operated key (life key))
    simp only [history, operated]
    rw [List.append_assoc, List.singleton_append] at later
    refine ⟨later.1, fun before key read here => ?_⟩
    cases before with
    | nil =>
      -- the first entry is the read itself
      obtain ⟨rfl, rfl⟩ := by simpa using here
      rw [List.append_nil, ← read_eq_recalled (life key)]
      exact (congrArg Prod.fst operated).symm
    | cons entry before =>
      rw [List.cons_append, List.cons_prefix_cons] at here
      obtain ⟨rfl, here⟩ := here
      have said := later.2 before key read here
      rwa [List.append_assoc, List.singleton_append] at said

/-- What the entries of a history say of a key. -/
structure Tells (entries : List Entry) (store : Store) (key : Key) : Prop where
  /-- The key has the value of its last creation or update, unless it was deleted after that. -/
  read : store.read key = recalled (changes key entries)
  alternate : Alternate (bounds (changes key entries))
  /-- Before an update the latest of the creations and deletions is a creation. -/
  updates : ∀ earlier value, earlier ++ [.updated value] <+: changes key entries →
    ∃ first, (bounds earlier).getLast? = some (.created first)
  contains : store.contains key = true ↔
    (changes key entries).countP Change.isDeletion < (changes key entries).countP Change.isCreation
  empty : store.find? key = some [] → (changes key entries).getLast? = some (.created [])

theorem Life.tells (life : Life (changes key entries) (store.find? key)) :
    Tells entries store key where
  read := read_eq_recalled life
  alternate := life.alternate_bounds.1
  updates := fun _ _ here => life.exists_creation_of_updated here
  contains := by
    rw [life.countP_isCreation, Store.contains]
    split <;> simp_all
  empty := fun empty => (empty ▸ life).created_of_empty

/-- Whatever is done with a store that began empty, and whatever memory there is for it each
time: what the store holds for a key, and whether it holds anything, is what the operations on the
key that succeeded say; and so is what every read on the way came to. -/
theorem history_tells (calls : List (Allocator × Request)) :
    (∀ key, Tells ((∅ : Store).history calls).1 ((∅ : Store).history calls).2 key) ∧
    ∀ before key result, before ++ [⟨.read key, result⟩] <+: ((∅ : Store).history calls).1 →
      result = (recalled (changes key before)).map some := by
  have fresh : ∀ key, Life (changes key []) ((∅ : Store).find? key) := fun _ => .unbound
  obtain ⟨lives, reads⟩ := life_history calls [] fresh
  exact ⟨fun key => (lives key).tells, reads⟩

end WireStore.Store
