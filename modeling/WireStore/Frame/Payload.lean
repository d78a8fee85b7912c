import WireStore.Allocator
import WireStore.Stream.Source.Lemmas

/-!
# Payloads

A header announces how many bytes follow it. They are consumed in full whether
or not they can be kept, so that the next frame begins where this one ends; a
payload too large for the limit, or for memory, is let by. `read_eq` says that
the ways of consuming it part only in what becomes of its bytes.
-/

namespace WireStore

/-- What became of a payload that arrived in full. -/
inductive Payload where
  | kept (value : Bytes)
  | tooLarge
  | unreservable
  deriving DecidableEq, Repr

/-- Why a payload did not arrive in full. -/
inductive Shortfall where
  /-- The source ended after this many bytes. -/
  | ended (received : Nat)
  | fault (reason : Fault)
  deriving DecidableEq, Repr

namespace Payload

/-- Takes the `size` bytes of a payload. -/
def keep (size : Nat) (source : Source) : Except Shortfall Bytes × Source :=
  let body := source.scanCount size
  match body.stop with
  | .fault reason => (.error (.fault reason), body.rest)
  | _ =>
    if body.taken.length < size then (.error (.ended body.taken.length), body.rest)
    else (.ok body.taken, body.rest)

/-- Lets the `size` bytes of a payload by. -/
def drop (size : Nat) (source : Source) : Except Shortfall Unit × Source :=
  let body := source.passCount size
  match body.stop with
  | .fault reason => (.error (.fault reason), body.rest)
  | _ =>
    if body.count < size then (.error (.ended body.count), body.rest)
    else (.ok (), body.rest)

/-- Consumes the `size` bytes of a payload. -/
def read (alloc : Allocator) (maxSize size : Nat) (source : Source) :
    Except Shortfall Payload × Source :=
  if maxSize < size then
    match drop size source with
    | (.ok (), rest) => (.ok .tooLarge, rest)
    | (.error shortfall, rest) => (.error shortfall, rest)
  else if alloc size then
    match keep size source with
    | (.ok value, rest) => (.ok (.kept value), rest)
    | (.error shortfall, rest) => (.error shortfall, rest)
  else
    match drop size source with
    | (.ok (), rest) => (.ok .unreservable, rest)
    | (.error shortfall, rest) => (.error shortfall, rest)

/-- A payload that is let by ends where one that is kept does, and falls short as it does. -/
theorem drop_eq (size : Nat) (source : Source) :
    drop size source = ((keep size source).1.map fun _ => (), (keep size source).2) := by
  unfold drop keep Source.passCount Source.scanCount
  simp only [Source.pass_eq]
  split
  · rfl
  · split <;> rfl

/-- What becomes of a payload that arrived in full. -/
def judge (alloc : Allocator) (maxSize : Nat) (value : Bytes) (size : Nat) : Payload :=
  if maxSize < size then .tooLarge
  else if alloc size then .kept value
  else .unreservable

/-- Limit and memory decide what becomes of a payload, not where it ends. -/
theorem read_eq (alloc : Allocator) (maxSize size : Nat) (source : Source) :
    read alloc maxSize size source =
      ((keep size source).1.map fun value => judge alloc maxSize value size,
        (keep size source).2) := by
  unfold read judge
  simp only [drop_eq]
  rcases keep size source with ⟨_ | value, rest⟩ <;> simp only [Except.map] <;>
    split <;> (try split) <;> rfl

/-- A payload that was kept has the size announced. -/
theorem length_of_keep {size : Nat} {source rest : Source} {value : Bytes}
    (kept : keep size source = (.ok value, rest)) : value.length = size := by
  have fits : (source.scanCount size).taken.length ≤ size := Source.length_taken_le
  simp only [keep] at kept
  split at kept
  · exact nomatch (Prod.mk.inj kept).1
  · split at kept
    · exact nomatch (Prod.mk.inj kept).1
    · obtain rfl := Except.ok.inj (Prod.mk.inj kept).1
      omega

theorem size_keep_le (size : Nat) (source : Source) :
    (keep size source).2.size ≤ source.size := by
  have kept : (source.scanCount size).taken.length + (source.scanCount size).rest.size =
      source.size := source.size_scan (fun _ => false) (some size)
  simp only [keep]
  split
  · simp only; omega
  · split <;> simp only <;> omega

theorem size_read_le (alloc : Allocator) (maxSize size : Nat) (source : Source) :
    (read alloc maxSize size source).2.size ≤ source.size := by
  rw [read_eq]
  exact size_keep_le size source

end Payload

end WireStore
