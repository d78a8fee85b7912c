import WireStore.Frame.Reply
import WireStore.Frame.Request
import WireStore.Store

/-!
# Carrying out requests

A request maps a store to a reply and a store. A request that fails is answered
with the message of its error and leaves the store as it was.
-/

namespace WireStore.Store

/-- The reply to a change of the store, and the store after it. -/
def acknowledge (before : Store) : Except Error Store → Reply × Store
  | .ok after => (.ok, after)
  | .error reason => (.ofError reason, before)

/-- Carries out a request. -/
def execute (store : Store) (alloc : Allocator) (request : Request) : Reply × Store :=
  match request with
  | .create key value => store.acknowledge (store.create alloc key value)
  | .update key value => store.acknowledge (store.update alloc key value)
  | .delete key => store.acknowledge (store.delete key)
  | .read key =>
    match store.read key with
    | .ok value => (.value value, store)
    | .error reason => (.ofError reason, store)

end WireStore.Store
