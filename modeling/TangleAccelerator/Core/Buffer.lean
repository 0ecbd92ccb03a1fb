import TangleAccelerator.Cache.Backend
import TangleAccelerator.Core.Send

/-!
# The buffer of unsent requests

`push_txn_to_buffer`, `ta_fetch_txn_with_uuid` and `ta_fetch_mam_with_uuid` of `core.c`.

A bundle that could not be sent is stored, one transaction after the other, in a list
under a new UUID, and the UUID is pushed on the buffer list.  A client asks for it by its
UUID.  The two fetch functions hold the read lock while they look for the UUID in the
buffer list and in the complete list.  A fetch of a sent request deletes what is stored
under the UUID and pops the complete list.

An unlock that fails is only logged (`unlockLogged`).
-/

namespace TangleAccelerator

open Effect

/-- Read the elements of a list at the given indices. -/
def cacheListRead (state : Bool) (key : Key) : List Nat → Proc (List key.Elem)
  | [] => pure []
  | i :: is => do
      let e ← cacheListAt state key i
      let es ← cacheListRead state key is
      pure (e :: es)

/-- Push the elements on a list, in the order given. -/
def cacheListPushAll (state : Bool) (key : Key) : List key.Elem → Proc Unit
  | [] => pure ()
  | e :: es => do
      cacheListPush state key e
      cacheListPushAll state key es

/-! ## Pushing -/

/-- The part of `push_txn_to_buffer` after the UUID is drawn. -/
def bufferTxn (cache : TaCache) (trytes : List Hash8019) (uuid : Uuid) : Proc Unit := do
  cacheListPushAll cache.state (.uuid uuid) trytes
  cacheListPush cache.state (.list .buffer) uuid

/-- `push_txn_to_buffer`: the UUID it writes to its argument, and its status. -/
def pushTxnToBuffer (cache : TaCache) (trytes : List Hash8019) :
    Proc (Uuid × Except Status Unit) := do
  let uuid ← request .uuidGenerateRandom
  let ret ← attempt (bufferTxn cache trytes uuid)
  pure (uuid, ret)

/-! ## Fetching -/

/-- `request_with_uuid_status_t`. -/
inductive RequestStatus where
  | unsent
  | notExist
  | sent
deriving DecidableEq, Repr

/-- `ta_fetch_buffered_request_status_res_t`. -/
structure FetchRes where
  status : RequestStatus := .notExist
  bundle : List Transaction := []
  mamResult : Option String := none
deriving DecidableEq

/-- Release the lock, and only log where that fails. -/
def unlockLogged : Proc Unit := do
  let _ ← request .unlock

/-- `ta_fetch_txn_with_uuid`.  Where the second scan or the size fails, it returns without
releasing the read lock. -/
def taFetchTxnWithUuid (I : Iota) (cache : TaCache) (uuid : Uuid) : Proc FetchRes := do
  ensure (← request .tryrdlock) .cacheLockFailure
  match ← attempt (cacheListExist cache.state .buffer uuid) with
  | .error e => do
      unlockLogged
      throw e
  | .ok true => do
      unlockLogged
      pure { status := .unsent }
  | .ok false => do
      match ← cacheListExist cache.state .complete uuid with
      | true => do
          let len ← cacheListSize cache.state (.uuid uuid)
          unlockLogged
          let trytes ← cacheListRead cache.state (.uuid uuid) (List.range len)
          cacheDel cache.state (.uuid uuid)
          let _ ← cacheListPop cache.state (.list .complete)
          pure { status := .sent, bundle := trytes.map (I.deserialize · false) }
      | false => do
          unlockLogged
          pure { status := .notExist }

/-- `ta_fetch_mam_with_uuid`. -/
def taFetchMamWithUuid (cache : TaCache) (uuid : Uuid) : Proc FetchRes := do
  ensure (← request .tryrdlock) .cacheLockFailure
  match ← attempt (cacheListExist cache.state .mamBuffer uuid) with
  | .error e => do
      unlockLogged
      throw e
  | .ok true => do
      unlockLogged
      pure { status := .unsent }
  | .ok false => do
      match ← attempt (cacheListExist cache.state .mamComplete uuid) with
      | .error e => do
          unlockLogged
          throw e
      | .ok true => do
          unlockLogged
          let mamResult ← cacheGet cache.state (.uuid uuid)
          cacheDel cache.state (.uuid uuid)
          let _ ← cacheListPop cache.state (.list .mamComplete)
          pure { status := .sent, mamResult := some mamResult }
      | .ok false => do
          unlockLogged
          pure { status := .notExist }

end TangleAccelerator
