import TangleAccelerator.Core.Buffer

/-!
# Sending a transfer

`ta_find_transaction_objects` and `ta_send_transfer` of `core.c`, and `api_send_transfer` of
`apis.c`.

`ta_send_transfer` reports through its status and through the fields of its result.  Where
`ta_send_trytes` fails it buffers the bundle, sets the field `uuid`, and returns the status
of `ta_send_trytes`.  `api_send_transfer` takes the status `SC_CCLIENT_FAILED_RESPONSE` to
mean that this has happened, and answers with whatever the result holds.

`txn_array` is not initialised by `ta_send_transfer_res_new`.  A serializer that finds no
UUID reads it, so an answer from a result with neither is `TransferAnswer.unset`.
-/

namespace TangleAccelerator

open Effect

/-- `ta_send_transfer_req_t`, as far as `ta_send_transfer` reads it. -/
structure SendTransferReq where
  tag : Hash81
  address : Hash243
  message : List Tryte

/-- `ta_send_transfer_res_t`, as `ta_send_transfer` leaves it. -/
structure SendTransferRes where
  hash : List Hash243 := []
  uuid : Option Uuid := none
  address : Option Hash243 := none

/-- What `api_send_transfer` answers. -/
inductive TransferAnswer where
  | uuid (u : Uuid) (address : Option Hash243)
  | txn (tx : Transaction)
  /-- Read from a `txn_array` that was never set. -/
  | unset

variable (I : Iota)

/-! ## Finding transaction objects -/

/-- The loop over the requested hashes: the objects in the cache, and the other hashes. -/
def cachedObjects (state : Bool) :
    List Hash243 → Proc (List Transaction × List Hash243)
  | [] => pure ([], [])
  | h :: hs => do
      let value ← attempt (cacheGet state (.txn h))
      let (found, uncached) ← cachedObjects state hs
      match value with
      | .ok text => pure (I.deserialize (I.fromTrytes text) true :: found, uncached)
      | .error _ => pure (found, h :: uncached)

/-- The loop over the other hashes.  Each pass appends what the node returns and then a
copy of the first object of the array. -/
def uncachedObjects : List Hash243 → List Transaction → Proc (List Transaction)
  | [], arr => pure arr
  | h :: hs, arr => do
      let txs ← demand (← request (.getTransactionObjects [h])) .cclientFailedResponse
      uncachedObjects hs (arr ++ txs ++ (arr ++ txs).head?.toList)

/-- The loop that appends the objects of the node to the result. -/
def appendObjects : List Transaction → Proc (List Transaction)
  | [] => pure []
  | tx :: txs => do
      ensure ((← request (.transactionSerialize tx)) && !(I.serialize tx).all (· == 0))
        .cclientNotFound
      let rest ← appendObjects txs
      pure (I.deserialize (I.serialize tx) true :: rest)

/-- `ta_find_transaction_objects`. -/
def taFindTransactionObjects (state : Bool) (hashes : List Hash243) : Proc (List Transaction) := do
  let (found, uncached) ← cachedObjects I state hashes
  let arr ← uncachedObjects uncached []
  let rest ← appendObjects I arr
  pure (found ++ rest)

/-! ## Sending -/

/-- The part of `ta_send_transfer` before the bundle is sent: the bundle and its trytes. -/
def prepareBundle (req : SendTransferReq) : Proc (List Transaction × List Hash8019) := do
  let timestamp ← request .currentTimestampMs
  ensure (← request (.transferMessageSetTrytes req.message)) .oom
  let _ ← request .currentTimestampMs
  let bundle ← demand
    (← request (.prepareTransfers [⟨req.address, req.tag, req.message, timestamp⟩]))
    .cclientFailedResponse
  let raw ← serializeBundle I bundle
  pure (bundle, raw)

/-- `ta_send_transfer`: its result and its status. -/
def taSendTransfer (info : TaConfig) (iconf : IotaConfig) (cache : TaCache)
    (req : SendTransferReq) : Proc (SendTransferRes × Except Status Unit) := do
  match ← attempt (prepareBundle I req) with
  | .error e => pure ({}, .error e)
  | .ok (bundle, raw) => do
      match ← attempt (taSendTrytes I info iconf raw) with
      | .error e => do
          -- the status of the push is dropped
          let (uuid, _) ← pushTxnToBuffer cache raw
          pure ({ uuid := some uuid, address := bundle.head?.map (·.address) }, .error e)
      | .ok _ => do
          match ← request (.findTransactions { bundles := bundle.head?.toList.map (·.bundle) }) with
          | none => pure ({}, .error .cclientFailedResponse)
          | some hashes => pure ({ hash := hashes }, .ok ())

/-- `ta_send_transfer_res_serialize`. -/
def taSendTransferResSerialize (res : SendTransferRes) (txnArray : Option (List Transaction)) :
    Proc TransferAnswer :=
  match res.uuid, txnArray with
  | some uuid, _ => pure (.uuid uuid res.address)
  | none, some txns => do
      let tx ← demand txns.head? .cclientNotFound
      pure (.txn tx)
  | none, none => pure .unset

/-- The part of `api_send_transfer` after `ta_send_transfer`. -/
def answerTransfer (state : Bool) (res : SendTransferRes) :
    Except Status Unit → Proc TransferAnswer
  | .error .cclientFailedResponse => taSendTransferResSerialize res none
  | .error e => throw e
  | .ok () => do
      let h ← demand res.hash.head? .cclientFailedResponse
      let txns ← taFindTransactionObjects I state [h]
      taSendTransferResSerialize res (some txns)

/-- `api_send_transfer`, on a request that was accepted. -/
def apiSendTransfer (core : TaCore) (req : SendTransferReq) : Proc TransferAnswer := do
  let (res, ret) ← taSendTransfer I core.taConf core.iotaConf core.cache req
  answerTransfer I core.cache.state res ret

end TangleAccelerator
