import TangleAccelerator.Common.World

/-!
# Sending trytes and bundles

`ta_pow` of `pow.c`, and `ta_attach_to_tangle`, `ta_send_trytes` and `ta_send_bundle` of
`core.c`.

`ta_pow` walks a bundle from its last transaction to its first.  Each transaction gets
the digest of the one after it as its trunk, so the element at the end of the array is
the one attached to the tips.  The walk also stops when it has made one step more than
the last index of that element says.  The index is an `int64_t` and its counter a `size_t`, so
a negative index stands for a large number of steps.

`ta_send_trytes` replaces the trytes it was given by the attached ones, and only when the
node has accepted them.  On a failure they are as they were, so the failure branch of a
caller still holds what it passed in.

`ta_send_bundle` logs the status of `ta_send_trytes` and returns `SC_OK`.
-/

namespace TangleAccelerator

open Effect

/-- The functions of `iota.c` on transactions. -/
structure Iota where
  /-- The bytes `transaction_serialize` writes. -/
  serialize : Transaction → Hash8019
  /-- `transaction_deserialize`.  The flag asks for the hash to be computed. -/
  deserialize : Hash8019 → Bool → Transaction
  /-- `iota_flex_digest`. -/
  digest : Hash8019 → Hash243
  /-- `bundle_finalize`. -/
  finalize : List Transaction → List Transaction
  /-- The trunk and branch in a new `get_transactions_to_approve_res_t`. -/
  freshTips : Hash243 × Hash243
  /-- `flex_trits_from_trytes` on the text of a serialized transaction. -/
  fromTrytes : String → Hash8019

variable (I : Iota)

/-! ## Proof of work -/

/-- The nonce at the end of a serialized transaction. -/
def nonceOf (trytes : Hash8019) : Hash81 :=
  Vector.ofFn fun i : Fin 27 => trytes[2646 + i.val]

/-- `ta_pow_flex`. -/
def taPowFlex (trits : Hash8019) (mwm : Nat) : Proc (Option Hash81) := do
  let ret ← request (.dcurlEntry trits mwm)
  pure (ret.map nonceOf)

/-- What `ta_pow` sets before it serializes a transaction. -/
def setAttachment (tx : Transaction) (trunk branch : Hash243) (timestamp : Nat) : Transaction :=
  { tx with
    trunk := trunk
    branch := branch
    attachmentTimestamp := timestamp
    attachmentTimestampUpper := 3812798742493
    attachmentTimestampLower := 0 }

/-- The loop of `ta_pow`.  The first list is what is left of the bundle from the end, and
`curIdx` is the counter before it is decremented. -/
def taPowLoop (branch : Hash243) (mwm : Nat) :
    List Transaction → UInt64 → Hash243 → List Transaction → Proc (List Transaction)
  | [], _, _, done => pure done
  | tx :: prev, curIdx, ctrunk, done => do
      let timestamp ← request .currentTimestampMs
      let attached := setAttachment tx ctrunk branch timestamp
      ensure (← request (.transactionSerialize attached)) .cclientInvalidFlexTrits
      let nonce ← demand (← taPowFlex (I.serialize attached) mwm) .oom
      let worked := { attached with nonce := nonce }
      if curIdx - 1 = 0 then
        pure (prev.reverse ++ worked :: done)
      else
        taPowLoop branch mwm prev (curIdx - 1) (I.digest (I.serialize worked)) (worked :: done)

/-- `ta_pow`. -/
def taPow (bundle : List Transaction) (trunk branch : Hash243) (mwm : Nat) :
    Proc (List Transaction) := do
  let tx ← demand bundle.getLast? .null
  taPowLoop I branch mwm bundle.reverse (tx.lastIndex.toUInt64 + 1) trunk []

/-! ## Sending -/

/-- Serialize a bundle, one transaction after the other. -/
def serializeBundle : List Transaction → Proc (List Hash8019)
  | [] => pure []
  | tx :: txs => do
      ensure (← request (.transactionSerialize tx)) .cclientFailedResponse
      let trytes ← serializeBundle txs
      pure (I.serialize tx :: trytes)

/-- `ta_attach_to_tangle`. -/
def taAttachToTangle (trytes : List Hash8019) (tips : Hash243 × Hash243) (mwm : Nat) :
    Proc (List Hash8019) := do
  let bundle ← taPow I (trytes.map (I.deserialize · true)) tips.1 tips.2 mwm
  serializeBundle I bundle

/-- The tips `ta_send_trytes` attaches to: those of the node, or those of a new response. -/
def transactionsToApprove (info : TaConfig) (iconf : IotaConfig) : Proc (Hash243 × Hash243) :=
  if info.gtta then do
    demand (← request (.getTransactionsToApprove iconf.milestoneDepth)) .cclientFailedResponse
  else
    pure I.freshTips

/-- `ta_send_trytes`. -/
def taSendTrytes (info : TaConfig) (iconf : IotaConfig) (trytes : List Hash8019) :
    Proc (List Hash8019) := do
  let tips ← transactionsToApprove I info iconf
  let attached ← taAttachToTangle I trytes tips iconf.mwm
  ensure (← request (.storeAndBroadcast attached)) .cclientFailedResponse
  pure attached

/-- `ta_send_bundle`.  It leaves the bundle finalized. -/
def taSendBundle (info : TaConfig) (iconf : IotaConfig) (bundle : List Transaction) :
    Proc (List Transaction) := do
  let finalized := I.finalize bundle
  let _ ← attempt (taSendTrytes I info iconf (finalized.map I.serialize))
  pure finalized

end TangleAccelerator
