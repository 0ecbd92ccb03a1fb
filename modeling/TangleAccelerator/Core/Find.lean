import TangleAccelerator.Core.Mam
import TangleAccelerator.Core.Transfer

/-!
# Finding transaction objects

`ta_find_transactions_obj_by_tag` of `core.c`, and `api_find_transaction_objects` and
`api_find_transactions_obj_by_tag` of `apis.c`.

Both limit the hashes they ask for.  The first takes the hashes at the front of the node's answer,
and the second drops hashes from the front of the request until few enough are left.
-/

namespace TangleAccelerator

open Effect

/-- `RESULT_SET_LIMIT`. -/
def resultSetLimit : Nat := 100

/-- `NUM_TRYTES_TAG`. -/
def numTrytesTag : Nat := 27

/-- The texts of requests for transaction objects and of their answers. -/
structure FindCodec where
  /-- `ta_find_transaction_objects_req_deserialize`. -/
  findReq : String → Except Status (List Hash243)
  /-- `ta_find_transaction_objects_res_serialize`. -/
  findRes : List Transaction → Except Status String

variable (I : Iota) (K : FindCodec)

/-- `ta_find_transactions_obj_by_tag`. -/
def taFindTransactionsObjByTag (state : Bool) (req : FindTransactionsReq) :
    Proc (List Transaction) := do
  let hashes ← demand (← request (.findTransactions req)) .cclientFailedResponse
  taFindTransactionObjects I state (hashes.take resultSetLimit)

/-- The loop of `api_find_transaction_objects` that pops hashes. -/
def popToLimit : List Hash243 → List Hash243
  | [] => []
  | h :: hs => if (h :: hs).length > resultSetLimit then popToLimit hs else h :: hs

/-- `api_find_transaction_objects`. -/
def apiFindTransactionObjects (state : Bool) (obj : String) : Proc String := do
  let hashes ← settle (K.findReq obj)
  let res ← taFindTransactionObjects I state (popToLimit hashes)
  settle (K.findRes res)

/-- `flex_trits_from_trytes` on a text of at least as many trytes as a tag has. -/
def tagFromTrytes (trytes : List Tryte) : Hash81 := Vector.ofFn fun i : Fin 27 => trytes.getD i 0

/-- The tag of a request.  A text that is too short is filled, and one that is too long is cut.  The
status of `fill_nines` is dropped. -/
def tagTrits (obj : List Tryte) : Hash81 :=
  if obj.length < numTrytesTag then
    tagFromTrytes ((fillNines obj numTrytesTag).toOption.getD [])
  else
    tagFromTrytes obj

/-- `api_find_transactions_obj_by_tag`. -/
def apiFindTransactionsObjByTag (state : Bool) (obj : List Tryte) : Proc String := do
  let res ← taFindTransactionsObjByTag I state { tags := [tagTrits obj] }
  settle (K.findRes res)

end TangleAccelerator
