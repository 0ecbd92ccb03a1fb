import TangleAccelerator.Core.Buffer
import TangleAccelerator.Core.Mam

/-!
# The periodical task

`api_send_mam_message` of `apis.c` and `periodical_task.c`.

A client's MAM request is stored under a new UUID, and the UUID is pushed on the MAM
buffer list.  The thread `health_track` later sends what is buffered.  Both broadcast
functions repeat one iteration until the buffer list is empty or something fails:

1. read the UUID at the head of the buffer list (`LINDEX 0`);
2. send what is stored under it and store the result (`publish`), taking the write lock on
   the way;
3. pop the head of the buffer list (`LPOP`), push what was popped on the complete list and
   release the lock.

`broadcastIteration` is that iteration.  It returns the UUID of step 1, what was sent, and
the UUID of step 3.  Nothing in it compares the two.

The loops have no bound in the source.  They take fuel here, and `none` says that the fuel
ran out.
-/

namespace TangleAccelerator

open Effect

/-- The JSON texts of MAM requests and results.  Writing one fails only where memory is
short. -/
structure Codec where
  /-- `send_mam_message_req_deserialize`. -/
  sendMamReq : String → Except Status SendMamReq
  /-- `send_mam_message_res_serialize` of a result. -/
  sendMamRes : SendMamRes → String
  /-- `send_mam_message_res_serialize` of a UUID. -/
  sendMamUuid : Uuid → String

/-- `api_send_mam_message`: the UUID it stores the request under, and the answer. -/
def apiSendMamMessage (J : Codec) (cache : TaCache) (obj : String) : Proc (Uuid × String) := do
  let _ ← settle (J.sendMamReq obj)
  let uuid ← request .uuidGenerateRandom
  cacheSet cache.state (.uuid uuid) obj cache.timeout
  cacheListPush cache.state (.list .mamBuffer) uuid
  pure (uuid, J.sendMamUuid uuid)

/-! ## One iteration -/

/-- What an iteration did. -/
structure Iteration (α : Type) where
  peeked : Uuid
  sent : α
  popped : Uuid

/-- How a pass of the loop of a broadcast function ends without an error. -/
inductive Pass (α : Type) where
  /-- The buffer list is empty. -/
  | empty
  | moved (it : Iteration α)
  /-- The model of a loop of `publish` ran out of fuel. -/
  | outOfFuel

/-- One pass of the loop of a broadcast function. -/
def broadcastIteration {α : Type} (state : Bool) (bufferList completeList : ListName)
    (publish : Uuid → Proc (Option α)) : Proc (Pass α) := do
  let len ← cacheListSize state (.list bufferList)
  if len = 0 then
    pure .empty
  else do
    let uuid ← cacheListPeek state (.list bufferList)
    match ← publish uuid with
    | none => pure .outOfFuel
    | some sent => do
        let popped ← cacheListPop state (.list bufferList)
        cacheListPush state (.list completeList) popped
        ensure (← request .unlock) .cacheLockFailure
        pure (.moved ⟨uuid, sent, popped⟩)

/-- The loop of a broadcast function. -/
def broadcastLoop {α : Type} (iteration : Proc (Pass α)) : Nat → Proc (Option Unit)
  | 0 => pure none
  | fuel + 1 => do
      match ← iteration with
      | .empty => pure (some ())
      | .moved _ => broadcastLoop iteration fuel
      | .outOfFuel => pure none

/-! ## Buffered transactions -/

section Broadcast

variable (I : Iota) (M : MamLib) (J : Codec) (core : TaCore) (fuel : Nat)

/-- The steps of `broadcast_buffered_txn` between the peek and the pop.  The value is what
was handed to `ta_send_trytes`. -/
def publishTxn (uuid : Uuid) : Proc (Option (List Hash8019)) := do
  let len ← cacheListSize core.cache.state (.uuid uuid)
  let trytes ← cacheListRead core.cache.state (.uuid uuid) (List.range len)
  let attached ← taSendTrytes I core.taConf core.iotaConf trytes
  let hashes := (attached.take len).map fun t => (I.deserialize t true).hash
  let stored ← demand (← request (.getTrytes hashes)) .cclientFailedResponse
  cacheDel core.cache.state (.uuid uuid)
  cacheListPushAll core.cache.state (.uuid uuid) stored
  ensure (← request .trywrlock) .cacheLockFailure
  pure (some trytes)

/-- One pass of the loop of `broadcast_buffered_txn`. -/
def broadcastTxnIteration : Proc (Pass (List Hash8019)) :=
  broadcastIteration core.cache.state .buffer .complete (publishTxn I core)

/-- `broadcast_buffered_txn`. -/
def broadcastBufferedTxn : Proc (Option Unit) :=
  broadcastLoop (broadcastTxnIteration I core) fuel

/-! ## Buffered MAM requests -/

/-- The steps of `broadcast_buffered_send_mam_request` between the peek and the pop.  The
value is the text of the request. -/
def publishMam (uuid : Uuid) : Proc (Option String) := do
  let json ← cacheGet core.cache.state (.uuid uuid)
  let req ← settle (J.sendMamReq json)
  match ← taSendMamMessage I M fuel core.taConf core.iotaConf req with
  | none => pure none
  | some res => do
      ensure (← request .trywrlock) .cacheLockFailure
      cacheDel core.cache.state (.uuid uuid)
      cacheSet core.cache.state (.uuid uuid) (J.sendMamRes res) core.cache.timeout
      pure (some json)

/-- One pass of the loop of `broadcast_buffered_send_mam_request`. -/
def broadcastMamIteration : Proc (Pass String) :=
  broadcastIteration core.cache.state .mamBuffer .mamComplete (publishMam I M J core fuel)

/-- `broadcast_buffered_send_mam_request`. -/
def broadcastBufferedSendMamRequest : Proc (Option Unit) :=
  broadcastLoop (broadcastMamIteration I M J core fuel) fuel

/-! ## The thread -/

/-- `ta_get_node_status`. -/
def taGetNodeStatus (node : String × Nat) : Proc Unit := do
  match ← request (.getNodeInfo node) with
  | .unreachable => throw .cclientFailedResponse
  | .malformed st => throw st
  | .milestones latest latestSolidSubtangle =>
      ensure (decide (¬ latestSolidSubtangle - latest > 1)) .coreNodeUnsync

/-- `ta_update_full_node_connection`: the node the service is bound to at the end.  Its
status is `SC_OK` also where no node answered. -/
def taUpdateFullNodeConnection : List (String × Nat) → String × Nat → Proc (String × Nat)
  | [], node => pure node
  | host :: hosts, _ => do
      match ← attempt (taGetNodeStatus host) with
      | .ok () => pure host
      | .error _ => taUpdateFullNodeConnection hosts host

/-- The content of the buffer popped UUIDs are written to.  A failed pop leaves it as it is. -/
def afterPop (uuid : Key) : Except Status Uuid → Key
  | .ok u => .uuid u
  | .error _ => uuid

/-- The loop of `health_track` that evicts completed requests.  `uuid` is the content of the
buffer the popped UUIDs are written to. -/
def evict : Nat → Key → Proc (Option Key)
  | 0, _ => pure none
  | fuel + 1, uuid => do
      let occupied ← request .occupiedSpace
      if core.cache.capacity < occupied then do
        match ← request .trywrlock with
        | false => pure (some uuid)
        | true => do
            let popped ← attempt (cacheListPop core.cache.state (.list .complete))
            let uuid' := afterPop uuid popped
            let _ ← attempt (cacheDel core.cache.state uuid')
            unlockLogged
            evict fuel uuid'
      else
        pure (some uuid)

/-- The first part of a round: the node that is used, and the status. -/
def checkNode (node : String × Nat) : Proc ((String × Nat) × Except Status Unit) := do
  match ← attempt (taGetNodeStatus node) with
  | .error .coreNodeUnsync | .error .cclientFailedResponse => do
      let node' ← taUpdateFullNodeConnection core.taConf.iotaHosts node
      pure (node', .ok ())
  | ret => pure (node, ret)

/-- The second part of a round: both broadcasts, each only where nothing failed before it.
`none` where one ran out of fuel. -/
def broadcastBuffered (ret : Except Status Unit) : Proc (Option Unit) := do
  match ret with
  | .error _ => pure (some ())
  | .ok () => do
      match ← attempt (broadcastBufferedTxn I core fuel) with
      | .ok none => pure none
      | .error _ => pure (some ())
      | .ok (some ()) => do
          match ← attempt (broadcastBufferedSendMamRequest I M J core fuel) with
          | .ok none => pure none
          | _ => pure (some ())

/-- The body of the loop of `health_track`. -/
def healthTrackRound (node : String × Nat) (uuid : Key) : Proc (Option ((String × Nat) × Key)) := do
  let (node', ret) ← checkNode core node
  match ← broadcastBuffered I M J core fuel ret with
  | none => pure none
  | some () => do
      let uuid' ← evict core fuel uuid
      pure (uuid'.map fun u => (node', u))

/-- The first rounds of `health_track`. -/
def healthTrack : Nat → String × Nat → Key → Proc Unit
  | 0, _, _ => pure ()
  | rounds + 1, node, uuid =>
      if core.cache.state then do
        match ← healthTrackRound I M J core fuel node uuid with
        | none => pure ()
        | some (node', uuid') => healthTrack rounds node' uuid'
      else
        pure ()

end Broadcast

end TangleAccelerator
