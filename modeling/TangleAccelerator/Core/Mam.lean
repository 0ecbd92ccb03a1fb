import TangleAccelerator.Core.Send

/-!
# Sending MAM messages

`mam_core.c`, the sending side.

A channel of depth `d` has `2 ^ d` one-time keys.  `ta_send_mam_message` keeps no record of
the keys it has used.  For each message it creates the channels of the seed again, one
after the other, and reads the tags of the transactions on the address of each channel.
On the first channel that is not full it writes headers, one per key, until the message ID
of a header is not among these tags.  When that leaves one key, the message is followed by
an announcement of the next channel, made with the last key.

The MAM library is a parameter `MamLib` of total functions over a state `Api`.  Whether a
call succeeds is an answer of the world.  A failure carries the library state at that
point, since it is what `mam_api_save` writes at the end.

The loop over channels has no bound in the source.  It takes fuel here, and `none` says
that the fuel ran out.
-/

namespace TangleAccelerator

open Effect

/-! ## Requests and results -/

/-- `ta_send_mam_req_t` with the data and keys of `MAM_V1`. -/
structure SendMamReq where
  seed : Option Hash243
  chMssDepth : Int
  chid : Option Hash243
  message : String
  pskArray : List (Vector Tryte 81)
  ntruArray : List (Vector Tryte 1024)

/-- `ta_send_mam_res_t`.  A field that was not set is the empty string there. -/
structure SendMamRes where
  bundleHash : Option Hash243 := none
  chid : Option Hash243 := none
  msgId : Option MsgId := none
  announcementBundleHash : Option Hash243 := none
  chid1 : Option Hash243 := none

/-- `mam_send_operation_t`. -/
inductive MamSendOperation where
  | announceChid
  | sendMessage
deriving DecidableEq, Repr

/-- `mam_encrypt_key_t`, the sets in the order of insertion. -/
structure MamEncryptKey where
  psks : List (List Tryte × Vector Tryte 81) := []
  ntruPks : List (Vector Tryte 1024) := []
  ntruSks : List (Vector Tryte 1024) := []

/-- The MAM library. -/
structure MamLib where
  /-- `mam_api_t`. -/
  Api : Type
  /-- `mam_api_init`. -/
  apiInit : Hash243 → Api
  /-- The state `mam_api_load` restores. -/
  apiLoad : List UInt8 → Api
  /-- The bytes `mam_api_save` writes. -/
  apiSave : Api → List UInt8
  /-- `mam_api_channel_create`, with the channel ID. -/
  channelCreate : Api → Nat → Hash243 × Api
  /-- `mam_api_bundle_write_header_on_channel` on an empty bundle: the first transaction,
  the others, and the message ID. -/
  writeHeaderOnChannel : Api → Hash243 → MamEncryptKey →
    Transaction × List Transaction × MsgId × Api
  /-- `mam_mss_next` on the key tree of a channel. -/
  mssNext : Api → Hash243 → Api
  /-- `ascii_to_trytes`. -/
  asciiToTrytes : String → List Tryte
  /-- `mam_api_bundle_write_packet`. -/
  writePacket : Api → MsgId → List Tryte → List Transaction → List Transaction × Api
  /-- `mam_api_bundle_announce_channel` on an empty bundle. -/
  announceChannel : Api → Hash243 → Hash243 → MamEncryptKey → List Transaction × MsgId × Api
  /-- What is read in a channel ID that is still zero bytes. -/
  zeroId : Hash243

variable (I : Iota) (M : MamLib)

/-- A function that works on the library state.  A failure carries that state. -/
abbrev MamProc (α : Type) := ExceptT (Status × M.Api) (Prog sig) α

/-- Call a function that does not touch the library state. -/
def withApi {α : Type} (api : M.Api) (x : Proc α) : MamProc M α := do
  match ← attempt x with
  | .ok a => pure a
  | .error e => throw (e, api)

/-- A call of the library that fails with a status. -/
def mamCall (api : M.Api) (f : MamCall) (e : Status) : MamProc M Unit := do
  ensure (← request (.mam f)) (e, api)

/-! ## Keys -/

/-- `bytes_to_trytes`: the upper and the lower half of each byte. -/
def bytesToTrytes : List UInt8 → List Tryte
  | [] => []
  | b :: bs =>
      Fin.ofNat 27 (b.toNat / 16) :: Fin.ofNat 27 (b.toNat % 16) :: bytesToTrytes bs

/-- `fill_nines`, for a text no longer than a tag. -/
def fillNines (old : List Tryte) (newLen : Nat) : Except Status (List Tryte) :=
  if newLen ≠ 27 then .error .null
  else if newLen - old.length ≠ 0 then .ok (old ++ List.replicate (newLen - old.length) 0)
  else .error .utilsWrongInputArg

/-- Add to a set. -/
def setAdd {α : Type} [DecidableEq α] (s : List α) (a : α) : List α :=
  if a ∈ s then s else s ++ [a]

/-- `mam_psk_t_set_add`.  The set is keyed by the ID. -/
def pskSetAdd (psks : List (List Tryte × Vector Tryte 81)) (psk : List Tryte × Vector Tryte 81) :
    List (List Tryte × Vector Tryte 81) :=
  if psk.1 ∈ psks.map Prod.fst then psks else psks ++ [psk]

/-- The loop of `ta_set_mam_key` over the pre-shared keys.  The counter of the IDs is
never incremented, so all keys get the ID of zero. -/
def setPsks : List (Vector Tryte 81) → MamEncryptKey → Proc MamEncryptKey
  | [], keys => pure keys
  | psk :: psks, keys => do
      let pskId ← settle (fillNines (bytesToTrytes [0, 0]) 27)
      ensure (← request (.mam .setAdd)) .mamFailedInit
      setPsks psks { keys with psks := pskSetAdd keys.psks (pskId, psk) }

/-- The loop of `ta_set_mam_key` over the NTRU public keys. -/
def setNtruPks : List (Vector Tryte 1024) → MamEncryptKey → Proc MamEncryptKey
  | [], keys => pure keys
  | pk :: pks, keys => do
      ensure (← request (.mam .setAdd)) .mamFailedInit
      setNtruPks pks { keys with ntruPks := setAdd keys.ntruPks pk }

/-- The loop of `ta_set_mam_key` over the NTRU secret keys. -/
def setNtruSks : List (Vector Tryte 1024) → MamEncryptKey → Proc MamEncryptKey
  | [], keys => pure keys
  | sk :: sks, keys => do
      ensure (← request (.mam .setAdd)) .mamFailedInit
      setNtruSks sks { keys with ntruSks := setAdd keys.ntruSks sk }

/-- `ta_set_mam_key`, for sending. -/
def taSetMamKey (psks : List (Vector Tryte 81)) (ntruPks : List (Vector Tryte 1024)) :
    Proc MamEncryptKey := do
  let keys ← setPsks psks {}
  setNtruPks ntruPks keys

/-- `ta_set_mam_key`, for receiving. -/
def taSetMamKeyForReading (psks : List (Vector Tryte 81)) (ntruSks : List (Vector Tryte 1024)) :
    Proc MamEncryptKey := do
  let keys ← setPsks psks {}
  setNtruSks ntruSks keys

/-! ## Channels on the Tangle -/

/-- `ta_mam_init`. -/
def taMamInit (iconf : IotaConfig) : Option Hash243 → Proc M.Api
  | some seed => do
      ensure (← request (.mam .apiInit)) .mamFailedInit
      pure (M.apiInit seed)
  | none => do
      match ← request .mamApiLoad with
      | .loaded bytes => pure (M.apiLoad bytes)
      | .openFailed => do
          ensure (← request (.mam .apiInit)) .mamFailedInit
          pure (M.apiInit iconf.seed)
      | .failed => throw .mamFailedInit

/-- The message ID in a tag. -/
def msgIdOf (tag : Hash81) : MsgId := Vector.ofFn fun i : Fin 21 => tag[i.val]

/-- `msg_id_exist`, where it decides the equality of message IDs.  `Mam.TagBuffers` has the buffers
it compares and when it does. -/
def msgIdExist (tagArray : List Hash81) (tag : Hash81) : Bool :=
  tagArray.any fun cursor => msgIdOf cursor == msgIdOf tag

/-- The loop of `ta_get_txn_objects_with_txn_hash`. -/
def getTxnObjects : List Hash243 → Proc (List Transaction)
  | [] => pure []
  | h :: hs => do
      let txs ← demand (← request (.getTransactionObjects [h])) .cclientFailedResponse
      let rest ← getTxnObjects hs
      pure (txs ++ rest)

/-- `ta_get_txn_objects_with_txn_hash`. -/
def taGetTxnObjectsWithTxnHash (req : FindTransactionsReq) : Proc (List Transaction) := do
  let hashes ← demand (← request (.findTransactions req)) .cclientFailedResponse
  getTxnObjects hashes

/-- The tags that are pushed for a list of transactions: one for each message ID. -/
def collectTags : List Transaction → List Hash81 → List Hash81
  | [], tagArray => tagArray
  | tx :: txs, tagArray =>
      collectTags txs (if msgIdExist tagArray tx.tag then tagArray else tagArray ++ [tx.tag])

/-- Create a channel. -/
def mamApiChannelCreate (api : M.Api) (depth : Nat) : MamProc M (Hash243 × M.Api) := do
  mamCall M api .channelCreate .mamFailedCreateOrGetId
  pure (M.channelCreate api depth)

/-- The channel the tags are read of: the given one, or a new one. -/
def currentChannel (api : M.Api) (depth : Nat) (firstIter : Bool) (chid : Hash243) :
    MamProc M (Hash243 × M.Api) :=
  if firstIter then pure (chid, api) else mamApiChannelCreate M api depth

/-- `create_channel_fetch_all_transactions`: the tags on the channel, its ID and the
library state. -/
def createChannelFetchAllTransactions (api : M.Api) (depth : Nat) (firstIter : Bool)
    (chid : Hash243) : MamProc M (List Hash81 × Hash243 × M.Api) := do
  let ch ← currentChannel M api depth firstIter chid
  let txs ← withApi M ch.2 (taGetTxnObjectsWithTxnHash { addresses := [ch.1] })
  pure (collectTags txs [], ch)

/-- `is_setting_changed`.  It creates the first channel. -/
def isSettingChanged (api : M.Api) (depth : Nat) (chid : Hash243) :
    MamProc M (Bool × Hash243 × M.Api) := do
  match ← attempt (mamApiChannelCreate M api depth) with
  | .error _ => pure (true, chid, api)
  | .ok ch => do
      match ← request (.findTransactionObjects { addresses := [ch.1] }) with
      | none => pure (true, ch)
      | some txs => pure (txs.isEmpty, ch)

/-- The search for the channel the request names.  The first argument is `101 - cnt`. -/
def findStartingChid (depth : Nat) (target : Hash243) :
    Nat → Hash243 → M.Api → MamProc M (Hash243 × M.Api)
  | left, chid, api =>
      if target = chid then pure (chid, api)
      else do
        let ch ← mamApiChannelCreate M api depth
        match left with
        | 0 => throw (.mamExceededChidIter, ch.2)
        | left + 1 => findStartingChid depth target left ch.1 ch.2

/-! ## Choosing a key -/

/-- Where the search for a key on a channel ended. -/
structure KeySearch where
  /-- `ch_remain_key_num`. -/
  remain : Nat
  /-- `used_key_num`. -/
  used : Int
  bundle : List Transaction
  msgId : MsgId
  api : M.Api

/-- The loop over the keys of a channel, with the counters before they are decremented. -/
def searchKey (keys : MamEncryptKey) (chid : Hash243) (tagArray : List Hash81) :
    Nat → Int → M.Api → MamProc M (Option (KeySearch M))
  | 0, _, _ => pure none
  | remain + 1, used, api => do
      mamCall M api .writeHeaderOnChannel .mamFailedWriteHeader
      let (front, rest, msgId, api') := M.writeHeaderOnChannel api chid keys
      if msgIdExist tagArray front.tag then
        if remain = 0 then
          pure (some ⟨0, used - 1, front :: rest, msgId, M.mssNext api' chid⟩)
        else
          searchKey keys chid tagArray remain (used - 1) (M.mssNext api' chid)
      else
        pure (some ⟨remain, used - 1, front :: rest, msgId, api'⟩)

/-- What `ta_mam_written_msg_to_bundle` hands back. -/
structure Written where
  bundle : List Transaction
  chid : Hash243
  msgId : MsgId
  operation : MamSendOperation
  api : M.Api

/-- The loop of `ta_mam_written_msg_to_bundle` over the channels. -/
def searchChannel (keys : MamEncryptKey) (depth : Nat) :
    Nat → Bool → Hash243 → M.Api → MamProc M (Option (Hash243 × MamSendOperation × KeySearch M))
  | 0, _, _, _ => pure none
  | fuel + 1, firstIter, chid, api => do
      let (tagArray, chid', api') ← createChannelFetchAllTransactions M api depth firstIter chid
      match ← searchKey M keys chid' tagArray (2 ^ depth) tagArray.length api' with
      | none => pure none
      | some k =>
          if k.remain = 1 then pure (some (chid', .announceChid, k))
          else if k.remain = 0 ∧ k.used = 0 then searchChannel keys depth fuel false chid' k.api
          else pure (some (chid', .sendMessage, k))

/-- The channel a message starts from: none yet, or the one the request names. -/
def startingChannel (depth : Nat) (api : M.Api) : Option Hash243 → MamProc M (Hash243 × M.Api)
  | none => pure (M.zeroId, api)
  | some target => do
      let (changed, chid, api') ← isSettingChanged M api depth M.zeroId
      if changed then pure (chid, api') else findStartingChid M depth target 101 chid api'

/-- `ta_mam_written_msg_to_bundle`. -/
def taMamWrittenMsgToBundle (fuel : Nat) (api : M.Api) (depth : Int) (target : Option Hash243)
    (keys : MamEncryptKey) (payload : String) : MamProc M (Option (Written M)) := do
  ensure (decide (1 ≤ depth)) (.null, api)
  let (chid, api') ← startingChannel M depth.toNat api target
  match ← searchChannel M keys depth.toNat fuel target.isSome chid api' with
  | none => pure none
  | some (chid', operation, k) => do
      mamCall M k.api .writePacket .mamFailedWrite
      let (bundle, api'') := M.writePacket k.api k.msgId (M.asciiToTrytes payload) k.bundle
      pure (some ⟨bundle, chid', k.msgId, operation, api''⟩)

/-- `ta_mam_write_announce_to_bundle`: the bundle, the ID of the next channel and the
library state. -/
def taMamWriteAnnounceToBundle (api : M.Api) (depth : Nat) (chid : Hash243)
    (keys : MamEncryptKey) : MamProc M (List Transaction × Hash243 × M.Api) := do
  let (chid1, api') ← mamApiChannelCreate M api depth
  mamCall M api' .announceChannel .mamFailedWriteHeader
  let (bundle, _, api'') := M.announceChannel api' chid chid1 keys
  pure (bundle, chid1, api'')

/-! ## Sending -/

/-- The payload: the seconds in twenty digits, and the message. -/
def timestamped (sec : Nat) (message : String) : String :=
  String.ofList (List.replicate (20 - (toString sec).length) '0') ++ toString sec ++ message

/-- The part of `ta_send_mam_message` after a message was written. -/
def sendWritten (info : TaConfig) (iconf : IotaConfig) (depth : Nat) (keys : MamEncryptKey)
    (wr : Written M) : MamProc M (SendMamRes × M.Api) := do
  let bundle ← withApi M wr.api (taSendBundle I info iconf wr.bundle)
  let res : SendMamRes :=
    { chid := some wr.chid, msgId := some wr.msgId, bundleHash := bundle.head?.map (·.bundle) }
  match wr.operation with
  | .sendMessage => pure (res, wr.api)
  | .announceChid => do
      let (announce, chid1, api) ←
        taMamWriteAnnounceToBundle M wr.api depth wr.chid keys
      let announce ← withApi M api (taSendBundle I info iconf announce)
      pure ({ res with
        chid1 := some chid1, announcementBundleHash := announce.head?.map (·.bundle) }, api)

/-- The part of `ta_send_mam_message` between the setup and the label `done`.  Its loop is
left after one pass, since nothing returns `SC_MAM_ALL_MSS_KEYS_USED`. -/
def sendMamBody (fuel : Nat) (info : TaConfig) (iconf : IotaConfig) (req : SendMamReq)
    (api : M.Api) : MamProc M (Option SendMamRes × M.Api) := do
  let keys ← withApi M api (taSetMamKey req.pskArray req.ntruArray)
  let sec ← request .clockGettime
  match ← taMamWrittenMsgToBundle M fuel api req.chMssDepth req.chid keys
      (timestamped sec req.message) with
  | none => pure (none, api)
  | some wr => do
      let (res, api') ← sendWritten I M info iconf req.chMssDepth.toNat keys wr
      pure (some res, api')

/-- Without a seed the library state goes back to the MAM file. -/
def saveMamFile (api : M.Api) : Option Hash243 → Proc Bool
  | some _ => pure true
  | none => request (.mamApiSave (M.apiSave api))

/-- The label `done` of `ta_send_mam_message`.  `SC_MAM_FAILED_INIT` skips it, also where it
comes from `ta_set_mam_key`. -/
def mamDone (seed : Option Hash243) (api : M.Api) (ret : Except Status SendMamRes) :
    Proc SendMamRes :=
  match ret with
  | .error .mamFailedInit => throw .mamFailedInit
  | _ => do
      let saved ← saveMamFile M api seed
      let destroyed ← request (.mam .destroy)
      settle (if destroyed then (if saved then ret else .error .mamFileSave)
        else .error .mamFailedDestroyed)

/-- `ta_send_mam_message`. -/
def taSendMamMessage (fuel : Nat) (info : TaConfig) (iconf : IotaConfig) (req : SendMamReq) :
    Proc (Option SendMamRes) := do
  let api ← taMamInit M iconf req.seed
  match ← attempt (sendMamBody I M fuel info iconf req api) with
  | .ok (none, _) => pure none
  | .ok (some res, api') => some <$> mamDone M req.seed api' (.ok res)
  | .error (e, api') => some <$> mamDone M req.seed api' (.error e)

end TangleAccelerator
