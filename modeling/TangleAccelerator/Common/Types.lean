import Mathlib

/-!
# Types of the accelerator

The data the modelled functions pass around.  A flex trit is one byte that holds
one tryte (the encoding with three trits in a byte), so the fixed-size flex trit
arrays of the source are vectors of trytes.  A UUID is the 128-bit number
`uuid_generate_random` draws; its text is the 36 characters `uuid_unparse` prints,
and equal texts are equal numbers.

`Status` has the error codes of `ta_errors.h` that the modelled functions return.
`SC_OK` is not among them: a function that returns `status_t` is a program in
`ExceptT Status`, and success is the `ok` of `Except`.
-/

namespace TangleAccelerator

/-! ## Trytes -/

/-- A tryte: `9` is `0`, `A` to `Z` are `1` to `26`. -/
abbrev Tryte := Fin 27

/-- The literals of `Tryte` are taken modulo 27. -/
instance neZeroTrytes : NeZero 27 := ⟨by decide⟩

/-- A hash, address or channel ID, 243 trits. -/
abbrev Hash243 := Vector Tryte 81

/-- Tests for membership in a list of hashes use this proof by its name. -/
instance instLawfulBEqHash243 : LawfulBEq Hash243 := inferInstance

/-- A tag or nonce, 81 trits. -/
abbrev Hash81 := Vector Tryte 27

/-- A serialized transaction, 8019 trits. -/
abbrev Hash8019 := Vector Tryte 2673

/-- A MAM message ID, `NUM_TRYTES_MAM_MSG_ID` trytes. -/
abbrev MsgId := Vector Tryte 21

/-- A UUID. -/
abbrev Uuid := BitVec 128

/-! ## Status codes -/

/-- The error codes of `ta_errors.h`. -/
inductive Status where
  | oom
  | null
  | cclientNotFound
  | cclientFailedResponse
  | cclientInvalidFlexTrits
  | cclientFlexTrits
  | cclientHash
  | cclientJsonKey
  | cclientJsonParse
  | serializerJsonCreate
  | serializerNull
  | serializerJsonParse
  | serializerJsonParseNotTryte
  | serializerInvalidReq
  | serializerMessageOverrun
  | cacheFailedResponse
  | cacheOff
  | cacheLockFailure
  | mamNotFound
  | mamFailedInit
  | mamFailedDestroyed
  | mamNoPayload
  | mamFailedWrite
  | mamFileSave
  | mamAllMssKeysUsed
  | mamFailedCreateOrGetId
  | mamFailedWriteHeader
  | mamReadMessageError
  | mamInvaidChidOrEpid
  | mamExceededChidIter
  | confMissingArgument
  | confUnknownOption
  | confParserError
  | confFopenError
  | utilsWrongInputArg
  | utilsTextSerialize
  | utilsTextDeserialize
  | utilsCipherError
  | utilsHttpsSendError
  | utilsHttpsInitError
  | utilsHttpsX509Error
  | utilsHttpsConnError
  | utilsHttpsSslError
  | utilsHttpsResponseError
  | httpInvalidRegex
  | httpUrlNotMatch
  | httpUrlParseError
  | httpCommandNotMatch
  | httpInternalServiceError
  | mqttTopicSet
  | mqttInvalidTag
  | coreNodeUnsync
  | storageInvalidInput
  | storageCassandraQueryFail
  | endpointSendTransfer
deriving DecidableEq, Repr

/-! ## Transactions -/

/-- `iota_transaction_t`. -/
structure Transaction where
  message : Vector Tryte 2187
  address : Hash243
  value : Int
  obsoleteTag : Hash81
  timestamp : Nat
  currentIndex : Int64
  lastIndex : Int64
  bundle : Hash243
  trunk : Hash243
  branch : Hash243
  tag : Hash81
  attachmentTimestamp : Nat
  attachmentTimestampLower : Nat
  attachmentTimestampUpper : Nat
  nonce : Hash81
  hash : Hash243
deriving DecidableEq

/-- `transfer_t`, as far as `ta_send_transfer` fills it in. -/
structure Transfer where
  address : Hash243
  tag : Hash81
  message : List Tryte
  timestamp : Nat

/-- `find_transactions_req_t`. -/
structure FindTransactionsReq where
  bundles : List Hash243 := []
  addresses : List Hash243 := []
  tags : List Hash81 := []
  approvees : List Hash243 := []

/-! ## Configuration -/

/-- `ta_config_t`, as far as the modelled functions read it. -/
structure TaConfig where
  /-- `CLI_GTTA` is set in `cli_options`. -/
  gtta : Bool
  /-- The entries of `iota_host_list` up to the first empty one, with their ports. -/
  iotaHosts : List (String × Nat)

/-- `iota_config_t`. -/
structure IotaConfig where
  milestoneDepth : Nat
  mwm : Nat
  seed : Hash243

/-- `ta_cache_t`, without the list names, which are `ListName`. -/
structure TaCache where
  /-- Whether the cache server is on. -/
  state : Bool
  /-- Timeout of keys in the cache server. -/
  timeout : Nat
  /-- The maximum capacity of the cache server. -/
  capacity : Int

/-- `ta_core_t`. -/
structure TaCore where
  taConf : TaConfig
  cache : TaCache
  iotaConf : IotaConfig

end TangleAccelerator
