import TangleAccelerator.Mam.SendRes

/-!
# Requests for MAM messages

The JSON forms of `ta_send_mam_req_t` and `ta_recv_mam_req_t`.

Both requests are allocated with `malloc`, and only their pointers are set.  The protocol is written
if the text in the document begins with `MAM_V1`, and is left as it was otherwise.  To send, the
value in memory is then ignored.  To receive, it decides whether the request is read at all: if it
is not that of `MAM_V1`, the deserializer succeeds without data and keys.

A seed or a channel to send on is cut after 81 characters, and none of them is looked at.  A request
to receive may name a message without a channel.
-/

namespace TangleAccelerator

open CString (Block)
open Json (Tree)

namespace MamReq

/-! ## The records -/

/-- `MAM_V1`, the one value of `mam_protocol_t`. -/
def mamV1 : UInt32 := 0

/-- `SERVICE_TOKEN_LEN`. -/
def serviceTokenLen : Nat := 64

/-- `send_mam_data_mam_v1_t`. -/
structure SendMamData where
  seed : Option (List Char)
  chMssDepth : Int
  chid : Option (List Char)
  message : Option (List Char)
deriving DecidableEq

/-- `send_mam_key_mam_v1_t` and `recv_mam_key_mam_v1_t`. -/
structure MamKey where
  pskArray : List (List Char)
  ntruArray : List (List Char)
deriving DecidableEq

/-- `ta_send_mam_req_t`. -/
structure TaSendMamReq where
  serviceToken : Block (serviceTokenLen + 1)
  data : Option SendMamData
  key : Option MamKey
  protocol : UInt32
deriving DecidableEq

/-- `recv_mam_data_id_mam_v1_t`. -/
structure RecvMamDataId where
  bundleHash : Option (List Char)
  chid : Option (List Char)
  msgId : Option (List Char)
deriving DecidableEq

/-- `ta_recv_mam_req_t`. -/
structure TaRecvMamReq where
  dataId : Option RecvMamDataId
  key : Option MamKey
  protocol : UInt32
deriving DecidableEq

/-- `send_mam_req_new`, of memory that holds a token and a protocol. -/
def sendMamReqNew (serviceToken : Block (serviceTokenLen + 1)) (protocol : UInt32) : TaSendMamReq :=
  ⟨serviceToken, none, none, protocol⟩

/-- `send_mam_req_v1_init`. -/
def sendMamReqV1Init (req : TaSendMamReq) : TaSendMamReq :=
  { req with serviceToken := .zero _, data := some ⟨none, 6, none, none⟩, key := some ⟨[], []⟩ }

/-- `recv_mam_req_new`, of memory that holds a protocol. -/
def recvMamReqNew (protocol : UInt32) : TaRecvMamReq := ⟨none, none, protocol⟩

/-- `recv_mam_req_v1_init`. -/
def recvMamReqV1Init (req : TaRecvMamReq) : TaRecvMamReq :=
  { req with dataId := some ⟨none, none, none⟩, key := some ⟨[], []⟩ }

/-- `recv_mam_set_mam_v1_data_id`, for data that is new. -/
def recvMamSetMamV1DataId (bundleHash chid msgId : Option (List Char)) :
    Except Status RecvMamDataId :=
  if bundleHash.isNone ∧ chid.isNone ∧ msgId.isNone then .error .null
  else .ok ⟨bundleHash, chid, msgId⟩

/-! ## Parts of both requests -/

/-- `ta_json_string_array_to_string_utarray`. -/
def taJsonStringArrayToStringUtarray (obj : Tree) (name : String) (ut : List (List Char)) :
    Except Status (List (List Char)) :=
  match obj.member name with
  | some (.array elems) =>
      match elems.mapM Tree.valuestring with
      | some strs => .ok (ut ++ strs)
      | none => .error .serializerJsonParse
  | _ => .error .serializerJsonParse

/-- Keys of one kind, if there are any. -/
def keysIf (jsonKey : Tree) (name : String) (ut : List (List Char)) :
    Except Status (List (List Char)) :=
  if jsonKey.hasMember name then taJsonStringArrayToStringUtarray jsonKey name ut else .ok ut

/-- The keys. -/
def mamKey (json : Tree) (key : MamKey) : Except Status MamKey :=
  match json.memberAnyCase "key" with
  | none => .ok key
  | some jsonKey => do
      let pskArray ← keysIf jsonKey "psk" key.pskArray
      let ntruArray ← keysIf jsonKey "ntru" key.ntruArray
      return ⟨pskArray, ntruArray⟩

/-- A write that may go past the end. -/
def written {α : Type} : Except Status (Option α) → Option (Except Status α)
  | .error e => some (.error e)
  | .ok o => o.map .ok

/-- The protocol that a request has after its text was read. -/
def protocolOf (protocolStr : Block TextBuffers.protocolLen) (protocol : UInt32) : UInt32 :=
  if CString.strncmpEq protocolStr.cells "MAM_V1".toList 6 then mamV1 else protocol

/-! ## Sending -/

/-- The token, if there is one. -/
def serviceToken (json : Tree) (token : Block (serviceTokenLen + 1)) :
    Option (Except Status (Block (serviceTokenLen + 1))) :=
  if json.hasMember "x-api-key" then
    written (TextBuffers.taJsonGetString json "x-api-key" token serviceTokenLen)
  else some (.ok token)

/-- A seed or a channel.  `strnlen` counts no more than 81 characters. -/
def sendTrytes (jsonKey : Tree) (name : String) : Except Status (Option (List Char)) :=
  match (jsonKey.member name).bind Tree.valuestring with
  | none => .ok none
  | some value =>
      if (value.take numTrytesHash).length ≠ numTrytesHash then .error .serializerInvalidReq
      else .ok (some (value.take numTrytesHash))

/-- The message. -/
def sendMessage (jsonKey : Tree) : Except Status (List Char) :=
  match (jsonKey.member "message").bind Tree.valuestring with
  | none => .error .serializerNull
  | some value =>
      if value.any fun c => 128 ≤ c.toNat then .error .serializerJsonParseNotTryte
      else .ok value

/-- The depth, of which `valueint` is the number. -/
def sendDepth (valueint : String → Int) (jsonKey : Tree) (chMssDepth : Int) : Int :=
  match jsonKey.member "ch_mss_depth" with
  | some (.number literal) => valueint literal
  | _ => chMssDepth

/-- The data. -/
def sendData (valueint : String → Int) (json : Tree) (data : SendMamData) :
    Except Status SendMamData :=
  match json.memberAnyCase "data" with
  | none => .error .serializerJsonParse
  | some jsonKey => do
      let seed ← sendTrytes jsonKey "seed"
      let chid ← sendTrytes jsonKey "chid"
      let message ← sendMessage jsonKey
      return ⟨seed, sendDepth valueint jsonKey data.chMssDepth, chid, some message⟩

/-- `send_mam_message_mam_v1_req_deserialize`. -/
def sendMamMessageMamV1ReqDeserialize (valueint : String → Int) (json : Tree)
    (req : TaSendMamReq) : Option (Except Status TaSendMamReq) :=
  match req.data, req.key with
  | some data, some key => ExceptT.run do
      let token ← ExceptT.mk (serviceToken json req.serviceToken)
      let key ← ExceptT.mk (some (mamKey json key))
      let data ← ExceptT.mk (some (sendData valueint json data))
      return { req with serviceToken := token, data := some data, key := some key }
  | _, _ => none

/-- `send_mam_message_req_deserialize`.  `protocolStr` is what was on the stack. -/
def sendMamMessageReqDeserialize (valueint : String → Int) (C : Json.Codec) (obj : C.Text)
    (protocolStr : Block TextBuffers.protocolLen) (req : TaSendMamReq) :
    Option (Except Status TaSendMamReq) :=
  match C.parse obj with
  | none => some (.error .serializerJsonParse)
  | some json => ExceptT.run do
      let protocolStr ← ExceptT.mk <| written <|
        TextBuffers.taJsonGetString json "protocol" protocolStr TextBuffers.protocolLen
      ExceptT.mk <| sendMamMessageMamV1ReqDeserialize valueint json <|
        -- any other protocol is read as this one too
        sendMamReqV1Init { req with protocol := protocolOf protocolStr req.protocol }

/-! ## Receiving -/

/-- A part of the data: a text of one length. -/
def recvText (jsonKey : Tree) (name : String) (len : Nat) : Except Status (Option (List Char)) :=
  if jsonKey.hasMember name then
    match jsonKey.member name with
    | none => .error .cclientJsonKey
    | some value =>
        match value.valuestring with
        | none => .error .cclientJsonParse
        | some s => if s.length = len then .ok (some s) else .error .cclientJsonParse
  else .ok none

/-- The data.  A bundle comes first, and then nothing else is read. -/
def recvDataId (json : Tree) : Except Status RecvMamDataId :=
  match json.memberAnyCase "data_id" with
  | none => .error .serializerJsonParse
  | some jsonKey => do
      let bundleHash ← recvText jsonKey "bundle_hash" numTrytesHash
      if bundleHash.isSome then recvMamSetMamV1DataId bundleHash none none
      else
        let chid ← recvText jsonKey "chid" numTrytesHash
        let msgId ← recvText jsonKey "msg_id" numTrytesMamMsgId
        recvMamSetMamV1DataId none chid msgId

/-- `recv_mam_message_mam_v1_req_deserialize`. -/
def recvMamMessageMamV1ReqDeserialize (json : Tree) (req : TaRecvMamReq) :
    Option (Except Status TaRecvMamReq) :=
  match req.key with
  | none => none
  | some key => ExceptT.run do
      let key ← ExceptT.mk (some (mamKey json key))
      let dataId ← ExceptT.mk (some (recvDataId json))
      return { req with dataId := some dataId, key := some key }

/-- `recv_mam_message_req_deserialize`.  `protocolStr` is what was on the stack. -/
def recvMamMessageReqDeserialize (C : Json.Codec) (obj : C.Text)
    (protocolStr : Block TextBuffers.protocolLen) (req : TaRecvMamReq) :
    Option (Except Status TaRecvMamReq) :=
  match C.parse obj with
  | none => some (.error .serializerJsonParse)
  | some json => ExceptT.run do
      let protocolStr ← ExceptT.mk <| written <|
        TextBuffers.taJsonGetString json "protocol" protocolStr TextBuffers.protocolLen
      let req := { req with protocol := protocolOf protocolStr req.protocol }
      ExceptT.mk <|
        if req.protocol = mamV1 then recvMamMessageMamV1ReqDeserialize json (recvMamReqV1Init req)
        else some (.ok req)

/-! ## Requests that can be used -/

/-- A seed or a channel that is supplied is made of trytes, and is stored as it is. -/
structure KeepsTrytes (jsonKey : Tree) (name : String) (field : Option (List Char)) : Prop where
  supplied : ∀ value, jsonKey.member name = some value →
    ∃ hash : Hash243, value = .string (String.ofList (tryteChars hash)) ∧
      field = some (tryteChars hash)
  missing : jsonKey.member name = none → field = none

/-- The message is there, and is stored as it is. -/
def KeepsMessage (jsonKey : Tree) (field : Option (List Char)) : Prop :=
  ∃ text, jsonKey.member "message" = some (.string text) ∧ field = some text.toList

/-- A request that `ta_send_mam_message` can use. -/
structure SendUsable (json : Tree) (req : TaSendMamReq) : Prop where
  named : json.member "protocol" = some (.string "MAM_V1")
  protocol : req.protocol = mamV1
  key : req.key.isSome
  data : ∃ jsonKey data, json.memberAnyCase "data" = some jsonKey ∧ req.data = some data ∧
    KeepsTrytes jsonKey "seed" data.seed ∧ KeepsTrytes jsonKey "chid" data.chid ∧
    KeepsMessage jsonKey data.message

/-- A bundle or a channel that is supplied has 81 characters, and is stored as it is. -/
def KeepsHash (jsonKey : Tree) (name : String) (field : Option (List Char)) : Prop :=
  ∃ text, jsonKey.member name = some (.string text) ∧ text.length = numTrytesHash ∧
    field = some text.toList

/-- A request that `ta_recv_mam_message` can use. -/
structure RecvUsable (json : Tree) (req : TaRecvMamReq) : Prop where
  named : json.member "protocol" = some (.string "MAM_V1")
  protocol : req.protocol = mamV1
  key : req.key.isSome
  data : ∃ jsonKey dataId, json.memberAnyCase "data_id" = some jsonKey ∧
    req.dataId = some dataId ∧
    (KeepsHash jsonKey "bundle_hash" dataId.bundleHash ∨ KeepsHash jsonKey "chid" dataId.chid)

/-- The protocol is `MAM_V1` and no more.  A seed and a channel, if there are any, are made of 81
trytes, and no NUL ends the message. -/
structure SendExact (json : Tree) : Prop where
  named : json.member "protocol" = some (.string "MAM_V1")
  trytes : ∀ jsonKey, json.memberAnyCase "data" = some jsonKey → ∀ name ∈ ["seed", "chid"],
    ∀ value, jsonKey.member name = some value →
      ∃ hash : Hash243, value = .string (String.ofList (tryteChars hash))
  message : ∀ jsonKey, json.memberAnyCase "data" = some jsonKey →
    ∀ text, jsonKey.member "message" = some (.string text) → CString.NulFree text.toList

/-- The member that names what to receive. -/
def identifier (jsonKey : Tree) : Option Tree :=
  if jsonKey.hasMember "bundle_hash" then jsonKey.member "bundle_hash" else jsonKey.member "chid"

/-- The protocol is `MAM_V1` and no more.  There is a bundle or a channel, and no NUL ends it. -/
structure RecvExact (json : Tree) : Prop where
  named : json.member "protocol" = some (.string "MAM_V1")
  identified : ∃ jsonKey text, json.memberAnyCase "data_id" = some jsonKey ∧
    identifier jsonKey = some (.string text) ∧ CString.NulFree text.toList

/-! ## What an accepted request holds -/

theorem except_bind_eq_ok {α β : Type} {x : Except Status α} {f : α → Except Status β} {b : β} :
    x >>= f = .ok b ↔ ∃ a, x = .ok a ∧ f a = .ok b := by
  cases x with
  | error e => simp [bind, Except.bind]
  | ok a => simp [bind, Except.bind]

theorem written_eq_ok {α : Type} {x : Except Status (Option α)} {a : α} :
    written x = some (.ok a) ↔ x = .ok (some a) := by
  cases x with
  | error e => simp [written]
  | ok o => simp [written]

section Accepted

variable {json jsonKey : Tree} {name : String} {buffer protocolStr : Block TextBuffers.protocolLen}

theorem bind_valuestring_eq_some {s : List Char} :
    (jsonKey.member name).bind Tree.valuestring = some s ↔
      ∃ text, jsonKey.member name = some (.string text) ∧ CString.text text.toList = s := by
  simp only [Option.bind_eq_some_iff, valuestring_eq_some]
  constructor
  · rintro ⟨_, hmember, text, rfl, hs⟩
    exact ⟨text, hmember, hs⟩
  · rintro ⟨text, hmember, hs⟩
    exact ⟨_, hmember, text, rfl, hs⟩

/-- The name of the protocol sets it, whatever it was. -/
theorem protocolOf_of_member (hnamed : json.member "protocol" = some (.string "MAM_V1"))
    (h : TextBuffers.taJsonGetString json "protocol" buffer TextBuffers.protocolLen =
      .ok (some protocolStr)) (protocol : UInt32) : protocolOf protocolStr protocol = mamV1 := by
  obtain ⟨value, hvalue, hwritten⟩ := TextBuffers.taJsonGetString_eq_ok_iff.mp h
  obtain ⟨_, hself, hcells⟩ := buffer.strncpy_self (CString.text value.toList)
  rw [hself, Option.some.injEq] at hwritten
  rw [hnamed] at hvalue
  cases hvalue
  rw [protocolOf, hwritten, hcells, if_pos (by decide)]

theorem sendTrytes_eq_ok {field : Option (List Char)} (h : sendTrytes jsonKey name = .ok field) :
    (jsonKey.member name).bind Tree.valuestring = none ∧ field = none ∨
      ∃ value, (jsonKey.member name).bind Tree.valuestring = some value ∧
        field = some (value.take numTrytesHash) := by
  rw [sendTrytes] at h
  split at h
  · rename_i hnone
    cases h
    exact .inl ⟨hnone, rfl⟩
  · rename_i value hvalue
    split at h
    · cases h
    · cases h
      exact .inr ⟨value, hvalue, rfl⟩

theorem sendMessage_eq_ok {s : List Char} (h : sendMessage jsonKey = .ok s) :
    ∃ text, jsonKey.member "message" = some (.string text) ∧ CString.text text.toList = s := by
  rw [sendMessage] at h
  split at h
  · cases h
  · rename_i value hvalue
    split at h
    · cases h
    · cases h
      exact bind_valuestring_eq_some.mp hvalue

/-- A seed or a channel is kept exactly if it is made of trytes. -/
theorem keepsTrytes_iff {field : Option (List Char)} (h : sendTrytes jsonKey name = .ok field) :
    KeepsTrytes jsonKey name field ↔ ∀ value, jsonKey.member name = some value →
      ∃ hash : Hash243, value = .string (String.ofList (tryteChars hash)) := by
  constructor
  · intro hkeeps value hvalue
    obtain ⟨hash, hhash, -⟩ := hkeeps.supplied value hvalue
    exact ⟨hash, hhash⟩
  · intro htrytes
    refine ⟨?_, ?_⟩
    · intro value hvalue
      obtain ⟨hash, rfl⟩ := htrytes value hvalue
      have htext : CString.text (String.ofList (tryteChars hash)).toList = tryteChars hash := by
        rw [String.toList_ofList, CString.text_of_nulFree nulFree_tryteChars]
      have hbind := bind_valuestring_eq_some.mpr ⟨_, hvalue, htext⟩
      refine ⟨hash, rfl, ?_⟩
      rcases sendTrytes_eq_ok h with ⟨hnone, -⟩ | ⟨value, hsome, rfl⟩
      · rw [hbind] at hnone
        cases hnone
      · rw [hbind, Option.some.injEq] at hsome
        rw [← hsome, List.take_of_length_le length_tryteChars.le]
    · intro hmissing
      rcases sendTrytes_eq_ok h with ⟨-, hfield⟩ | ⟨value, hsome, -⟩
      · exact hfield
      · rw [hmissing] at hsome
        cases hsome

/-- The message is kept exactly if no NUL ends it. -/
theorem keepsMessage_iff {s : List Char} (h : sendMessage jsonKey = .ok s) :
    KeepsMessage jsonKey (some s) ↔
      ∀ text, jsonKey.member "message" = some (.string text) → CString.NulFree text.toList := by
  obtain ⟨text, hmember, rfl⟩ := sendMessage_eq_ok h
  constructor
  · rintro ⟨text', hmember', hs⟩ _ hmember''
    cases hmember'.symm.trans hmember
    cases hmember''.symm.trans hmember
    rw [← Option.some.inj hs]
    exact CString.nulFree_text _
  · intro hfree
    exact ⟨text, hmember, by rw [CString.text_of_nulFree (hfree text hmember)]⟩

theorem sendData_eq_ok {valueint : String → Int} {data data' : SendMamData}
    (h : sendData valueint json data = .ok data') :
    ∃ jsonKey message, json.memberAnyCase "data" = some jsonKey ∧
      sendTrytes jsonKey "seed" = .ok data'.seed ∧ sendTrytes jsonKey "chid" = .ok data'.chid ∧
      sendMessage jsonKey = .ok message ∧ data'.message = some message := by
  rw [sendData] at h
  split at h
  · cases h
  · rename_i jsonKey hjsonKey
    obtain ⟨seed, hseed, h⟩ := except_bind_eq_ok.mp h
    obtain ⟨chid, hchid, h⟩ := except_bind_eq_ok.mp h
    obtain ⟨message, hmessage, h⟩ := except_bind_eq_ok.mp h
    cases h
    exact ⟨jsonKey, message, hjsonKey, hseed, hchid, hmessage, rfl⟩

theorem send_eq_ok {valueint : String → Int} {C : Json.Codec} {obj : C.Text}
    {req req' : TaSendMamReq}
    (h : sendMamMessageReqDeserialize valueint C obj buffer req = some (.ok req')) :
    ∃ json protocolStr token key data, C.parse obj = some json ∧
      TextBuffers.taJsonGetString json "protocol" buffer TextBuffers.protocolLen =
        .ok (some protocolStr) ∧
      sendData valueint json ⟨none, 6, none, none⟩ = .ok data ∧
      req' = ⟨token, some data, some key, protocolOf protocolStr req.protocol⟩ := by
  rw [sendMamMessageReqDeserialize] at h
  split at h
  · cases h
  · rename_i json hparse
    obtain ⟨protocolStr, hprotocol, h⟩ := run_mk_bind_eq_ok.mp h
    obtain ⟨token, -, h⟩ := run_mk_bind_eq_ok.mp h
    obtain ⟨key, -, h⟩ := run_mk_bind_eq_ok.mp h
    obtain ⟨data, hdata, h⟩ := run_mk_bind_eq_ok.mp h
    cases h
    exact ⟨json, protocolStr, token, key, data, hparse, written_eq_ok.mp hprotocol,
      Option.some.inj hdata, rfl⟩

/-- A request to send that was accepted can be used exactly if it is what it is taken for. -/
theorem sendUsable_iff {valueint : String → Int} {C : Json.Codec} {obj : C.Text}
    {req req' : TaSendMamReq}
    (h : sendMamMessageReqDeserialize valueint C obj buffer req = some (.ok req')) :
    ∃ json, C.parse obj = some json ∧ (SendUsable json req' ↔ SendExact json) := by
  obtain ⟨json, protocolStr, token, key, data, hparse, hprotocol, hdata, rfl⟩ := send_eq_ok h
  obtain ⟨jsonKey, message, hjsonKey, hseed, hchid, hmessage, hdata'⟩ := sendData_eq_ok hdata
  refine ⟨json, hparse, ?_, ?_⟩
  · rintro ⟨hnamed, -, -, jsonKey', _, hjsonKey', hsome, hkseed, hkchid, hkmessage⟩
    cases hsome
    cases hjsonKey'.symm.trans hjsonKey
    rw [hdata'] at hkmessage
    refine ⟨hnamed, ?_, ?_⟩
    · intro jsonKey'' hjsonKey'' name hname
      cases hjsonKey''.symm.trans hjsonKey
      rcases List.mem_pair.mp hname with rfl | rfl
      · exact (keepsTrytes_iff hseed).mp hkseed
      · exact (keepsTrytes_iff hchid).mp hkchid
    · intro jsonKey'' hjsonKey''
      cases hjsonKey''.symm.trans hjsonKey
      exact (keepsMessage_iff hmessage).mp hkmessage
  · intro hexact
    have htrytes := hexact.trytes jsonKey hjsonKey
    refine ⟨hexact.named, protocolOf_of_member hexact.named hprotocol _, rfl, jsonKey, data,
      hjsonKey, rfl, (keepsTrytes_iff hseed).mpr (htrytes "seed" (by simp)),
      (keepsTrytes_iff hchid).mpr (htrytes "chid" (by simp)), ?_⟩
    rw [hdata']
    exact (keepsMessage_iff hmessage).mpr (hexact.message jsonKey hjsonKey)

theorem recvText_eq_ok_none {len : Nat} :
    recvText jsonKey name len = .ok none ↔ jsonKey.hasMember name = false := by
  rw [recvText]
  cases jsonKey.hasMember name with
  | false => simp
  | true =>
    rw [if_pos rfl]
    split
    · simp
    · split
      · simp
      · split <;> simp

theorem recvText_eq_ok_some {len : Nat} {s : List Char} :
    recvText jsonKey name len = .ok (some s) ↔
      jsonKey.hasMember name = true ∧ s.length = len ∧
        ∃ text, jsonKey.member name = some (.string text) ∧ CString.text text.toList = s := by
  rw [← bind_valuestring_eq_some, recvText]
  cases jsonKey.hasMember name with
  | false => simp
  | true =>
    rw [if_pos rfl]
    cases jsonKey.member name with
    | none => simp
    | some value =>
      rw [Option.bind_some]
      dsimp only
      cases value.valuestring with
      | none => simp
      | some t =>
        dsimp only
        by_cases hlen : t.length = len
        · rw [if_pos hlen]
          simp only [Except.ok.injEq, Option.some.injEq, true_and]
          exact ⟨fun hs => ⟨hs ▸ hlen, hs⟩, And.right⟩
        · rw [if_neg hlen]
          simp only [reduceCtorEq, Option.some.injEq, true_and, false_iff, not_and]
          intro hs hts
          exact hlen (hts ▸ hs)

/-- The data is that of a bundle, or of a channel and a message. -/
theorem recvDataId_eq_ok {dataId : RecvMamDataId} (h : recvDataId json = .ok dataId) :
    ∃ jsonKey, json.memberAnyCase "data_id" = some jsonKey ∧
      ((∃ s, recvText jsonKey "bundle_hash" numTrytesHash = .ok (some s) ∧
        dataId = ⟨some s, none, none⟩) ∨
      recvText jsonKey "bundle_hash" numTrytesHash = .ok none ∧
        recvText jsonKey "chid" numTrytesHash = .ok dataId.chid ∧ dataId.bundleHash = none) := by
  rw [recvDataId] at h
  split at h
  · cases h
  · rename_i jsonKey hjsonKey
    refine ⟨jsonKey, hjsonKey, ?_⟩
    obtain ⟨bundleHash, hbundle, h⟩ := except_bind_eq_ok.mp h
    cases bundleHash with
    | some s =>
      refine .inl ⟨s, hbundle, ?_⟩
      cases h
      rfl
    | none =>
      obtain ⟨chid, hchid, h⟩ := except_bind_eq_ok.mp h
      obtain ⟨msgId, -, h⟩ := except_bind_eq_ok.mp h
      rw [recvMamSetMamV1DataId] at h
      split at h
      · cases h
      · cases h
        exact .inr ⟨hbundle, hchid, rfl⟩

theorem recv_eq_ok {C : Json.Codec} {obj : C.Text} {req req' : TaRecvMamReq}
    (h : recvMamMessageReqDeserialize C obj buffer req = some (.ok req')) :
    ∃ json protocolStr, C.parse obj = some json ∧
      TextBuffers.taJsonGetString json "protocol" buffer TextBuffers.protocolLen =
        .ok (some protocolStr) ∧ req'.protocol = protocolOf protocolStr req.protocol ∧
      (req'.protocol = mamV1 → ∃ dataId, recvDataId json = .ok dataId ∧
        req'.dataId = some dataId ∧ req'.key.isSome) := by
  rw [recvMamMessageReqDeserialize] at h
  split at h
  · cases h
  · rename_i json hparse
    obtain ⟨protocolStr, hprotocol, h⟩ := run_mk_bind_eq_ok.mp h
    refine ⟨json, protocolStr, hparse, written_eq_ok.mp hprotocol, ?_⟩
    dsimp only [ExceptT.run_mk] at h
    split at h
    · rename_i hv1
      obtain ⟨key, -, h⟩ := run_mk_bind_eq_ok.mp h
      obtain ⟨dataId, hdataId, h⟩ := run_mk_bind_eq_ok.mp h
      cases h
      exact ⟨rfl, fun _ => ⟨dataId, Option.some.inj hdataId, rfl, rfl⟩⟩
    · rename_i hv1
      cases h
      exact ⟨rfl, fun hprotocol => absurd hprotocol hv1⟩

theorem hasMember_of_member {value : Tree} (h : jsonKey.member name = some value) :
    jsonKey.hasMember name = true := by
  cases jsonKey with
  | object members =>
    obtain ⟨before, after, rfl, -⟩ := List.lookup_eq_some_iff.mp h
    simp [Tree.hasMember, Tree.sameName]
  | null => cases h
  | bool => cases h
  | number => cases h
  | string => cases h
  | array => cases h

/-- What is read of a bundle or a channel is kept exactly if it is there and no NUL ends it. -/
theorem keepsHash_iff {field : Option (List Char)}
    (h : recvText jsonKey name numTrytesHash = .ok field) :
    KeepsHash jsonKey name field ↔
      ∃ text, jsonKey.member name = some (.string text) ∧ CString.NulFree text.toList := by
  cases field with
  | none =>
    have hhas := recvText_eq_ok_none.mp h
    constructor
    · rintro ⟨text, hmember, -⟩
      cases (hasMember_of_member hmember).symm.trans hhas
    · rintro ⟨text, hmember, -⟩
      cases (hasMember_of_member hmember).symm.trans hhas
  | some s =>
    obtain ⟨-, hlen, text, hmember, rfl⟩ := recvText_eq_ok_some.mp h
    constructor
    · rintro ⟨text', hmember', -, hs⟩
      cases hmember'.symm.trans hmember
      exact ⟨text, hmember, Option.some.inj hs ▸ CString.nulFree_text _⟩
    · rintro ⟨text', hmember', hfree⟩
      cases hmember'.symm.trans hmember
      have htext := CString.text_of_nulFree hfree
      rw [htext, String.length_toList] at hlen
      exact ⟨text, hmember, hlen, by rw [htext]⟩

/-- One of them is kept exactly if that holds of the one that names what to receive. -/
theorem keepsHash_or_iff {dataId : RecvMamDataId} (h : recvDataId json = .ok dataId)
    (hjsonKey : json.memberAnyCase "data_id" = some jsonKey) :
    KeepsHash jsonKey "bundle_hash" dataId.bundleHash ∨ KeepsHash jsonKey "chid" dataId.chid ↔
      ∃ text, identifier jsonKey = some (.string text) ∧ CString.NulFree text.toList := by
  have hnone (name : String) : ¬ KeepsHash jsonKey name none := by
    rintro ⟨_, _, _, hfield⟩
    cases hfield
  obtain ⟨_, hjsonKey', hread⟩ := recvDataId_eq_ok h
  cases hjsonKey'.symm.trans hjsonKey
  rcases hread with ⟨s, hbundle, rfl⟩ | ⟨hbundle, hchid, hbundle'⟩
  · rw [identifier, if_pos (recvText_eq_ok_some.mp hbundle).1, ← keepsHash_iff hbundle]
    exact or_iff_left (hnone "chid")
  · have hhas : ¬ jsonKey.hasMember "bundle_hash" = true := by
      rw [recvText_eq_ok_none.mp hbundle]
      exact Bool.false_ne_true
    rw [identifier, if_neg hhas, ← keepsHash_iff hchid, hbundle']
    exact or_iff_right (hnone "bundle_hash")

/-- A request to receive that was accepted can be used exactly if it is what it is taken for. -/
theorem recvUsable_iff {C : Json.Codec} {obj : C.Text} {req req' : TaRecvMamReq}
    (h : recvMamMessageReqDeserialize C obj buffer req = some (.ok req')) :
    ∃ json, C.parse obj = some json ∧ (RecvUsable json req' ↔ RecvExact json) := by
  obtain ⟨json, protocolStr, hparse, hprotocol, hreq, hread⟩ := recv_eq_ok h
  refine ⟨json, hparse, ?_, ?_⟩
  · rintro ⟨hnamed, hv1, -, jsonKey, dataId, hjsonKey, hsome, hkeeps⟩
    obtain ⟨dataId', hdataId, hsome', -⟩ := hread hv1
    cases hsome'.symm.trans hsome
    obtain ⟨text, htext, hfree⟩ := (keepsHash_or_iff hdataId hjsonKey).mp hkeeps
    exact ⟨hnamed, jsonKey, text, hjsonKey, htext, hfree⟩
  · rintro ⟨hnamed, jsonKey, text, hjsonKey, htext, hfree⟩
    have hv1 : req'.protocol = mamV1 :=
      hreq.trans (protocolOf_of_member hnamed hprotocol req.protocol)
    obtain ⟨dataId, hdataId, hsome, hkey⟩ := hread hv1
    exact ⟨hnamed, hv1, hkey, jsonKey, dataId, hjsonKey, hsome,
      (keepsHash_or_iff hdataId hjsonKey).mpr ⟨text, htext, hfree⟩⟩

end Accepted

/-- Of new requests, whatever was in their memory: what is accepted can be used exactly if the
document is what it is taken for. -/
theorem mamRequests_usable_iff (valueint : String → Int) (C : Json.Codec) (obj : C.Text)
    (buffer : Block TextBuffers.protocolLen) :
    (∀ token protocol req,
      sendMamMessageReqDeserialize valueint C obj buffer (sendMamReqNew token protocol) =
        some (.ok req) →
      ∃ json, C.parse obj = some json ∧ (SendUsable json req ↔ SendExact json)) ∧
    ∀ protocol req,
      recvMamMessageReqDeserialize C obj buffer (recvMamReqNew protocol) = some (.ok req) →
      ∃ json, C.parse obj = some json ∧ (RecvUsable json req ↔ RecvExact json) :=
  ⟨fun _ _ _ h => sendUsable_iff h, fun _ _ h => recvUsable_iff h⟩

namespace Sample

/-- No numbers. -/
def noInt (_ : String) : Int := 0

/-- A seed of nines. -/
def seed : Tree := .string (String.ofList (tryteChars (SendRes.Sample.hashOf 0)))

/-- A request to send, with a seed. -/
def sendDoc (protocol : String) (seed : Tree) : Tree :=
  .object [("protocol", .string protocol),
    ("data", .object [("seed", seed), ("message", .string "HELLO")])]

/-- A request to receive from a bundle, a channel or a message. -/
def recvDoc (protocol name : String) (id : Tree) : Tree :=
  .object [("protocol", .string protocol), ("data_id", .object [(name, id)])]

/-- What is sent with a new request. -/
def send (doc : Tree) : Option (Except Status TaSendMamReq) :=
  sendMamMessageReqDeserialize noInt Json.Codec.trees doc (.zero _) (sendMamReqNew (.zero _) 1)

/-- What is received with a new request. -/
def recv (doc : Tree) : Option (Except Status TaRecvMamReq) :=
  recvMamMessageReqDeserialize Json.Codec.trees doc (.zero _) (recvMamReqNew 1)

end Sample

/-- A message on the channel of a seed, and the messages of a bundle. -/
theorem mamRequests_usable_sample :
    (∃ req, Sample.send (Sample.sendDoc "MAM_V1" Sample.seed) = some (.ok req) ∧
      SendUsable (Sample.sendDoc "MAM_V1" Sample.seed) req) ∧
    ∃ req, Sample.recv (Sample.recvDoc "MAM_V1" "bundle_hash" Sample.seed) = some (.ok req) ∧
      RecvUsable (Sample.recvDoc "MAM_V1" "bundle_hash" Sample.seed) req := by
  have hsend : ∃ req, Sample.send (Sample.sendDoc "MAM_V1" Sample.seed) = some (.ok req) := by
    refine ⟨⟨.zero _, some ⟨some (List.replicate 81 '9'), 6, none, some "HELLO".toList⟩,
      some ⟨[], []⟩, 0⟩, ?_⟩
    decide
  have hrecv : ∃ req, Sample.recv (Sample.recvDoc "MAM_V1" "bundle_hash" Sample.seed) =
      some (.ok req) := by
    refine ⟨⟨some ⟨some (List.replicate 81 '9'), none, none⟩, some ⟨[], []⟩, 0⟩, ?_⟩
    decide
  obtain ⟨req, hreq⟩ := hsend
  obtain ⟨req', hreq'⟩ := hrecv
  obtain ⟨_, hjson, husable⟩ := (mamRequests_usable_iff Sample.noInt Json.Codec.trees
    (Sample.sendDoc "MAM_V1" Sample.seed) (.zero _)).1 (.zero _) 1 req hreq
  obtain ⟨_, hjson', husable'⟩ := (mamRequests_usable_iff Sample.noInt Json.Codec.trees
    (Sample.recvDoc "MAM_V1" "bundle_hash" Sample.seed) (.zero _)).2 1 req' hreq'
  cases hjson
  cases hjson'
  refine ⟨⟨req, hreq, husable.mpr ⟨rfl, ?_, ?_⟩⟩, ⟨req', hreq', husable'.mpr ⟨rfl, ?_⟩⟩⟩
  · intro jsonKey hjsonKey name hname value hvalue
    cases hjsonKey
    rcases List.mem_pair.mp hname with rfl | rfl
    · cases hvalue
      exact ⟨_, rfl⟩
    · cases hvalue
  · intro jsonKey hjsonKey text htext
    cases hjsonKey
    cases htext
    decide
  · exact ⟨_, _, rfl, rfl, by decide⟩

/-- A foreign protocol is accepted, and to receive it leaves no data.  A seed of 82 characters is
cut.  A message alone names nothing to receive from. -/
theorem mamRequests_not_usable :
    (∃ req, Sample.send (Sample.sendDoc "MAM_V2" Sample.seed) = some (.ok req) ∧
      ¬ SendUsable (Sample.sendDoc "MAM_V2" Sample.seed) req) ∧
    (∃ req, Sample.send (Sample.sendDoc "MAM_V1" (.string (TextBuffers.Sample.nines 82))) =
        some (.ok req) ∧
      ¬ SendUsable (Sample.sendDoc "MAM_V1" (.string (TextBuffers.Sample.nines 82))) req) ∧
    Sample.recv (Sample.recvDoc "MAM_V2" "bundle_hash" Sample.seed) =
      some (.ok ⟨none, none, 1⟩) ∧
    Sample.recv (Sample.recvDoc "MAM_V1" "msg_id" (.string (TextBuffers.Sample.nines 21))) =
      some (.ok ⟨some ⟨none, none, some (List.replicate 21 '9')⟩, some ⟨[], []⟩, 0⟩) := by
  refine ⟨⟨⟨.zero _, some ⟨some (List.replicate 81 '9'), 6, none, some "HELLO".toList⟩,
      some ⟨[], []⟩, 1⟩, by decide, ?_⟩,
    ⟨⟨.zero _, some ⟨some (List.replicate 81 '9'), 6, none, some "HELLO".toList⟩,
      some ⟨[], []⟩, 0⟩, by decide, ?_⟩, by decide, by decide⟩
  · intro husable
    cases husable.protocol
  · rintro ⟨-, -, -, jsonKey, data, hjsonKey, hdata, hseed, -, -⟩
    cases hjsonKey
    obtain ⟨hash, hhash, -⟩ := hseed.supplied _ rfl
    have hlen := congrArg (fun t : Tree => t.stringValue.map String.length) hhash
    have hhash : (String.ofList (tryteChars hash)).length = 81 := by
      rw [String.length_ofList, length_tryteChars]
    rw [Tree.stringValue, Tree.stringValue, Option.map_some, Option.map_some, hhash] at hlen
    cases hlen

end MamReq

end TangleAccelerator
