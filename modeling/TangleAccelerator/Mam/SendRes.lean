import TangleAccelerator.Core.Mam
import TangleAccelerator.Core.TextBuffers

/-!
# The answer to a sent message

`ta_send_mam_res_t` as the record of buffers it is, its setters, and the two directions of its
JSON form.

The decoder copies a member to a buffer of its own and from there to the response.  It has one such
buffer for all the hashes, it never clears it, and a hash fills it up to the last cell.  So what it
holds after a copy is no C string.  The setters do not read one: they copy the hash and end it
themselves.  That makes the field after each step a function of the member alone, whatever was in
the buffer before.

`ofSendMamRes` says what a response of `SendMamRes` is in memory.  A field that was not set is the
empty text there, and the encoder leaves its member out.
-/

namespace TangleAccelerator

open CString (Block)
open Json (Tree)

/-- `NUM_TRYTES_MAM_MSG_ID`. -/
abbrev numTrytesMamMsgId : Nat := 21

/-- `MAM_MSG_ID_SIZE`. -/
def mamMsgIdSize : Nat := 63

namespace SendRes

/-! ## The record -/

/-- `ta_send_mam_res_t`. -/
@[ext] structure TaSendMamRes where
  bundleHash : Block (numTrytesHash + 1)
  chid : Block (numTrytesHash + 1)
  msgId : Block (numTrytesMamMsgId + 1)
  announcementBundleHash : Block (numTrytesHash + 1)
  chid1 : Block (numTrytesHash + 1)

/-- `send_mam_res_new`. -/
def sendMamResNew : TaSendMamRes := ⟨.zero _, .zero _, .zero _, .zero _, .zero _⟩

/-- What the setters have in common. -/
def setTrytes {size : Nat} (field : Block size) (trytes : List Char) (n : Nat) :
    Option (Block size) :=
  (field.memcpy trytes n).bind fun field => field.terminate n

/-- `send_mam_res_set_bundle_hash`. -/
def sendMamResSetBundleHash (res : TaSendMamRes) (bundleHash : List Char) : Option TaSendMamRes :=
  (setTrytes res.bundleHash bundleHash numTrytesHash).map ({ res with bundleHash := · })

/-- `send_mam_res_set_channel_id`. -/
def sendMamResSetChannelId (res : TaSendMamRes) (channelId : List Char) : Option TaSendMamRes :=
  (setTrytes res.chid channelId numTrytesHash).map ({ res with chid := · })

/-- `send_mam_res_set_msg_id`. -/
def sendMamResSetMsgId (res : TaSendMamRes) (msgId : List Char) : Option TaSendMamRes :=
  (setTrytes res.msgId msgId numTrytesMamMsgId).map ({ res with msgId := · })

/-- `send_mam_res_set_announce_bundle_hash`. -/
def sendMamResSetAnnounceBundleHash (res : TaSendMamRes) (announcementBundleHash : List Char) :
    Option TaSendMamRes :=
  (setTrytes res.announcementBundleHash announcementBundleHash numTrytesHash).map
    ({ res with announcementBundleHash := · })

/-- `send_mam_res_set_chid1`. -/
def sendMamResSetChid1 (res : TaSendMamRes) (chid1 : List Char) : Option TaSendMamRes :=
  (setTrytes res.chid1 chid1 numTrytesHash).map ({ res with chid1 := · })

/-- `transaction_bundle` of `utarray_front`. -/
def frontBundle (bundle : List Transaction) : Option (List Char) :=
  bundle.head?.map fun txn => tryteChars txn.bundle

/-- `send_mam_res_set_msg_result`. -/
def sendMamResSetMsgResult (res : TaSendMamRes) (chid msgId : List Char)
    (bundle : List Transaction) : Option TaSendMamRes := do
  let res ← sendMamResSetChannelId res chid
  let res ← sendMamResSetMsgId res msgId
  sendMamResSetBundleHash res (← frontBundle bundle)

/-- `send_mam_res_set_announce`. -/
def sendMamResSetAnnounce (res : TaSendMamRes) (chid1 : List Char) (bundle : List Transaction) :
    Option TaSendMamRes := do
  let res ← sendMamResSetAnnounceBundleHash res (← frontBundle bundle)
  sendMamResSetChid1 res chid1

/-! ## The two directions -/

/-- `cJSON_AddStringToObject` of a field. -/
def addString {n : Nat} (members : List (String × Tree)) (name : String) (field : Block n) :
    Option (List (String × Tree)) :=
  (CString.read field.cells).map fun s => members ++ [(name, .string (String.ofList s))]

/-- The same for a field that may be empty. -/
def addNonempty {n : Nat} (members : List (String × Tree)) (name : String) (field : Block n) :
    Option (List (String × Tree)) :=
  if field.cells.head? = some CString.nul then some members else addString members name field

/-- `send_mam_message_res_serialize`. -/
def sendMamMessageResSerialize (C : Json.Codec) (res : TaSendMamRes) (uuid : Option String) :
    Option C.Text := do
  match uuid with
  | some uuid => return C.print (.object [("uuid", .string uuid)])
  | none =>
    let members ← addString [] "bundle_hash" res.bundleHash
    let members ← addString members "chid" res.chid
    let members ← addString members "msg_id" res.msgId
    let members ← addNonempty members "announcement_bundle_hash" res.announcementBundleHash
    let members ← addNonempty members "chid1" res.chid1
    return C.print (.object members)

/-- The buffers of `send_mam_message_res_deserialize`, and the response it fills. -/
structure Locals where
  addr : Block (numTrytesHash + 1)
  msgId : Block mamMsgIdSize
  res : TaSendMamRes

/-- Steps of the decoder.  An error keeps what was written before it. -/
abbrev Decode := ExceptT Status (StateT Locals Option)

/-- A member that goes through `addr`. -/
def getAddr (json : Tree) (name : String)
    (set : TaSendMamRes → List Char → Option TaSendMamRes) : Decode Unit :=
  ExceptT.mk fun locals =>
    match TextBuffers.taJsonGetString json name locals.addr numTrytesHash with
    | .error _ => some (.error .serializerNull, locals)
    | .ok none => none
    | .ok (some addr) =>
        (set locals.res addr.cells).map fun res =>
          (.ok (), { locals with addr := addr, res := res })

/-- The member that goes through `msg_id`. -/
def getMsgId (json : Tree) : Decode Unit :=
  ExceptT.mk fun locals =>
    match TextBuffers.taJsonGetString json "msg_id" locals.msgId numTrytesMamMsgId with
    | .error _ => some (.error .serializerNull, locals)
    | .ok none => none
    | .ok (some msgId) =>
        (sendMamResSetMsgId locals.res msgId.cells).map fun res =>
          (.ok (), { locals with msgId := msgId, res := res })

/-- A member that may be missing. -/
def getAddrIf (json : Tree) (name : String)
    (set : TaSendMamRes → List Char → Option TaSendMamRes) : Decode Unit :=
  if json.hasMember name then getAddr json name set else pure ()

/-- The part of `send_mam_message_res_deserialize` after the parser. -/
def getMembers (json : Tree) : Decode Unit := do
  getAddr json "chid" sendMamResSetChannelId
  getMsgId json
  getAddr json "bundle_hash" sendMamResSetBundleHash
  getAddrIf json "chid1" sendMamResSetChid1
  getAddrIf json "announcement_bundle_hash" sendMamResSetAnnounceBundleHash

/-- `send_mam_message_res_deserialize`: its status, and what is left in `res`.  The buffers hold
whatever was on the stack. -/
def sendMamMessageResDeserialize (C : Json.Codec) (obj : C.Text) (addr : Block (numTrytesHash + 1))
    (msgId : Block mamMsgIdSize) (res : TaSendMamRes) :
    Option (Except Status Unit × TaSendMamRes) :=
  match C.parse obj with
  | none => some (.error .serializerJsonParse, res)
  | some json => ((getMembers json).run.run ⟨addr, msgId, res⟩).map fun r => (r.1, r.2.res)

/-! ## Responses in memory -/

/-- A field of trytes, or of none. -/
def fieldOf {n : Nat} : Option (Vector Tryte n) → Block (n + 1)
  | none => .zero _
  | some trytes => .ofText (tryteChars trytes) (by rw [length_tryteChars])

/-- A response as a record of buffers. -/
def ofSendMamRes (r : SendMamRes) : TaSendMamRes where
  bundleHash := fieldOf r.bundleHash
  chid := fieldOf r.chid
  msgId := fieldOf r.msgId
  announcementBundleHash := fieldOf r.announcementBundleHash
  chid1 := fieldOf r.chid1

theorem ofSendMamRes_new : ofSendMamRes {} = sendMamResNew := rfl

section Fields

variable {n : Nat} {trytes : Vector Tryte n}

/-- A setter leaves the trytes it is given, whatever is behind them and was in the field. -/
theorem setTrytes_tryteChars (field : Block (n + 1)) (rest : List Char) :
    setTrytes field (tryteChars trytes ++ rest) n = some (fieldOf (some trytes)) :=
  field.memcpy_bind_terminate length_tryteChars (by rw [length_tryteChars])

theorem setBundleHash_tryteChars (res : TaSendMamRes) (hash : Hash243) (rest : List Char) :
    sendMamResSetBundleHash res (tryteChars hash ++ rest) =
      some { res with bundleHash := fieldOf (some hash) } := by
  rw [sendMamResSetBundleHash, setTrytes_tryteChars, Option.map_some]

theorem setChannelId_tryteChars (res : TaSendMamRes) (hash : Hash243) (rest : List Char) :
    sendMamResSetChannelId res (tryteChars hash ++ rest) =
      some { res with chid := fieldOf (some hash) } := by
  rw [sendMamResSetChannelId, setTrytes_tryteChars, Option.map_some]

theorem setMsgId_tryteChars (res : TaSendMamRes) (msgId : MsgId) (rest : List Char) :
    sendMamResSetMsgId res (tryteChars msgId ++ rest) =
      some { res with msgId := fieldOf (some msgId) } := by
  rw [sendMamResSetMsgId, setTrytes_tryteChars, Option.map_some]

theorem setAnnounceBundleHash_tryteChars (res : TaSendMamRes) (hash : Hash243)
    (rest : List Char) :
    sendMamResSetAnnounceBundleHash res (tryteChars hash ++ rest) =
      some { res with announcementBundleHash := fieldOf (some hash) } := by
  rw [sendMamResSetAnnounceBundleHash, setTrytes_tryteChars, Option.map_some]

theorem setChid1_tryteChars (res : TaSendMamRes) (hash : Hash243) (rest : List Char) :
    sendMamResSetChid1 res (tryteChars hash ++ rest) =
      some { res with chid1 := fieldOf (some hash) } := by
  rw [sendMamResSetChid1, setTrytes_tryteChars, Option.map_some]

theorem addString_fieldOf (members : List (String × Tree)) (name : String) :
    addString members name (fieldOf (some trytes)) =
      some (members ++ [(name, .string (String.ofList (tryteChars trytes)))]) := by
  rw [addString, fieldOf, Block.read_ofText nulFree_tryteChars, Option.map_some]

end Fields

/-- The member of a field that may be empty. -/
def optional {n : Nat} (name : String) (field : Option (Vector Tryte n)) : List (String × Tree) :=
  (field.map fun trytes => (name, Tree.string (String.ofList (tryteChars trytes)))).toList

/-- Only a field without trytes starts with a NUL. -/
theorem addNonempty_fieldOf {n : Nat} (members : List (String × Tree)) (name : String)
    (field : Option (Vector Tryte (n + 1))) :
    addNonempty members name (fieldOf field) = some (members ++ optional name field) := by
  cases field with
  | none => simp [addNonempty, fieldOf, Block.zero, List.replicate_succ, optional]
  | some trytes =>
    have hhead : (fieldOf (some trytes)).cells.head? ≠ some CString.nul := by
      intro h
      have hmem : CString.nul ∈ tryteChars trytes := by
        rw [fieldOf, Block.ofText, List.head?_append_of_ne_nil] at h
        · exact List.mem_of_mem_head? h
        · exact List.ne_nil_of_length_eq_add_one length_tryteChars
      exact nulFree_tryteChars hmem
    rw [addNonempty, if_neg hhead, addString_fieldOf, optional, Option.map_some, Option.toList_some]

/-! ## Decoding -/

/-- A step of the decoder that goes well, and what it makes of the response. -/
def Sets (x : Decode Unit) (f : TaSendMamRes → TaSendMamRes) : Prop :=
  ∀ locals, ∃ locals', x.run.run locals = some (.ok (), locals') ∧ locals'.res = f locals.res

theorem Sets.bind {x y : Decode Unit} {f g : TaSendMamRes → TaSendMamRes} (hx : Sets x f)
    (hy : Sets y g) : Sets (x >>= fun _ => y) (g ∘ f) := by
  intro locals
  obtain ⟨locals', hrun, hres⟩ := hx locals
  obtain ⟨locals'', hrun', hres'⟩ := hy locals'
  refine ⟨locals'', ?_, by rw [hres', hres, Function.comp]⟩
  rw [ExceptT.run_bind, StateT.run_bind, hrun]
  exact hrun'

section Decoding

variable {json : Tree} {name : String} {n : Nat}

/-- A copy of trytes to a buffer of more than their length. -/
theorem taJsonGetString_tryteChars {size : Nat} {trytes : Vector Tryte n} (buffer : Block size)
    (h : json.member name = some (.string (String.ofList (tryteChars trytes)))) (hn : n ≤ size) :
    ∃ after rest, TextBuffers.taJsonGetString json name buffer n = .ok (some after) ∧
      after.cells = tryteChars trytes ++ rest := by
  obtain ⟨after, hafter, hcells⟩ := buffer.strncpy_of_le (tryteChars trytes) hn
  have hpadded : CString.padded (tryteChars trytes) n = tryteChars trytes := by
    simp [CString.padded]
  refine ⟨after, buffer.cells.drop n, ?_, by rw [hcells, hpadded]⟩
  rw [TextBuffers.taJsonGetString_eq_ok_iff]
  refine ⟨_, h, ?_⟩
  rw [String.toList_ofList, CString.text_of_nulFree nulFree_tryteChars, hafter]

theorem sets_getAddr {set : TaSendMamRes → List Char → Option TaSendMamRes}
    {f : TaSendMamRes → TaSendMamRes} {hash : Hash243}
    (h : json.member name = some (.string (String.ofList (tryteChars hash))))
    (hset : ∀ res rest, set res (tryteChars hash ++ rest) = some (f res)) :
    Sets (getAddr json name set) f := by
  intro locals
  obtain ⟨addr, rest, hget, hcells⟩ :=
    taJsonGetString_tryteChars locals.addr h (by decide : 81 ≤ numTrytesHash + 1)
  have hres : set locals.res addr.cells = some (f locals.res) := hcells ▸ hset locals.res rest
  refine ⟨{ locals with addr := addr, res := f locals.res }, ?_, rfl⟩
  simp only [getAddr, ExceptT.run_mk, StateT.run, hget, hres, Option.map_some]

theorem sets_getMsgId {msgId : MsgId}
    (h : json.member "msg_id" = some (.string (String.ofList (tryteChars msgId)))) :
    Sets (getMsgId json) fun res => { res with msgId := fieldOf (some msgId) } := by
  intro locals
  obtain ⟨buffer, rest, hget, hcells⟩ :=
    taJsonGetString_tryteChars locals.msgId h (by decide : 21 ≤ mamMsgIdSize)
  have hset := setMsgId_tryteChars locals.res msgId rest
  rw [← hcells] at hset
  refine ⟨⟨locals.addr, buffer, _⟩, ?_, rfl⟩
  simp only [getMsgId, ExceptT.run_mk, StateT.run, hget, hset, Option.map_some]

theorem sets_getAddrIf {set : TaSendMamRes → List Char → Option TaSendMamRes}
    {f : Hash243 → TaSendMamRes → TaSendMamRes} {field : Option Hash243}
    (hhas : json.hasMember name = field.isSome)
    (h : ∀ hash ∈ field, json.member name = some (.string (String.ofList (tryteChars hash))))
    (hset : ∀ hash res rest, set res (tryteChars hash ++ rest) = some (f hash res)) :
    Sets (getAddrIf json name set) (field.elim id f) := by
  rw [getAddrIf, hhas]
  cases field with
  | none => exact fun locals => ⟨locals, rfl, rfl⟩
  | some hash => exact sets_getAddr (h hash rfl) (hset hash)

end Decoding

/-! ## The round trip -/

/-- The members of a response. -/
def membersOf (bundleHash chid : Hash243) (msgId : MsgId) (announcement chid1 : Option Hash243) :
    List (String × Tree) :=
  [("bundle_hash", .string (String.ofList (tryteChars bundleHash))),
    ("chid", .string (String.ofList (tryteChars chid))),
    ("msg_id", .string (String.ofList (tryteChars msgId)))] ++
      optional "announcement_bundle_hash" announcement ++ optional "chid1" chid1

section RoundTrip

variable (bundleHash chid : Hash243) (msgId : MsgId) (announcement chid1 : Option Hash243)

theorem sendMamMessageResSerialize_ofSendMamRes (C : Json.Codec) :
    sendMamMessageResSerialize C
      (ofSendMamRes ⟨some bundleHash, some chid, some msgId, announcement, chid1⟩) none =
        some (C.print (.object (membersOf bundleHash chid msgId announcement chid1))) := by
  simp only [sendMamMessageResSerialize, ofSendMamRes, addString_fieldOf, addNonempty_fieldOf,
    Option.bind_eq_bind, Option.bind_some]
  rfl

theorem plain_membersOf :
    (Tree.object (membersOf bundleHash chid msgId announcement chid1)).Plain
      Json.nestingLimit := by
  have hmembers : ∀ m ∈ membersOf bundleHash chid msgId announcement chid1,
      m.1 ∈ ["bundle_hash", "chid", "msg_id", "announcement_bundle_hash", "chid1"] ∧
        m.2.Plain 999 := by
    intro m hm
    simp only [membersOf, optional, List.mem_append, List.mem_cons, List.not_mem_nil, or_false,
      Option.mem_toList, Option.map_eq_some_iff] at hm
    obtain ((rfl | rfl | rfl) | ⟨hash, -, rfl⟩) | ⟨hash, -, rfl⟩ := hm
    all_goals exact ⟨by simp, .string ascii_tryteChars⟩
  have hnames : ∀ name ∈ ["bundle_hash", "chid", "msg_id", "announcement_bundle_hash", "chid1"],
      Tree.Ascii name := by simp [Tree.Ascii]
  exact .object (fun m hm => hnames m.1 (hmembers m hm).1) (fun m hm => (hmembers m hm).2)

theorem hasMember_announcement :
    (Tree.object (membersOf bundleHash chid msgId announcement chid1)).hasMember
      "announcement_bundle_hash" = announcement.isSome := by
  cases announcement <;> cases chid1 <;> simp [membersOf, optional, Tree.hasMember, Tree.sameName]

theorem hasMember_chid1 :
    (Tree.object (membersOf bundleHash chid msgId announcement chid1)).hasMember "chid1" =
      chid1.isSome := by
  cases announcement <;> cases chid1 <;> simp [membersOf, optional, Tree.hasMember, Tree.sameName]

/-- The steps of the decoder on what the encoder prints. -/
theorem sets_getMembers {json : Tree}
    (hjson : json = .object (membersOf bundleHash chid msgId announcement chid1)) :
    Sets (getMembers json) fun res =>
      { bundleHash := fieldOf (some bundleHash), chid := fieldOf (some chid),
        msgId := fieldOf (some msgId),
        announcementBundleHash :=
          announcement.elim res.announcementBundleHash fun hash => fieldOf (some hash)
        chid1 := chid1.elim res.chid1 fun hash => fieldOf (some hash) } := by
  have hchid : json.member "chid" = some (.string (String.ofList (tryteChars chid))) :=
    hjson ▸ rfl
  have hmsgId : json.member "msg_id" = some (.string (String.ofList (tryteChars msgId))) :=
    hjson ▸ rfl
  have hbundle : json.member "bundle_hash" =
      some (.string (String.ofList (tryteChars bundleHash))) := hjson ▸ rfl
  have hchid1 : ∀ hash ∈ chid1,
      json.member "chid1" = some (.string (String.ofList (tryteChars hash))) := by
    rintro hash rfl
    subst hjson
    cases announcement <;> rfl
  have hannounce : ∀ hash ∈ announcement, json.member "announcement_bundle_hash" =
      some (.string (String.ofList (tryteChars hash))) := by
    rintro hash rfl
    subst hjson
    rfl
  have hhas := hasMember_chid1 bundleHash chid msgId announcement chid1
  have hhas' := hasMember_announcement bundleHash chid msgId announcement chid1
  rw [← hjson] at hhas hhas'
  -- the members in the order they are read, one after the other through the same buffer
  have hsets := (sets_getAddr hchid (setChannelId_tryteChars · chid)).bind <|
    (sets_getMsgId hmsgId).bind <|
    (sets_getAddr hbundle (setBundleHash_tryteChars · bundleHash)).bind <|
    (sets_getAddrIf hhas hchid1 fun hash res => setChid1_tryteChars res hash).bind <|
    sets_getAddrIf hhas' hannounce fun hash res => setAnnounceBundleHash_tryteChars res hash
  intro locals
  obtain ⟨locals', hrun, hres⟩ := hsets locals
  refine ⟨locals', hrun, hres.trans ?_⟩
  cases announcement <;> cases chid1 <;> rfl

end RoundTrip

/-! ## The responses that are built -/

section Setting

variable (r : SendMamRes) (txn : Transaction) (txns : List Transaction) (behind : List Char)

theorem setMsgResult_ofSendMamRes (chid : Hash243) (msgId : MsgId) (behind' : List Char) :
    sendMamResSetMsgResult (ofSendMamRes r) (tryteChars chid ++ behind)
      (tryteChars msgId ++ behind') (txn :: txns) =
        some (ofSendMamRes { r with
          bundleHash := some txn.bundle, chid := some chid, msgId := some msgId }) := by
  have hbundle (res : TaSendMamRes) := setBundleHash_tryteChars res txn.bundle []
  simp only [List.append_nil] at hbundle
  simp only [sendMamResSetMsgResult, frontBundle, setChannelId_tryteChars, setMsgId_tryteChars,
    hbundle, List.head?_cons, Option.map_some, Option.bind_eq_bind, Option.bind_some]
  rfl

theorem setAnnounce_ofSendMamRes (chid1 : Hash243) :
    sendMamResSetAnnounce (ofSendMamRes r) (tryteChars chid1 ++ behind) (txn :: txns) =
      some (ofSendMamRes { r with
        announcementBundleHash := some txn.bundle, chid1 := some chid1 }) := by
  have hbundle (res : TaSendMamRes) := setAnnounceBundleHash_tryteChars res txn.bundle []
  simp only [List.append_nil] at hbundle
  simp only [sendMamResSetAnnounce, frontBundle, setChid1_tryteChars, hbundle, List.head?_cons,
    Option.map_some, Option.bind_eq_bind, Option.bind_some]
  rfl

end Setting

/-- What is built from a new response: the result of a message, and announcements. -/
inductive Built : TaSendMamRes → Prop where
  | msgResult {chid : Hash243} {msgId : MsgId} {txn : Transaction} {txns : List Transaction}
      {behind behind' : List Char} {res : TaSendMamRes}
      (h : sendMamResSetMsgResult sendMamResNew (tryteChars chid ++ behind)
        (tryteChars msgId ++ behind') (txn :: txns) = some res) : Built res
  | announce {res res' : TaSendMamRes} {chid1 : Hash243} {txn : Transaction}
      {txns : List Transaction} {behind : List Char} (hres : Built res)
      (h : sendMamResSetAnnounce res (tryteChars chid1 ++ behind) (txn :: txns) = some res') :
      Built res'

/-- It has a bundle, a channel and a message. -/
theorem Built.eq_ofSendMamRes {res : TaSendMamRes} (h : Built res) :
    ∃ bundleHash chid msgId announcement chid1,
      res = ofSendMamRes ⟨some bundleHash, some chid, some msgId, announcement, chid1⟩ := by
  induction h with
  | msgResult h =>
    rw [← ofSendMamRes_new, setMsgResult_ofSendMamRes, Option.some.injEq] at h
    exact ⟨_, _, _, _, _, h.symm⟩
  | announce _ h ih =>
    obtain ⟨bundleHash, chid, msgId, announcement, chid1, rfl⟩ := ih
    rw [setAnnounce_ofSendMamRes, Option.some.injEq] at h
    exact ⟨_, _, _, _, _, h.symm⟩

/-- What is built is read back from what is printed of it, whatever was on the stack. -/
theorem sendMamMessageRes_roundTrip {C : Json.Codec} (hC : C.Lawful) {res : TaSendMamRes}
    (h : Built res) (addr : Block (numTrytesHash + 1)) (msgId : Block mamMsgIdSize) :
    ∃ text, sendMamMessageResSerialize C res none = some text ∧
      sendMamMessageResDeserialize C text addr msgId sendMamResNew = some (.ok (), res) := by
  obtain ⟨bundleHash, chid, id, announcement, chid1, rfl⟩ := h.eq_ofSendMamRes
  refine ⟨_, sendMamMessageResSerialize_ofSendMamRes bundleHash chid id announcement chid1 C, ?_⟩
  rw [sendMamMessageResDeserialize,
    hC.parse_print (plain_membersOf bundleHash chid id announcement chid1)]
  obtain ⟨locals, hrun, hres⟩ :=
    sets_getMembers bundleHash chid id announcement chid1 rfl ⟨addr, msgId, sendMamResNew⟩
  dsimp only
  rw [hrun, Option.map_some, hres]
  cases announcement <;> cases chid1 <;> rfl

namespace Sample

/-- A hash of one tryte over and over. -/
def hashOf (t : Tryte) : Hash243 := Vector.replicate 81 t

/-- A transaction of a bundle. -/
def txnOf (bundle : Hash243) : Transaction where
  message := Vector.replicate 2187 0
  address := hashOf 0
  value := 0
  obsoleteTag := Vector.replicate 27 0
  timestamp := 0
  currentIndex := 0
  lastIndex := 0
  bundle := bundle
  trunk := hashOf 0
  branch := hashOf 0
  tag := Vector.replicate 27 0
  attachmentTimestamp := 0
  attachmentTimestampLower := 0
  attachmentTimestampUpper := 0
  nonce := Vector.replicate 27 0
  hash := hashOf 0

/-- The channel and the message, each followed by a NUL. -/
def messageSent : Option TaSendMamRes :=
  sendMamResSetMsgResult sendMamResNew (tryteChars (hashOf 1) ++ [CString.nul])
    (tryteChars (Vector.replicate 21 2) ++ [CString.nul]) [txnOf (hashOf 3)]

end Sample

/-- A message and its announcement. -/
theorem sendMamMessageRes_roundTrip_announced : ∃ res res' text,
    Sample.messageSent = some res ∧
    sendMamResSetAnnounce res (tryteChars (Sample.hashOf 4) ++ [])
      [Sample.txnOf (Sample.hashOf 5)] = some res' ∧
    sendMamMessageResSerialize Json.Codec.trees res' none = some text ∧
    sendMamMessageResDeserialize Json.Codec.trees text (.zero _) (.zero _) sendMamResNew =
      some (.ok (), res') := by
  have hsent : Sample.messageSent = some _ := setMsgResult_ofSendMamRes {} _ _ _ _ _ _
  have hannounced := setAnnounce_ofSendMamRes
    ⟨some (Sample.hashOf 3), some (Sample.hashOf 1), some (Vector.replicate 21 2), none, none⟩
    (Sample.txnOf (Sample.hashOf 5)) [] [] (Sample.hashOf 4)
  obtain ⟨text, hprint, hparse⟩ := sendMamMessageRes_roundTrip Json.Codec.lawful_trees
    (.announce (.msgResult hsent) hannounced) (.zero _) (.zero _)
  exact ⟨_, _, text, hsent, hannounced, hprint, hparse⟩

end SendRes

end TangleAccelerator
