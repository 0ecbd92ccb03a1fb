import TangleAccelerator.Query.Tags

/-!
# Requests for a transfer

What `ta_send_transfer_req_deserialize` leaves in a request: one address and one tag in their
queues, and a message in an array of `2187` characters, of which `ta_send_transfer` sends the first
`msg_len`.

The message is a text of ASCII characters, encoded with two trytes each, or a text of trytes, which
is copied as it is.  Without a message the deserializer writes the flex trits of the default one
where characters are expected, and counts the trits.

A character of a text stands for a byte of the C string.  A read or a write past the end of an
array, a comparison with no text and a product that does not fit into an `int` have no result here.
-/

namespace TangleAccelerator

open Json

/-! ## The deserializer -/

/-- `NUM_TRYTES_MESSAGE`. -/
def numTrytesMessage : Nat := 2187

/-- `DEFAULT_MSG`. -/
def defaultMsg : String := "ZBCDKDTCFDTCSCEAQCMDEAHDPCBDVC9DTCRAPCRCRCTC9DTCFDPCHDCDFD"

/-- `DEFAULT_MSG_LEN`. -/
def defaultMsgLen : Int := 58

/-- `ta_send_transfer_req_t`. -/
structure TransferReq where
  value : Int
  tag : List Hash81
  address : List Hash243
  message : Vector Char numTrytesMessage
  msgLen : Int

/-- The message, as `ta_send_transfer` hands it to `transfer_message_set_trytes`. -/
def TransferReq.sent (req : TransferReq) : List Char := req.message.toList.take req.msgLen.toNat

/-- Functions of other libraries. -/
structure TransferLib where
  /-- `valueint` of a number. -/
  valueint : String → Int
  /-- `ascii_to_trytes`. -/
  asciiToTrytes : String → List Tryte
  /-- `flex_trits_from_trytes`: the characters it writes. -/
  flexTritsFromTrytes : List Tryte → List Char

/-- `ascii_to_trytes` writes two trytes for each character. -/
def TransferLib.TwoPerChar (L : TransferLib) : Prop :=
  ∀ text, (L.asciiToTrytes text).length = 2 * text.length

/-- Whether `hash243_queue_push` and `hash81_queue_push` find memory. -/
structure Pushes where
  address : Bool
  tag : Bool

/-- The text of a member that is a string. -/
def supplied (json : Tree) (name : String) : Option String :=
  (json.member name).bind Tree.stringValue

/-- The part of `ta_send_transfer_req_deserialize` that reads the value. -/
def transferValue (L : TransferLib) (json : Tree) : Int :=
  match json.member "value" with
  | some (.number literal) => L.valueint literal
  | _ => 0

/-- `raw_message`.  Six characters of the format are compared, and it has to be a text. -/
def rawMessage (json : Tree) : Option Bool :=
  match json.member "message_format" with
  | none => some true
  | some value => value.stringValue.map fun format => format.toList.take 6 != "trytes".toList

/-- Characters written to the front of the array. -/
def putMessage (cells : List Char) (buffer : Vector Char numTrytesMessage) :
    Option (Vector Char numTrytesMessage) :=
  if cells.length ≤ numTrytesMessage then some (Vector.ofFn fun i => cells.getD i buffer[i])
  else none

/-- The branch for a message of ASCII characters. -/
def asciiMessage (L : TransferLib) (text : String) (buffer : Vector Char numTrytesMessage) :
    Option (Except Status (Vector Char numTrytesMessage × Int)) :=
  let msgLen := intOf text.length * 2
  if msgLen < -2 ^ 31 ∨ 2 ^ 31 ≤ msgLen then none
  else if numTrytesMessage < msgLen then some (.error .serializerMessageOverrun)
  else (putMessage ((L.asciiToTrytes text).map tryteChar) buffer).map fun message =>
    .ok (message, msgLen)

/-- The branch for a message of trytes.  No character is looked at. -/
def trytesMessage (text : String) (buffer : Vector Char numTrytesMessage) :
    Option (Except Status (Vector Char numTrytesMessage × Int)) :=
  let msgLen := intOf text.length
  if numTrytesMessage < msgLen then some (.error .serializerMessageOverrun)
  -- a negative length is a large one for memcpy
  else if msgLen < 0 then none
  else (putMessage (text.toList.take msgLen.toNat) buffer).map fun message =>
    .ok (message, msgLen)

/-- The branch for no message. -/
def noMessage (L : TransferLib) (buffer : Vector Char numTrytesMessage) :
    Option (Except Status (Vector Char numTrytesMessage × Int)) :=
  (putMessage (L.flexTritsFromTrytes (trytesOf defaultMsg)) buffer).map fun message =>
    .ok (message, defaultMsgLen * 3)

/-- The part of `ta_send_transfer_req_deserialize` that reads the message and its format. -/
def transferMessage (L : TransferLib) (json : Tree) (buffer : Vector Char numTrytesMessage) :
    Option (Except Status (Vector Char numTrytesMessage × Int)) :=
  match rawMessage json with
  | none => none
  | some raw =>
      match supplied json "message" with
      | none => noMessage L buffer
      | some text =>
          if (text.toList.take (intOf text.length).toNat).any fun c => 128 ≤ c.toNat then
            some (.error .serializerJsonParseNotTryte)
          else if raw then asciiMessage L text buffer
          else trytesMessage text buffer

/-- `hash243_queue_push` and `hash81_queue_push`, with the status that follows. -/
def queuePush {α : Type} (memory : Bool) (queue : List α) (elem : α) :
    Option (Except Status (List α)) :=
  if memory then some (.ok (queue ++ [elem])) else some (.error .cclientHash)

/-- `ta_send_transfer_req_deserialize`, with every field of the request. -/
def TransferReq.deserialize (L : TransferLib) (C : Json.Codec) (pushes : Pushes)
    (obj : Option C.Text) (req : TransferReq) : Option (Except Status TransferReq) :=
  match obj with
  | none => some (.error .serializerNull)
  | some text =>
      match C.parse text with
      | none => some (.error .serializerJsonParse)
      | some json => ExceptT.run do
          let addressTrits ← ExceptT.mk (transferAddress json)
          let address ← ExceptT.mk (queuePush pushes.address req.address addressTrits)
          let tagTrits ← ExceptT.mk (transferTag json)
          let tag ← ExceptT.mk (queuePush pushes.tag req.tag tagTrits)
          let message ← ExceptT.mk (transferMessage L json req.message)
          pure ⟨transferValue L json, tag, address, message.1, message.2⟩

/-- The request, as `ta_send_transfer` reads it. -/
def TransferReq.view (req : TransferReq) : SendTransferReq :=
  ⟨req.tag.headD defaultTag, req.address.headD defaultAddress, req.sent.map tryteOf⟩

/-- The message alone, as `ta_send_transfer` reads it. -/
def messageView (L : TransferLib) (buffer : Vector Char numTrytesMessage) (json : Tree) :
    Option (Except Status (List Tryte)) :=
  (transferMessage L json buffer).map
    (Except.map fun message => (message.1.toList.take message.2.toNat).map tryteOf)

/-- With memory for the queues, a new request is read as the deserializer with this message reads
it. -/
theorem TransferReq.map_view_deserialize (L : TransferLib) (C : Json.Codec) (obj : C.Text)
    {req : TransferReq} (htag : req.tag = []) (haddress : req.address = []) :
    (deserialize L C ⟨true, true⟩ (some obj) req).map (Except.map view) =
      taSendTransferReqDeserialize C (messageView L req.message) obj := by
  rw [deserialize, taSendTransferReqDeserialize]
  cases C.parse obj with
  | none => rfl
  | some json =>
      dsimp only
      rw [messageView, htag, haddress]
      rcases transferAddress json with - | e | hash
      · rfl
      · rfl
      rcases transferTag json with - | e | tag
      · rfl
      · rfl
      rcases transferMessage L json req.message with - | e | message
      · rfl
      · rfl
      · rfl

/-! ## What was said -/

/-- The address is that of the document, of `81` trytes, or the default. -/
structure TransferReq.SaysAddress (json : Tree) (req : TransferReq) : Prop where
  copied : ∀ text, supplied json "address" = some text →
    text.length = 81 ∧ req.address.map (fun hash => tryteText hash.toList) = [text]
  default : supplied json "address" = none → req.address = [defaultAddress]

/-- The message is made of trytes, and is that of the document in the format it names, or the
default. -/
structure TransferReq.SaysMessage (L : TransferLib) (json : Tree) (req : TransferReq) : Prop where
  nonneg : 0 ≤ req.msgLen
  fits : req.msgLen ≤ numTrytesMessage
  trytes : ∀ c ∈ req.sent, isTryteChar c = true
  copied : ∀ text, supplied json "message" = some text →
    supplied json "message_format" = some "trytes" → req.sent = text.toList
  encoded : ∀ text, supplied json "message" = some text →
    supplied json "message_format" ≠ some "trytes" →
    req.sent = (L.asciiToTrytes text).map tryteChar
  default : supplied json "message" = none → req.sent = defaultMsg.toList

/-- The request is what the document asks for. -/
structure TransferReq.Says (L : TransferLib) (json : Tree) (req : TransferReq) : Prop where
  address : req.SaysAddress json
  message : req.SaysMessage L json

/-- The format begins like that of trytes. -/
def TakenForTrytes (json : Tree) : Prop :=
  ∃ format, supplied json "message_format" = some format ∧
    format.toList.take 6 = "trytes".toList

/-- An address has `81` characters.  There is a message, and if the format begins like that of
trytes, the message is empty or the format is that of trytes and the message is one that fits. -/
structure KeepsTransfer (json : Tree) : Prop where
  address : ∀ text, supplied json "address" = some text → text.length = 81
  message : ∃ text, supplied json "message" = some text ∧ (TakenForTrytes json →
    text = "" ∨ supplied json "message_format" = some "trytes" ∧
      text.length ≤ numTrytesMessage ∧ ∀ c ∈ text.toList, isTryteChar c = true)

section

variable {L : TransferLib} {json : Tree} {text : String} {req : TransferReq}
  {buffer message : Vector Char numTrytesMessage} {cells : List Char} {msgLen : Int}

/-! ### Lengths -/

theorem intOf_of_lt {n : Nat} (h : n < 2147483648) : intOf n = n :=
  Int.bmod_eq_of_le (by omega) (by omega)

theorem intOf_le (n : Nat) : intOf n ≤ n := by
  have hlt : intOf n < 2147483648 := Int.bmod_lt (by decide)
  by_cases h : n < 2147483648
  · rw [intOf_of_lt h]
  · omega

/-! ### The address -/

theorem tryteChar_tryteOf {c : Char} (h : isTryteChar c = true) : tryteChar (tryteOf c) = c := by
  have hall : ∀ n < 91, isTryteChar (Char.ofNat n) = true →
      tryteChar (tryteOf (Char.ofNat n)) = Char.ofNat n := by decide
  have hlt : c.toNat < 91 := by
    rw [isTryteChar, Bool.not_eq_true', Bool.and_eq_false_iff, Bool.or_eq_false_iff] at h
    rcases h with ⟨-, hZ⟩ | h9
    · have hle : c ≤ 'Z' := by simpa using hZ
      exact Nat.lt_succ_of_le hle
    · rw [bne_eq_false_iff_eq.mp h9]
      decide
  have hc := hall c.toNat hlt
  rw [Char.ofNat_toNat] at hc
  exact hc h

theorem tryteText_trytesOf (h : ∀ c ∈ text.toList, isTryteChar c = true) :
    tryteText (trytesOf text) = text := by
  have hmap : text.toList.map (tryteChar ∘ tryteOf) = text.toList.map id :=
    List.map_congr_left fun c hc => tryteChar_tryteOf (h c hc)
  rw [tryteText, trytesOf, List.map_map, hmap, List.map_id, String.ofList_toList]

theorem transferAddress_of_none (h : supplied json "address" = none) :
    transferAddress json = some (.ok defaultAddress) := by
  rw [transferAddress, ← supplied, h]

/-- An address that is taken is the text itself exactly where the text has `81` characters. -/
theorem transferAddress_eq_iff {hash : Hash243} (hsupplied : supplied json "address" = some text)
    (h : transferAddress json = some (.ok hash)) :
    text.length = 81 ∧ tryteText hash.toList = text ↔ text.length = 81 := by
  refine and_iff_left_of_imp fun hlen => ?_
  rw [transferAddress, ← supplied, hsupplied] at h
  dsimp only at h
  rw [hlen, intOf_of_lt (by decide)] at h
  split at h
  · cases h
  · rename_i hvalid
    rw [if_neg (by decide), Option.some.injEq, Except.ok.injEq] at h
    have hlen' : text.toList.length = 81 := by rw [String.length_toList, hlen]
    have htrytes : ∀ c ∈ text.toList, isTryteChar c = true := by
      rw [Bool.not_eq_false, validTryte, Int.toNat_natCast, ← hlen', List.take_length,
        List.all_eq_true] at hvalid
      exact hvalid
    have hhash : hash.toList = trytesOf text := by
      rw [← h]
      refine List.ext_getElem ?_ fun i hi hi' => ?_
      · rw [Vector.length_toList, trytesOf, List.length_map, hlen']
      · rw [Vector.getElem_toList, Vector.getElem_ofFn, List.getD_eq_getElem _ _ hi']
    rw [hhash, tryteText_trytesOf htrytes]

/-! ### The message -/

/-- What was written is read back. -/
theorem take_putMessage (h : putMessage cells buffer = some message) :
    message.toList.take cells.length = cells := by
  rw [putMessage] at h
  split at h
  · rename_i hlen
    rw [← Option.some.inj h]
    refine List.ext_getElem ?_ fun i hi hi' => ?_
    · rw [List.length_take, Vector.length_toList, Nat.min_eq_left hlen]
    · rw [List.getElem_take, Vector.getElem_toList, Vector.getElem_ofFn,
        List.getD_eq_getElem _ _ hi']
  · cases h

theorem length_le_of_putMessage (h : putMessage cells buffer = some message) :
    cells.length ≤ numTrytesMessage := by
  rw [putMessage] at h
  split at h
  · assumption
  · cases h

/-- An ASCII message that is taken is encoded as a whole. -/
theorem asciiMessage_eq_ok (hL : L.TwoPerChar)
    (h : asciiMessage L text buffer = some (.ok (message, msgLen))) :
    msgLen = 2 * text.length ∧ 2 * text.length ≤ numTrytesMessage ∧
      message.toList.take msgLen.toNat = (L.asciiToTrytes text).map tryteChar := by
  rw [asciiMessage] at h
  split at h
  · cases h
  split at h
  · cases h
  · obtain ⟨message', hput, hok⟩ := Option.map_eq_some_iff.mp h
    cases hok
    have htake := take_putMessage hput
    have hlen := length_le_of_putMessage hput
    rw [List.length_map, hL] at hlen htake
    have hmsgLen : intOf text.length * 2 = 2 * text.length := by
      rw [numTrytesMessage] at hlen
      rw [intOf_of_lt (by omega)]
      omega
    refine ⟨hmsgLen, hlen, ?_⟩
    rw [hmsgLen]
    exact htake

/-- Of a message of trytes that is taken, as many characters are copied as an `int` counts. -/
theorem trytesMessage_eq_ok (h : trytesMessage text buffer = some (.ok (message, msgLen))) :
    msgLen = intOf text.length ∧ 0 ≤ msgLen ∧ msgLen ≤ numTrytesMessage ∧
      message.toList.take msgLen.toNat = text.toList.take msgLen.toNat := by
  rw [trytesMessage] at h
  split at h
  · cases h
  split at h
  · cases h
  · obtain ⟨message', hput, hok⟩ := Option.map_eq_some_iff.mp h
    cases hok
    refine ⟨rfl, by omega, by omega, ?_⟩
    have hle := intOf_le text.length
    have htake := take_putMessage hput
    rw [List.length_take, String.length_toList, Nat.min_eq_left (by omega)] at htake
    exact htake

theorem noMessage_eq_ok (h : noMessage L buffer = some (.ok (message, msgLen))) :
    msgLen = 174 := by
  obtain ⟨message', -, hok⟩ := Option.map_eq_some_iff.mp h
  cases hok
  rfl

theorem takenForTrytes_iff {raw : Bool} (h : rawMessage json = some raw) :
    TakenForTrytes json ↔ raw = false := by
  rw [rawMessage] at h
  rw [TakenForTrytes, supplied]
  cases hmember : json.member "message_format" with
  | none =>
      rw [hmember, Option.some.injEq] at h
      rw [← h]
      refine iff_of_false ?_ Bool.false_ne_true.symm
      rintro ⟨format, hformat, -⟩
      cases hformat
  | some value =>
      rw [hmember] at h
      obtain ⟨format, hformat, hraw⟩ := Option.map_eq_some_iff.mp h
      rw [Option.bind_some, hformat, ← hraw, bne_eq_false_iff_eq]
      constructor
      · rintro ⟨format', hformat', htake⟩
        cases hformat'
        exact htake
      · intro htake
        exact ⟨format, rfl, htake⟩

/-- A message is taken in one of three ways. -/
theorem transferMessage_eq_ok
    (h : transferMessage L json buffer = some (.ok (message, msgLen))) :
    (supplied json "message" = none ∧ noMessage L buffer = some (.ok (message, msgLen))) ∨
      ∃ text, supplied json "message" = some text ∧
        (¬ TakenForTrytes json ∧ asciiMessage L text buffer = some (.ok (message, msgLen)) ∨
          TakenForTrytes json ∧ trytesMessage text buffer = some (.ok (message, msgLen))) := by
  rw [transferMessage] at h
  cases hraw : rawMessage json with
  | none =>
      rw [hraw] at h
      cases h
  | some raw =>
      rw [hraw] at h
      dsimp only at h
      cases htext : supplied json "message" with
      | none =>
          rw [htext] at h
          exact .inl ⟨rfl, h⟩
      | some text =>
          rw [htext] at h
          dsimp only at h
          refine .inr ⟨text, rfl, ?_⟩
          rw [takenForTrytes_iff hraw]
          split at h
          · cases h
          · cases raw with
            | false =>
                rw [if_neg Bool.false_ne_true] at h
                exact .inr ⟨rfl, h⟩
            | true =>
                rw [if_pos rfl] at h
                exact .inl ⟨Bool.false_ne_true.symm, h⟩

theorem queuePush_eq_ok {α : Type} {memory : Bool} {queue queue' : List α} {elem : α}
    (h : queuePush memory queue elem = some (.ok queue')) : queue' = queue ++ [elem] := by
  cases memory with
  | false => cases h
  | true =>
      cases h
      rfl

/-- Where the deserializer succeeds, so do its parts. -/
theorem TransferReq.deserialize_eq_ok {C : Json.Codec} {pushes : Pushes} {obj : C.Text}
    {req' : TransferReq} (hparse : C.parse obj = some json)
    (h : deserialize L C pushes (some obj) req = some (.ok req')) :
    ∃ hash, transferAddress json = some (.ok hash) ∧ req'.address = req.address ++ [hash] ∧
      transferMessage L json req.message = some (.ok (req'.message, req'.msgLen)) := by
  rw [deserialize, hparse] at h
  obtain ⟨hash, haddress, h⟩ := run_mk_bind_eq_ok.mp h
  obtain ⟨address, hpush, h⟩ := run_mk_bind_eq_ok.mp h
  obtain ⟨tagTrits, -, h⟩ := run_mk_bind_eq_ok.mp h
  obtain ⟨tag, -, h⟩ := run_mk_bind_eq_ok.mp h
  obtain ⟨message, hmessage, h⟩ := run_mk_bind_eq_ok.mp h
  cases h
  exact ⟨hash, haddress, queuePush_eq_ok hpush, hmessage⟩

theorem TransferReq.saysAddress_iff {hash : Hash243} {req' : TransferReq}
    (hnew : req.address = []) (haddress : transferAddress json = some (.ok hash))
    (hreq : req'.address = req.address ++ [hash]) :
    req'.SaysAddress json ↔ ∀ text, supplied json "address" = some text → text.length = 81 := by
  rw [hnew, List.nil_append] at hreq
  constructor
  · intro h text htext
    exact (h.copied text htext).1
  · intro h
    constructor
    case copied =>
      intro text htext
      have hkept := (transferAddress_eq_iff htext haddress).mpr (h text htext)
      rw [hreq, List.map_cons, List.map_nil, hkept.2]
      exact ⟨hkept.1, rfl⟩
    case default =>
      intro hnone
      rw [transferAddress_of_none hnone] at haddress
      cases haddress
      exact hreq

theorem length_defaultMsg : defaultMsg.toList.length = 58 := by decide

/-- `message_format` of trytes is taken for one. -/
theorem takenForTrytes_of_eq (h : supplied json "message_format" = some "trytes") :
    TakenForTrytes json := ⟨"trytes", h, by decide⟩

theorem TransferReq.saysMessage_ascii (hL : L.TwoPerChar)
    (htext : supplied json "message" = some text) (hformat : ¬ TakenForTrytes json)
    (h : asciiMessage L text buffer = some (.ok (req.message, req.msgLen))) :
    req.SaysMessage L json := by
  obtain ⟨hlen, hfits, hsent⟩ := asciiMessage_eq_ok hL h
  have hencoded : req.sent = (L.asciiToTrytes text).map tryteChar := hsent
  constructor
  case nonneg => omega
  case fits => omega
  case trytes =>
    rw [hencoded]
    intro c hc
    obtain ⟨t, -, rfl⟩ := List.mem_map.mp hc
    exact isTryteChar_tryteChar t
  case copied =>
    intro _ _ htrytes
    exact absurd (takenForTrytes_of_eq htrytes) hformat
  case encoded =>
    intro text' htext' _
    rw [htext] at htext'
    cases htext'
    exact hencoded
  case default =>
    intro hnone
    rw [htext] at hnone
    cases hnone

/-- The trits of the default message are more than its trytes. -/
theorem TransferReq.not_saysMessage_none (htext : supplied json "message" = none)
    (hlen : req.msgLen = 174) : ¬ req.SaysMessage L json := by
  intro hsaid
  have hsent := congrArg List.length (hsaid.default htext)
  rw [sent, hlen, length_defaultMsg, List.length_take, Vector.length_toList,
    numTrytesMessage] at hsent
  exact absurd hsent (by decide)

/-- A copied message that has its right length is right in the format of trytes if it is made of
trytes, and in another format if it is empty. -/
theorem TransferReq.saysMessage_of_sent (htext : supplied json "message" = some text)
    (hlen : req.msgLen = text.length) (hfits : req.msgLen ≤ numTrytesMessage)
    (hsent : req.sent = text.toList) (htrytes : ∀ c ∈ text.toList, isTryteChar c = true)
    (hformat : supplied json "message_format" = some "trytes" ∨
      text.toList = (L.asciiToTrytes text).map tryteChar) : req.SaysMessage L json := by
  constructor
  case nonneg => omega
  case fits => exact hfits
  case trytes => rwa [hsent]
  case copied =>
    intro text' htext' _
    rw [htext] at htext'
    cases htext'
    exact hsent
  case encoded =>
    intro text' htext' hne
    rw [htext] at htext'
    cases htext'
    rw [hsent]
    exact hformat.resolve_left hne
  case default =>
    intro hnone
    rw [htext] at hnone
    cases hnone

theorem TransferReq.saysMessage_trytes_iff (hL : L.TwoPerChar)
    (htext : supplied json "message" = some text)
    (h : trytesMessage text buffer = some (.ok (req.message, req.msgLen))) :
    req.SaysMessage L json ↔ text = "" ∨ supplied json "message_format" = some "trytes" ∧
      text.length ≤ numTrytesMessage ∧ ∀ c ∈ text.toList, isTryteChar c = true := by
  obtain ⟨hint, hnonneg, hfits, htake⟩ := trytesMessage_eq_ok h
  have hle := intOf_le text.length
  have hsent : req.sent = text.toList.take req.msgLen.toNat := htake
  have hwhole (hlen : text.length ≤ numTrytesMessage) :
      req.msgLen = text.length ∧ req.sent = text.toList := by
    have hmsgLen : req.msgLen = text.length := by
      rw [hint]
      rw [numTrytesMessage] at hlen
      exact intOf_of_lt (by omega)
    rw [hsent, hmsgLen, Int.toNat_natCast, ← String.length_toList, List.take_length]
    exact ⟨rfl, rfl⟩
  constructor
  · intro hsaid
    by_cases hformat : supplied json "message_format" = some "trytes"
    · have hcopied := hsaid.copied text htext hformat
      have hlen := congrArg List.length (hsent.symm.trans hcopied)
      rw [List.length_take, String.length_toList] at hlen
      refine .inr ⟨hformat, by omega, ?_⟩
      rw [← hcopied]
      exact hsaid.trytes
    · -- two trytes for each character are no copy of it unless there is none
      have hlen := congrArg List.length (hsent.symm.trans (hsaid.encoded text htext hformat))
      rw [List.length_take, String.length_toList, List.length_map, hL] at hlen
      have hzero : text.toList.length = 0 := by
        rw [String.length_toList]
        omega
      exact .inl (String.toList_eq_nil_iff.mp (List.length_eq_zero_iff.mp hzero))
  · rintro (rfl | ⟨hformat, hlen, htrytes⟩)
    · obtain ⟨hmsgLen, hcopied⟩ := hwhole (Nat.zero_le _)
      have hnone : (L.asciiToTrytes "").map tryteChar = [] :=
        List.length_eq_zero_iff.mp (by rw [List.length_map, hL]; rfl)
      refine saysMessage_of_sent htext hmsgLen hfits hcopied ?_ (.inr hnone.symm)
      intro c hc
      cases hc
    · obtain ⟨hmsgLen, hcopied⟩ := hwhole hlen
      exact saysMessage_of_sent htext hmsgLen hfits hcopied htrytes (.inl hformat)

theorem TransferReq.saysMessage_iff (hL : L.TwoPerChar)
    (h : transferMessage L json buffer = some (.ok (req.message, req.msgLen))) :
    req.SaysMessage L json ↔ ∃ text, supplied json "message" = some text ∧
      (TakenForTrytes json → text = "" ∨ supplied json "message_format" = some "trytes" ∧
        text.length ≤ numTrytesMessage ∧ ∀ c ∈ text.toList, isTryteChar c = true) := by
  rcases transferMessage_eq_ok h with ⟨htext, hdefault⟩ | ⟨text, htext, hascii | htrytes⟩
  · refine iff_of_false (not_saysMessage_none htext (noMessage_eq_ok hdefault)) ?_
    rintro ⟨text, htext', -⟩
    rw [htext] at htext'
    cases htext'
  · exact iff_of_true (saysMessage_ascii hL htext hascii.1 hascii.2)
      ⟨text, htext, fun hformat => absurd hformat hascii.1⟩
  · rw [saysMessage_trytes_iff hL htext htrytes.2]
    constructor
    · intro hkept
      exact ⟨text, htext, fun _ => hkept⟩
    · rintro ⟨text', htext', hkept⟩
      rw [htext] at htext'
      cases htext'
      exact hkept htrytes.1

/-- A request that is taken is what the document asks for exactly where its address and message
are kept. -/
theorem TransferReq.deserialize_says_iff (hL : L.TwoPerChar) (C : Json.Codec) (pushes : Pushes)
    (obj : C.Text) (hparse : C.parse obj = some json) (hnew : req.address = [])
    (req' : TransferReq) (h : deserialize L C pushes (some obj) req = some (.ok req')) :
    req'.Says L json ↔ KeepsTransfer json := by
  obtain ⟨hash, haddress, hpush, hmessage⟩ := deserialize_eq_ok hparse h
  have haddress' := saysAddress_iff hnew haddress hpush
  have hmessage' := saysMessage_iff hL hmessage
  constructor
  · intro hsaid
    exact ⟨haddress'.mp hsaid.address, hmessage'.mp hsaid.message⟩
  · intro hkeeps
    exact ⟨haddress'.mpr hkeeps.address, hmessage'.mpr hkeeps.message⟩

end

/-! ## Documents -/

/-- Three trits in a character, and no numbers. -/
def Sample.transferLib : TransferLib where
  valueint _ := 0
  asciiToTrytes text := text.toList.flatMap fun c =>
    [Fin.ofNat 27 c.toNat, Fin.ofNat 27 (c.toNat / 27)]
  flexTritsFromTrytes trytes := trytes.map tryteChar

theorem Sample.twoPerChar_transferLib : Sample.transferLib.TwoPerChar := by
  intro text
  rw [← String.length_toList]
  simp [Sample.transferLib, List.length_flatMap, Nat.mul_comm]

/-- Documents that are their own texts. -/
def Sample.treeCodec : Json.Codec := ⟨Tree, id, some⟩

/-- `ta_send_transfer_req_new`.  What it leaves unset is `0` here. -/
def Sample.newTransfer : TransferReq := ⟨0, [], [], Vector.replicate numTrytesMessage '\x00', 0⟩

/-- A request with an address of so many characters. -/
def Sample.addressed (n : Nat) : Tree :=
  .object [("address", .string (String.ofList (List.replicate n 'A'))),
    ("message", .string "hello")]

/-- A text that is no message of trytes. -/
def Sample.lowerCase : Tree :=
  .object [("message", .string "hello"), ("message_format", .string "trytes")]

/-- The request that is made of a document. -/
def Sample.transferOf (json : Tree) : Option (Except Status TransferReq) :=
  TransferReq.deserialize Sample.transferLib Sample.treeCodec ⟨true, true⟩ (some json)
    Sample.newTransfer

/-- An address of `81` trytes and a message in ASCII are kept. -/
theorem TransferReq.deserialize_says_hello :
    ∃ req, Sample.transferOf (Sample.addressed 81) = some (.ok req) ∧
      req.Says Sample.transferLib (Sample.addressed 81) := by
  have hnew : Sample.newTransfer.address = [] := rfl
  refine ⟨_, rfl, (deserialize_says_iff Sample.twoPerChar_transferLib Sample.treeCodec ⟨true, true⟩
    (Sample.addressed 81) rfl hnew _ rfl).mpr ⟨?_, "hello", rfl, ?_⟩⟩
  · intro text htext
    cases htext
    rfl
  · rintro ⟨format, hformat, -⟩
    cases hformat

/-- An address of `82` trytes is cut, a message of trytes is not looked at, and without a message
`174` characters are sent, which are not the `58` of the default. -/
theorem TransferReq.deserialize_differs :
    (∃ req, Sample.transferOf (Sample.addressed 82) = some (.ok req) ∧
      req.address = [Vector.replicate 81 1] ∧ ¬ req.Says Sample.transferLib (Sample.addressed 82)) ∧
    (∃ req, Sample.transferOf Sample.lowerCase = some (.ok req) ∧
      req.msgLen = 5 ∧ ¬ req.Says Sample.transferLib Sample.lowerCase) ∧
    ∃ req, Sample.transferOf (.object []) = some (.ok req) ∧
      req.msgLen = 174 ∧ ¬ req.Says Sample.transferLib (.object []) := by
  refine ⟨⟨_, rfl, ?_, ?_⟩, ⟨_, rfl, ?_, ?_⟩, _, rfl, rfl, ?_⟩
  · decide
  · intro h
    exact absurd (h.address.copied _ rfl).1 (by decide)
  · decide
  · intro h
    have hmem : 'h' ∈ "hello".toList := by decide
    rw [← h.message.copied "hello" rfl rfl] at hmem
    exact absurd (h.message.trytes 'h' hmem) (by decide)
  · intro h
    exact not_saysMessage_none rfl rfl h.message

end TangleAccelerator
