import TangleAccelerator.Bytes.CString
import TangleAccelerator.Core.SerHelper
import TangleAccelerator.Mqtt.Duplex

/-!
# Texts in buffers

`ta_json_get_string` with the buffer it writes to.

The function hands a text of the document to `strncpy` with the size it is given.  So it writes
exactly that many characters, and a NUL among them only if the text is shorter.  Each caller
declares its buffer and states the size on its own.  All but one state the size of the buffer, and
their text is ended exactly if it is shorter than the buffer.  `mqtt_device_id_deserialize` states
one more than what `mqtt_request_handler` declares.  It writes past the end, whatever the text.
-/

/-- `valuestring`, as C reads it: a NUL in the document ends it. -/
def Json.Tree.valuestring : Json.Tree → Option (List Char)
  | .string text => some (CString.text text.toList)
  | _ => none

namespace TangleAccelerator

open CString (Block)
open Json (Tree)

/-- `NUM_TRYTES_HASH`, which is also `NUM_TRYTES_ADDRESS`. -/
abbrev numTrytesHash : Nat := 81

theorem valuestring_eq_some {value : Tree} {s : List Char} :
    value.valuestring = some s ↔ ∃ text, value = .string text ∧ CString.text text.toList = s := by
  cases value <;> simp [Tree.valuestring]

/-! ## Texts of trytes -/

/-- Trytes as the characters of a C string. -/
def tryteChars {n : Nat} (trytes : Vector Tryte n) : List Char := trytes.toList.map tryteChar

section Trytes

variable {n : Nat} {trytes : Vector Tryte n}

@[simp] theorem length_tryteChars : (tryteChars trytes).length = n := by
  rw [tryteChars, List.length_map, Vector.length_toList]

theorem ascii_tryteChar (t : Tryte) : 0 < (tryteChar t).toNat ∧ (tryteChar t).toNat < 128 := by
  revert t
  decide

theorem ascii_tryteChars : Tree.Ascii (String.ofList (tryteChars trytes)) := by
  intro c hc
  rw [String.toList_ofList, tryteChars, List.mem_map] at hc
  obtain ⟨t, -, rfl⟩ := hc
  exact ascii_tryteChar t

theorem nulFree_tryteChars : CString.NulFree (tryteChars trytes) := by
  intro hnul
  obtain ⟨t, -, ht⟩ := List.mem_map.mp hnul
  have hpos := (ascii_tryteChar t).1
  rw [ht] at hpos
  exact absurd hpos (by decide)

end Trytes

namespace TextBuffers

/-! ## The copy -/

section Copy

variable {n : Nat}

/-- `ta_json_get_string`: the buffer it leaves, or `none` if it writes past the end. -/
def taJsonGetString (obj : Tree) (name : String) (text : Block n) (size : Nat) :
    Except Status (Option (Block n)) :=
  match obj.member name with
  | none => .error .cclientJsonKey
  | some value =>
      match value.valuestring with
      | some valuestring => .ok (text.strncpy valuestring size)
      | none => .error .cclientJsonParse

variable {obj : Tree} {name : String} {text : Block n} {size : Nat}

theorem taJsonGetString_eq_ok_iff {after : Option (Block n)} :
    taJsonGetString obj name text size = .ok after ↔
      ∃ value, obj.member name = some (.string value) ∧
        after = text.strncpy (CString.text value.toList) size := by
  rw [taJsonGetString]
  cases hmember : obj.member name with
  | none => simp
  | some item =>
    cases item with
    | string value => simp [Tree.valuestring, eq_comm]
    | null => simp [Tree.valuestring]
    | bool => simp [Tree.valuestring]
    | number => simp [Tree.valuestring]
    | array => simp [Tree.valuestring]
    | object => simp [Tree.valuestring]

/-- The function without its buffer is this one with the copy left out. -/
theorem taJsonGetString_eq_map :
    taJsonGetString obj name text size =
      (TangleAccelerator.taJsonGetString obj name size).map fun s =>
        text.strncpy (CString.text s.toList) size := by
  rw [taJsonGetString, TangleAccelerator.taJsonGetString]
  cases obj.member name with
  | none => rfl
  | some item =>
    cases item with
    | string value =>
      simp [Tree.valuestring, Tree.stringValue, Except.map, Block.strncpy, strncpy,
        CString.padded_text_take]
    | null => rfl
    | bool => rfl
    | number => rfl
    | array => rfl
    | object => rfl

end Copy

/-! ## The callers -/

section Callers

variable {n : Nat} (C : Json.Codec) (obj : C.Text)

/-- What the functions below have in common. -/
def deserializeText (name : String) (text : Block n) (size : Nat) :
    Except Status (Option (Block n)) :=
  match C.parse obj with
  | none => .error .serializerJsonParse
  | some json => taJsonGetString json name text size

/-- `mqtt_device_id_deserialize`. -/
def mqttDeviceIdDeserialize (deviceId : Block n) : Except Status (Option (Block n)) :=
  deserializeText C obj "device_id" deviceId (Mqtt.idLen + 1)

/-- `mqtt_transaction_hash_req_deserialize`. -/
def mqttTransactionHashReqDeserialize (hash : Block n) : Except Status (Option (Block n)) :=
  deserializeText C obj "hash" hash (numTrytesHash + 1)

/-- `max_cmd_len`, of `proxy_api_wrapper` and of `proxy_apis_command_req_deserialize`. -/
def maxCmdLen : Nat := 30

/-- `proxy_apis_command_req_deserialize`. -/
def proxyApisCommandReqDeserialize (command : Block n) : Except Status (Option (Block n)) :=
  deserializeText C obj "command" command maxCmdLen

/-- `protocol_len`, of both requests. -/
def protocolLen : Nat := 20

/-- The first part of `send_mam_message_req_deserialize` and of
`recv_mam_message_req_deserialize`. -/
def protocolDeserialize (protocolStr : Block n) : Except Status (Option (Block n)) :=
  deserializeText C obj "protocol" protocolStr protocolLen

end Callers

/-- The callers that go on to use their buffer as a C string. -/
inductive Caller where
  | deviceId
  | transactionHash
  | command
  | sendProtocol
  | recvProtocol
deriving DecidableEq, Repr

namespace Caller

/-- The member it asks for. -/
def key : Caller → String
  | deviceId => "device_id"
  | transactionHash => "hash"
  | command => "command"
  | sendProtocol | recvProtocol => "protocol"

/-- The size of the buffer it declares. -/
def declared : Caller → Nat
  | deviceId => Mqtt.idLen
  | transactionHash => numTrytesHash + 1
  | command => maxCmdLen
  | sendProtocol | recvProtocol => protocolLen

/-- What it does to this buffer. -/
def deserialize (C : Json.Codec) (obj : C.Text) :
    (c : Caller) → Block c.declared → Except Status (Option (Block c.declared))
  | deviceId => mqttDeviceIdDeserialize C obj
  | transactionHash => mqttTransactionHashReqDeserialize C obj
  | command => proxyApisCommandReqDeserialize C obj
  | sendProtocol | recvProtocol => protocolDeserialize C obj

end Caller

/-! ## What a caller gets -/

/-- A caller that goes on has not written past its buffer.  The buffer holds a text that ends
inside of it, and the text starts the value in the document. -/
def GetsText (c : Caller) (C : Json.Codec) (obj : C.Text) (buffer : Block c.declared) : Prop :=
  ∀ after, c.deserialize C obj buffer = .ok after →
    ∃ block s json value, after = some block ∧ CString.read block.cells = some s ∧
      C.parse obj = some json ∧ json.member c.key = some (.string value) ∧ s <+: value.toList

theorem deserializeText_eq_ok_iff {n size : Nat} {C : Json.Codec} {obj : C.Text} {name : String}
    {text : Block n} {after : Option (Block n)} :
    deserializeText C obj name text size = .ok after ↔
      ∃ json value, C.parse obj = some json ∧ json.member name = some (.string value) ∧
        after = text.strncpy (CString.text value.toList) size := by
  rw [deserializeText]
  cases hparse : C.parse obj with
  | none => simp
  | some json => simp [taJsonGetString_eq_ok_iff]

/-- The size a caller states. -/
def Caller.stated (c : Caller) : Nat := if c = deviceId then c.declared + 1 else c.declared

theorem Caller.deserialize_eq (c : Caller) (C : Json.Codec) (obj : C.Text)
    (buffer : Block c.declared) :
    c.deserialize C obj buffer = deserializeText C obj c.key buffer c.stated := by
  cases c <;> rfl

/-- A caller gets the text of the document exactly if it is not the one for the device, and the text
is shorter than its buffer. -/
theorem getsText_iff (c : Caller) (C : Json.Codec) (obj : C.Text) (buffer : Block c.declared) :
    GetsText c C obj buffer ↔
      ∀ json value, C.parse obj = some json → json.member c.key = some (.string value) →
        c ≠ .deviceId ∧ (CString.text value.toList).length < c.declared := by
  have hnul (value : String) := CString.nulFree_text value.toList
  constructor
  · intro h json value hparse hmember
    have hok : c.deserialize C obj buffer =
        .ok (buffer.strncpy (CString.text value.toList) c.stated) := by
      rw [c.deserialize_eq, deserializeText_eq_ok_iff]
      exact ⟨json, value, hparse, hmember, rfl⟩
    obtain ⟨block, s, -, -, hafter, hread, -⟩ := h _ hok
    by_cases hc : c = .deviceId
    · rw [Caller.stated, if_pos hc, buffer.strncpy_of_lt _ (Nat.lt_succ_self _)] at hafter
      cases hafter
    · rw [Caller.stated, if_neg hc] at hafter
      exact ⟨hc, ((Block.read_strncpy_self_iff (hnul value) hafter).mp hread).1⟩
  · intro h after hok
    rw [c.deserialize_eq, deserializeText_eq_ok_iff] at hok
    obtain ⟨json, value, hparse, hmember, rfl⟩ := hok
    obtain ⟨hc, hlen⟩ := h json value hparse hmember
    rw [Caller.stated, if_neg hc]
    obtain ⟨block, hblock, -⟩ := buffer.strncpy_self (CString.text value.toList)
    exact ⟨block, _, json, value, hblock,
      (Block.read_strncpy_self_iff (hnul value) hblock).mpr ⟨hlen, rfl⟩, hparse, hmember,
      CString.text_isPrefix _⟩

/-- A request with one text. -/
def Sample.oneText (name text : String) : Tree := .object [(name, .string text)]

/-- The command of a request fits. -/
theorem getsText_getNodeInfo :
    GetsText .command Json.Codec.trees (Sample.oneText "command" "getNodeInfo")
      (Block.zero 30) := by
  refine (getsText_iff .command Json.Codec.trees _ (Block.zero 30)).mpr ?_
  intro json value hparse hmember
  cases hparse
  cases hmember
  decide

/-- A text of nines. -/
def Sample.nines (n : Nat) : String := String.ofList (List.replicate n '9')

/-- A device of one character writes past the buffer.  A hash, a command and a protocol that fill
their buffers are not ended. -/
theorem not_getsText :
    ¬ GetsText .deviceId Json.Codec.trees (Sample.oneText "device_id" "1") (Block.zero 32) ∧
    ¬ GetsText .transactionHash Json.Codec.trees (Sample.oneText "hash" (Sample.nines 82))
      (Block.zero 82) ∧
    ¬ GetsText .command Json.Codec.trees (Sample.oneText "command" (Sample.nines 30))
      (Block.zero 30) ∧
    ¬ GetsText .sendProtocol Json.Codec.trees (Sample.oneText "protocol" (Sample.nines 20))
      (Block.zero 20) := by
  have hends {c : Caller} {obj : Tree} {buffer : Block c.declared} (after : Option (Block _))
      (hok : c.deserialize Json.Codec.trees obj buffer = .ok after)
      (hread : after.bind (CString.read ·.cells) = none) :
      ¬ GetsText c Json.Codec.trees obj buffer := by
    intro h
    obtain ⟨block, s, -, -, rfl, hs, -⟩ := h after hok
    rw [Option.bind_some, hs] at hread
    cases hread
  exact ⟨hends _ rfl (by decide), hends _ rfl (by decide +kernel), hends _ rfl (by decide),
    hends _ rfl (by decide)⟩

end TextBuffers

end TangleAccelerator
