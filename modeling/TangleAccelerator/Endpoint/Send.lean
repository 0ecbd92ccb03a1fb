import TangleAccelerator.Bytes.Base64
import TangleAccelerator.Endpoint.Response
import TangleAccelerator.Endpoint.Seal
import TangleAccelerator.Endpoint.TextSerializer

/-!
# Sending a message of MAM

`endpoint_core.c`: `send_mam_message`.  It encrypts a message, puts the result into a flatbuffer,
encodes that in base64 and sends it in the body of a request.

Two buffers of `MAX_MSG_LEN` bytes are in the way: one for the ciphertext, whose size is checked,
and one for the body, whose size is not.  `snprintf` cuts off a body that is too long.  What it
returns is the length of the whole body, so it is not negative, and it is passed on as the length.

Two failures are reported as a success: that of `mbedtls_md_setup`, which leaves the context as it
was, and that of `le_base64_Encode`, after which nothing is sent.

The builder of the flatbuffer is a parameter.  The connection, the parser and the response are
those of `send_https_msg`.
-/

namespace TangleAccelerator.Endpoint

open Bytes

/-! ## Encrypting, with failures -/

/-- The functions of `mbedtls` in `aes_encrypt` whose results are checked. -/
inductive EncryptFault where
  | mdSetup
  | setkeyEnc
  | hmacStarts
  | cryptCbc
deriving DecidableEq

/-- `aes_encrypt` where a function of `mbedtls` may fail.  The status is still zero when
`mbedtls_md_setup` fails.  After that the length is checked, with the same error as the other
failures have. -/
def aesEncryptFault (M : Mbedtls) (fault : Option EncryptFault) (ctx : TaCipherCtx) :
    Except Status TaCipherCtx :=
  match checkCipherCtx ctx with
  | .error e => .error e
  | .ok _ =>
      match fault with
      | none => (aesEncrypt M ctx).1.map fun _ => (aesEncrypt M ctx).2
      | some .mdSetup => .ok ctx
      | some _ => .error .utilsCipherError

/-! ## The function -/

/-- `MAX_MSG_LEN`. -/
def maxMsgLen : Nat := 1024

/-- `SEND_MAM_API`. -/
def sendMamApi : List UInt8 := ascii "mam/send/"

/-- `REQ_BODY`, with its arguments. -/
def reqBodyFormat (seed message : List UInt8) : List Piece :=
  [.text "\x7b\"data\":\x7b\"seed\":\"", .str seed, .text "\",\"message\":\"", .str message,
    .text "\"\x7d,\"protocol\":\"MAM_V1\"\x7d\r\n\r\n"]

/-- The flatbuffer of an HMAC, a vector and a ciphertext, which it holds. -/
structure MsgBuilder where
  build : Digest → Block → List UInt8 → List UInt8
  length_le : ∀ hmac iv msg, msg.length ≤ (build hmac iv msg).length

/-- The arguments of `send_mam_message`, and the time.  Pointers may be `NULL`.  The seed of TLS is
seen by `mbedtls` only. -/
structure MamInput where
  host : List UInt8
  port : List UInt8
  mamSeed : List UInt8
  message : Option (List UInt8)
  msgLen : Nat
  privateKey : Option Key
  deviceId : Option (List UInt8)
  timestamp : UInt64
  mamSeed_nul : 0 ∉ mamSeed
  length_message : ∀ m ∈ message, m.length = msgLen

/-- What happens outside: a failure of `mbedtls` in the encryption, one of `le_base64_Encode`, and
what `send_https_msg` meets. -/
structure MamEnv where
  fault : Option EncryptFault
  base64Fails : Bool
  parser : HttpParser
  https : Bool
  conn : Connection
  read : Read

/-- `encrypt_ctx`. -/
def MamInput.encryptCtx (input : MamInput) : TaCipherCtx where
  plaintext := input.message
  plaintextLen := input.msgLen
  ciphertext := some (List.replicate maxMsgLen 0)
  ciphertextLen := maxMsgLen
  iv := Vector.replicate 16 0
  key := input.privateKey
  deviceId := input.deviceId
  hmac := Vector.replicate 32 0
  timestamp := input.timestamp

/-- The whole body, for the context of a cipher. -/
def requestBody (B : MsgBuilder) (seed : List UInt8) (ctx : TaCipherCtx) : List UInt8 :=
  printf (reqBodyFormat seed (base64 (B.build ctx.hmac ctx.iv ctx.sealedBytes)))

/-- The status, and what is handed to `send_https_msg`: the text of the body and its length. -/
structure Outcome where
  status : Except Status Unit
  handed : Option (List UInt8 × Nat)

/-- `send_https_msg` with a message. -/
def sendBody (env : MamEnv) (input : MamInput) (msg : List UInt8) (fuel : Nat) :
    Option (Except Status Unit × Option HttpsResponse) :=
  sendHttpsMsg env.parser env.https ⟨input.host, atoi input.port, sendMamApi, msg⟩ env.conn env.read
    fuel

/-- `send_mam_message` from `le_base64_Encode` on, for the whole body. -/
def deliver (env : MamEnv) (input : MamInput) (body : List UInt8) (fuel : Nat) : Option Outcome :=
  if env.base64Fails then some ⟨.ok (), none⟩
  else
    match snprintf (zeroed maxMsgLen) maxMsgLen body with
    | none => some ⟨.error .endpointSendTransfer, none⟩
    | some (reqBody, ret) =>
        (readText reqBody).bind fun msg =>
          (sendBody env input msg fuel).map fun (status, _) =>
            ⟨status.mapError fun _ => .endpointSendTransfer, some (msg, ret)⟩

/-- `send_mam_message`. -/
def sendMamMessage (M : Mbedtls) (B : MsgBuilder) (env : MamEnv) (input : MamInput) (fuel : Nat) :
    Option Outcome :=
  match aesEncryptFault M env.fault input.encryptCtx with
  | .error e => some ⟨.error e, none⟩
  | .ok ctx => deliver env input (requestBody B input.mamSeed ctx) fuel

/-! ## What is handed over -/

/-- The text that fits in the buffer. -/
def cutBody (body : List UInt8) : List UInt8 := body.take (maxMsgLen - 1)

/-- Sending ends with an error. -/
def SendFails (env : MamEnv) (input : MamInput) (msg : List UInt8) : Prop :=
  ∃ fuel e res, sendBody env input msg fuel = some (.error e, res)

/-- Sending succeeds. -/
def SendSucceeds (env : MamEnv) (input : MamInput) (msg : List UInt8) : Prop :=
  ∃ fuel res, sendBody env input msg fuel = some (.ok (), res)

/-- What a run is to do about the whole body of a message: a success is reported only when it was
handed over with its length, and a body that does not fit ends with an error. -/
def HandsOver (run : Nat → Option Outcome) (body : Option (List UInt8)) : Prop :=
  (∀ fuel outcome, run fuel = some outcome → outcome.status = .ok () →
    ∃ b, body = some b ∧ outcome.handed = some (b, b.length)) ∧
  ∀ b, body = some b → maxMsgLen ≤ b.length →
    ∃ fuel outcome e, run fuel = some outcome ∧ outcome.status = .error e

section Deliver

variable {env : MamEnv} {input : MamInput} {body : List UInt8}

theorem not_sendFails {msg : List UInt8} (h : SendSucceeds env input msg) :
    ¬ SendFails env input msg := by
  obtain ⟨fuel, res, hok⟩ := h
  rintro ⟨fuel', e, res', herror⟩
  have h := (sendHttpsMsg_one hok).symm.trans (sendHttpsMsg_one herror)
  cases h

/-- What is cut off is the whole body, with the length of the whole body, only when it fits. -/
theorem cutBody_eq_iff {b : List UInt8} :
    (cutBody body, body.length) = (b, b.length) ↔ body = b ∧ body.length < maxMsgLen := by
  rw [Prod.mk.injEq, cutBody, maxMsgLen]
  constructor
  · rintro ⟨hcut, hlength⟩
    have hlt : body.length < 1024 := by
      have h := congrArg List.length hcut
      rw [List.length_take] at h
      omega
    rw [List.take_of_length_le (by omega)] at hcut
    exact ⟨hcut, hlt⟩
  · rintro ⟨rfl, hlt⟩
    exact ⟨List.take_of_length_le (by omega), rfl⟩

theorem deliver_of_base64Fails (h : env.base64Fails = true) (body : List UInt8) (fuel : Nat) :
    deliver env input body fuel = some ⟨.ok (), none⟩ := if_pos h

/-- A body whose length is no `int` is refused. -/
theorem deliver_of_le (hbase64 : env.base64Fails = false) (h : 2 ^ 31 ≤ body.length) (fuel : Nat) :
    deliver env input body fuel = some ⟨.error .endpointSendTransfer, none⟩ := by
  rw [deliver, hbase64, if_neg Bool.false_ne_true, snprintf_of_le h]

/-- Any other body is cut off and sent. -/
theorem deliver_of_lt (hbase64 : env.base64Fails = false) (h : body.length < 2 ^ 31)
    (hnul : 0 ∉ body) (fuel : Nat) :
    deliver env input body fuel =
      (sendBody env input (cutBody body) fuel).map fun r =>
        ⟨r.1.mapError fun _ => .endpointSendTransfer, some (cutBody body, body.length)⟩ := by
  obtain ⟨m, hprintf, -, hholds⟩ :=
    holds_snprintf (by decide : 0 < maxMsgLen) (length_zeroed maxMsgLen).ge h
  have hread : readText m = some (cutBody body) :=
    readText_of_holds hholds fun hmem => hnul (List.mem_of_mem_take hmem)
  rw [deliver, hbase64, if_neg Bool.false_ne_true, hprintf]
  simp only [hread, Option.bind_some]

/-- A run that sends what is cut off. -/
theorem handsOver_map_iff {run : Nat → Option Outcome}
    (hrun : ∀ fuel, run fuel = (sendBody env input (cutBody body) fuel).map fun r =>
      ⟨r.1.mapError fun _ => .endpointSendTransfer, some (cutBody body, body.length)⟩)
    (b : List UInt8) :
    HandsOver run (some b) ↔
      (SendSucceeds env input (cutBody body) → body = b ∧ body.length < maxMsgLen) ∧
        (maxMsgLen ≤ b.length → SendFails env input (cutBody body)) := by
  constructor
  · rintro ⟨hok, hreject⟩
    constructor
    · rintro ⟨fuel, res, hsend⟩
      have hfuel := hrun fuel
      rw [hsend] at hfuel
      obtain ⟨b', hb', hhanded⟩ := hok fuel _ hfuel rfl
      cases hb'
      exact cutBody_eq_iff.mp (Option.some.inj hhanded)
    · intro hb
      obtain ⟨fuel, outcome, e, hfuel, hstatus⟩ := hreject b rfl hb
      rw [hrun] at hfuel
      obtain ⟨⟨status, res⟩, hsend, rfl⟩ := Option.map_eq_some_iff.mp hfuel
      cases status with
      | ok u => cases hstatus
      | error e' => exact ⟨fuel, e', res, hsend⟩
  · rintro ⟨hok, hreject⟩
    constructor
    · intro fuel outcome hfuel hstatus
      rw [hrun] at hfuel
      obtain ⟨⟨status, res⟩, hsend, rfl⟩ := Option.map_eq_some_iff.mp hfuel
      cases status with
      | ok u => exact ⟨b, rfl, congrArg some (cutBody_eq_iff.mpr (hok ⟨fuel, res, hsend⟩))⟩
      | error e => cases hstatus
    · intro b' hb' hlength
      cases hb'
      obtain ⟨fuel, e, res, hsend⟩ := hreject hlength
      have hfuel := hrun fuel
      rw [hsend] at hfuel
      exact ⟨fuel, _, _, hfuel, rfl⟩

/-- A run with one body is right about another one: the encoding succeeds, and the body is refused,
or sending it succeeds only for the body that it should be, and fails when that does not fit. -/
theorem handsOver_deliver_iff (hnul : 0 ∉ body) (b : List UInt8) :
    HandsOver (deliver env input body) (some b) ↔
      env.base64Fails = false ∧ (2 ^ 31 ≤ body.length ∨
        (SendSucceeds env input (cutBody body) → body = b ∧ body.length < maxMsgLen) ∧
        (maxMsgLen ≤ b.length → SendFails env input (cutBody body))) := by
  cases hbase64 : env.base64Fails with
  | true =>
      refine iff_of_false ?_ (fun h => absurd h.1.symm Bool.false_ne_true)
      rintro ⟨hok, -⟩
      obtain ⟨b', -, hhanded⟩ := hok 0 _ (deliver_of_base64Fails hbase64 body 0) rfl
      cases hhanded
  | false =>
      rw [and_iff_right rfl]
      by_cases hlong : 2 ^ 31 ≤ body.length
      · rw [or_iff_left_of_imp fun _ => hlong, iff_true_right hlong]
        have hrun : ∀ fuel, deliver env input body fuel = _ := deliver_of_le hbase64 hlong
        refine ⟨fun fuel outcome h hstatus => ?_, fun b' _ _ => ⟨0, _, _, hrun 0, rfl⟩⟩
        rw [hrun] at h
        cases h
        cases hstatus
      · rw [or_iff_right hlong]
        exact handsOver_map_iff (deliver_of_lt hbase64 (Nat.not_le.mp hlong) hnul) b

end Deliver

/-! ## Messages -/

/-- The whole body of a message, from its encryption. -/
def sealedBody (M : Mbedtls) (B : MsgBuilder) (input : MamInput) (ptrs : Pointers) : List UInt8 :=
  let digest := baseDigest M ptrs.deviceId input.timestamp ptrs.key
  let ciphertext := join (sealedBlocks M ptrs.key digest ptrs.plaintext)
  printf (reqBodyFormat input.mamSeed
    (base64 (B.build (M.hmac digest ciphertext) (foldDigest digest) ciphertext)))

/-- The whole body of a message, unless a pointer is `NULL`. -/
def mamBody (M : Mbedtls) (B : MsgBuilder) (input : MamInput) : Option (List UInt8) :=
  (checkCipherCtx input.encryptCtx).toOption.map (sealedBody M B input)

/-- The body for a context that was not encrypted: a buffer of zeros. -/
def unsealedBody (B : MsgBuilder) (input : MamInput) : List UInt8 :=
  requestBody B input.mamSeed input.encryptCtx

/-- When a message whose pointers are not `NULL` is handed over.  That depends on the function of
the encryption that fails. -/
def HandsOverWith (M : Mbedtls) (B : MsgBuilder) (env : MamEnv) (input : MamInput)
    (ptrs : Pointers) : Prop :=
  let body := sealedBody M B input ptrs
  let unsealed := unsealedBody B input
  match env.fault with
  | none =>
      sealedLen input.msgLen ≤ maxMsgLen →
        env.base64Fails = false ∧
          (body.length < maxMsgLen ∨ 2 ^ 31 ≤ body.length ∨ SendFails env input (cutBody body))
  | some .mdSetup =>
      env.base64Fails = false ∧
        (2 ^ 31 ≤ unsealed.length ∨ SendFails env input (cutBody unsealed) ∨
          ¬ SendSucceeds env input (cutBody unsealed) ∧ body.length < maxMsgLen)
  | some _ => True

/-- When a message is handed over. -/
def HandsOverWhen (M : Mbedtls) (B : MsgBuilder) (env : MamEnv) (input : MamInput) : Prop :=
  ∀ ptrs, checkCipherCtx input.encryptCtx = .ok ptrs → HandsOverWith M B env input ptrs

section Messages

variable {M : Mbedtls} {B : MsgBuilder} {env : MamEnv} {input : MamInput} {ptrs : Pointers}

theorem nul_not_mem_reqBody {seed : List UInt8} (hseed : 0 ∉ seed) (bytes : List UInt8) :
    0 ∉ printf (reqBodyFormat seed (base64 bytes)) := by
  simp only [printf, reqBodyFormat, List.flatMap_cons, List.flatMap_nil, Piece.output,
    List.mem_append, hseed, nul_not_mem_base64, List.not_mem_nil, or_false, false_or]
  decide

theorem length_reqBody (seed bytes : List UInt8) :
    (printf (reqBodyFormat seed (base64 bytes))).length =
      57 + seed.length + 4 * ((bytes.length + 2) / 3) := by
  have hopen : (ascii "\x7b\"data\":\x7b\"seed\":\"").length = 17 := rfl
  have hmessage : (ascii "\",\"message\":\"").length = 13 := rfl
  have hclose : (ascii "\"\x7d,\"protocol\":\"MAM_V1\"\x7d\r\n\r\n").length = 27 := rfl
  simp only [printf, reqBodyFormat, List.flatMap_cons, List.flatMap_nil, Piece.output,
    List.length_append, List.length_nil, length_base64]
  omega

/-- A buffer of zeros does not fit once it is encoded. -/
theorem maxMsgLen_le_unsealedBody (B : MsgBuilder) (input : MamInput) :
    maxMsgLen ≤ (unsealedBody B input).length := by
  have hbuild := B.length_le input.encryptCtx.hmac input.encryptCtx.iv input.encryptCtx.sealedBytes
  have hzeros : input.encryptCtx.sealedBytes.length = 1024 := by
    rw [TaCipherCtx.sealedBytes]
    exact List.length_take_of_le (List.length_replicate ▸ le_rfl)
  rw [unsealedBody, requestBody, length_reqBody, maxMsgLen]
  omega

/-- A message whose ciphertext fits is encrypted. -/
theorem requestBody_of_encrypt (hcheck : checkCipherCtx input.encryptCtx = .ok ptrs)
    (hfits : sealedLen input.msgLen ≤ maxMsgLen) :
    ∃ ctx, aesEncryptFault M none input.encryptCtx = .ok ctx ∧
      requestBody B input.mamSeed ctx = sealedBody M B input ptrs := by
  have hmessage : input.message = some ptrs.plaintext := (checkCipherCtx_eq_ok_iff.mp hcheck).1
  have hlen : input.encryptCtx.plaintextLen = ptrs.plaintext.length :=
    (input.length_message _ hmessage).symm
  obtain ⟨ctx, hencrypt⟩ : ∃ ctx, aesEncrypt M input.encryptCtx = (.ok (), ctx) :=
    ⟨_, aesEncrypt_of_le M hcheck hlen hfits rfl⟩
  have houtput := output_of_aesEncrypt hcheck hlen hencrypt rfl rfl
  simp only [TaCipherCtx.output, Prod.mk.injEq] at houtput
  obtain ⟨hiv, hbytes, -, hhmac⟩ := houtput
  refine ⟨ctx, ?_, ?_⟩
  · simp only [aesEncryptFault, hcheck, hencrypt]
    rfl
  · rw [requestBody, hiv, hbytes, hhmac]
    rfl

/-- A message whose ciphertext does not fit is refused. -/
theorem aesEncryptFault_of_lt (hcheck : checkCipherCtx input.encryptCtx = .ok ptrs)
    (hlong : maxMsgLen < sealedLen input.msgLen) :
    aesEncryptFault M none input.encryptCtx = .error .utilsCipherError := by
  simp only [aesEncryptFault, hcheck, aesEncrypt_of_lt M hcheck hlong]
  rfl

/-- A failure after `mbedtls_md_setup` is reported. -/
theorem aesEncryptFault_later {fault : EncryptFault}
    (hcheck : checkCipherCtx input.encryptCtx = .ok ptrs) (h : fault ≠ .mdSetup) :
    aesEncryptFault M (some fault) input.encryptCtx = .error .utilsCipherError := by
  cases fault with
  | mdSetup => exact absurd rfl h
  | setkeyEnc => simp only [aesEncryptFault, hcheck]
  | hmacStarts => simp only [aesEncryptFault, hcheck]
  | cryptCbc => simp only [aesEncryptFault, hcheck]

theorem sendMamMessage_of_encrypt {ctx : TaCipherCtx}
    (h : aesEncryptFault M env.fault input.encryptCtx = .ok ctx) :
    sendMamMessage M B env input = deliver env input (requestBody B input.mamSeed ctx) := by
  funext fuel
  rw [sendMamMessage, h]

/-- A message that is not encrypted is refused. -/
theorem handsOver_of_refused {e : Status}
    (h : aesEncryptFault M env.fault input.encryptCtx = .error e) (body : Option (List UInt8)) :
    HandsOver (sendMamMessage M B env input) body := by
  have hrun : ∀ fuel, sendMamMessage M B env input fuel = some ⟨.error e, none⟩ := by
    intro fuel
    rw [sendMamMessage, h]
  refine ⟨fun fuel outcome hfuel hstatus => ?_, fun _ _ _ => ⟨0, _, _, hrun 0, rfl⟩⟩
  rw [hrun] at hfuel
  cases hfuel
  cases hstatus

/-- With the body of the encryption. -/
theorem handsOver_sealed_iff (hcheck : checkCipherCtx input.encryptCtx = .ok ptrs)
    (hfault : env.fault = none) (hfits : sealedLen input.msgLen ≤ maxMsgLen) :
    HandsOver (sendMamMessage M B env input) (some (sealedBody M B input ptrs)) ↔
      env.base64Fails = false ∧ ((sealedBody M B input ptrs).length < maxMsgLen ∨
        2 ^ 31 ≤ (sealedBody M B input ptrs).length ∨
        SendFails env input (cutBody (sealedBody M B input ptrs))) := by
  obtain ⟨ctx, hencrypt, hbody⟩ := requestBody_of_encrypt (M := M) (B := B) hcheck hfits
  rw [← hfault] at hencrypt
  have hnul : 0 ∉ sealedBody M B input ptrs := nul_not_mem_reqBody input.mamSeed_nul _
  rw [sendMamMessage_of_encrypt hencrypt, hbody, handsOver_deliver_iff hnul]
  refine and_congr_right fun _ => ?_
  by_cases hlt : (sealedBody M B input ptrs).length < maxMsgLen
  · refine iff_of_true (.inr ⟨fun _ => ⟨rfl, hlt⟩, fun h => ?_⟩) (.inl hlt)
    exact absurd hlt (Nat.not_lt.mpr h)
  · rw [or_iff_right hlt]
    refine or_congr_right ⟨fun h => h.2 (Nat.not_lt.mp hlt), fun hfails => ?_⟩
    exact ⟨fun h => absurd hfails (not_sendFails h), fun _ => hfails⟩

/-- With the buffer of zeros that a failed `mbedtls_md_setup` leaves. -/
theorem handsOver_unsealed_iff (hcheck : checkCipherCtx input.encryptCtx = .ok ptrs)
    (hfault : env.fault = some .mdSetup) (b : List UInt8) :
    HandsOver (sendMamMessage M B env input) (some b) ↔
      env.base64Fails = false ∧ (2 ^ 31 ≤ (unsealedBody B input).length ∨
        SendFails env input (cutBody (unsealedBody B input)) ∨
        ¬ SendSucceeds env input (cutBody (unsealedBody B input)) ∧ b.length < maxMsgLen) := by
  have hencrypt : aesEncryptFault M env.fault input.encryptCtx = .ok input.encryptCtx := by
    simp only [aesEncryptFault, hcheck, hfault]
  have hnul : 0 ∉ unsealedBody B input := nul_not_mem_reqBody input.mamSeed_nul _
  rw [sendMamMessage_of_encrypt hencrypt, ← unsealedBody, handsOver_deliver_iff hnul]
  refine and_congr_right fun _ => or_congr_right ?_
  have hlong := Nat.not_lt.mpr (maxMsgLen_le_unsealedBody B input)
  constructor
  · rintro ⟨hok, hreject⟩
    by_cases hlt : b.length < maxMsgLen
    · exact .inr ⟨fun h => hlong (hok h).2, hlt⟩
    · exact .inl (hreject (Nat.not_lt.mp hlt))
  · rintro (hfails | ⟨hnot, hlt⟩)
    · exact ⟨fun h => absurd hfails (not_sendFails h), fun _ => hfails⟩
    · exact ⟨fun h => absurd h hnot, fun h => absurd hlt (Nat.not_lt.mpr h)⟩

theorem handsOverWhen_iff (hcheck : checkCipherCtx input.encryptCtx = .ok ptrs) :
    HandsOverWhen M B env input ↔ HandsOverWith M B env input ptrs := by
  constructor
  · intro h
    exact h ptrs hcheck
  · intro h ptrs' hptrs
    rw [hcheck] at hptrs
    cases hptrs
    exact h

end Messages

/-! ## The result -/

/-- A success means that the whole body was handed over with its length, and a body that does not
fit ends with an error, exactly under `HandsOverWhen`. -/
theorem sendMamMessage_handsOver_iff (M : Mbedtls) (B : MsgBuilder) (env : MamEnv)
    (input : MamInput) :
    HandsOver (sendMamMessage M B env input) (mamBody M B input) ↔ HandsOverWhen M B env input := by
  cases hcheck : checkCipherCtx input.encryptCtx with
  | error e =>
      have hrefused : aesEncryptFault M env.fault input.encryptCtx = .error e := by
        simp only [aesEncryptFault, hcheck]
      refine iff_of_true (handsOver_of_refused hrefused _) fun ptrs hptrs => ?_
      rw [hcheck] at hptrs
      cases hptrs
  | ok ptrs =>
      have hbody : mamBody M B input = some (sealedBody M B input ptrs) := by
        rw [mamBody, hcheck]
        rfl
      have hrefused : ∀ e, aesEncryptFault M env.fault input.encryptCtx = .error e →
          HandsOver (sendMamMessage M B env input) (some (sealedBody M B input ptrs)) :=
        fun e h => handsOver_of_refused h _
      rw [hbody, handsOverWhen_iff hcheck, HandsOverWith]
      cases hfault : env.fault with
      | none =>
          rw [hfault] at hrefused
          by_cases hfits : sealedLen input.msgLen ≤ maxMsgLen
          · rw [handsOver_sealed_iff hcheck hfault hfits]
            exact (imp_iff_right hfits).symm
          · refine iff_of_true ?_ (fun h => absurd h hfits)
            exact hrefused _ (aesEncryptFault_of_lt hcheck (Nat.not_le.mp hfits))
      | some fault =>
          rw [hfault] at hrefused
          have hlater := fun h => hrefused _ (aesEncryptFault_later hcheck h)
          cases fault with
          | mdSetup => exact handsOver_unsealed_iff hcheck hfault _
          | setkeyEnc => exact iff_of_true (hlater (by decide)) trivial
          | hmacStarts => exact iff_of_true (hlater (by decide)) trivial
          | cryptCbc => exact iff_of_true (hlater (by decide)) trivial

/-! ## A message that is cut off -/

namespace Sample

/-- The parts, one after the other. -/
def builder : MsgBuilder where
  build hmac iv msg := hmac.toList ++ iv.toList ++ msg
  length_le hmac iv msg := by
    rw [List.length_append]
    omega

/-- A message of `700` zeros. -/
def longMessage : MamInput where
  host := ascii "localhost"
  port := ascii "8000"
  mamSeed := List.replicate 81 65
  message := some (List.replicate 700 0)
  msgLen := 700
  privateKey := some (Vector.replicate 32 0)
  deviceId := some (ascii "470010171566423")
  timestamp := 0
  mamSeed_nul := by decide
  length_message m hm := by
    cases hm
    exact List.length_replicate

/-- Its pointers. -/
def pointers : Pointers :=
  ⟨List.replicate 700 0, List.replicate maxMsgLen 0, ascii "470010171566423", Vector.replicate 32 0⟩

/-- Its body. -/
def longBody : List UInt8 := sealedBody library builder longMessage pointers

/-- Nothing fails, unless the encoding does. -/
def env (base64Fails : Bool) : MamEnv where
  fault := none
  base64Fails := base64Fails
  parser := chunkedParser
  https := true
  conn := readyConnection ⟨longMessage.host, atoi longMessage.port, sendMamApi, cutBody longBody⟩
  read := chunkedArrival.read

theorem checkCipherCtx_longMessage : checkCipherCtx longMessage.encryptCtx = .ok pointers := rfl

theorem length_longBody : longBody.length = 1142 := by
  have hbuild : ∀ hmac iv msg, (builder.build hmac iv msg).length = 48 + msg.length := by
    intro hmac iv msg
    simp only [builder, List.length_append, Vector.length_toList]
  have hplain : pointers.plaintext.length = 700 := List.length_replicate
  rw [longBody, sealedBody, length_reqBody, hbuild, length_sealedBlocks, hplain]
  rfl

theorem nul_not_mem_longBody : 0 ∉ longBody := nul_not_mem_reqBody longMessage.mamSeed_nul _

theorem length_cutBody : (cutBody longBody).length = 1023 := by
  rw [cutBody, List.length_take, length_longBody]
  rfl

theorem sendSucceeds_longMessage :
    ∃ res, sendBody (env false) longMessage (cutBody longBody) 1 = some (.ok (), res) := by
  have hnul : 0 ∉ cutBody longBody := fun h => nul_not_mem_longBody (List.mem_of_mem_take h)
  have hsent : Sent true ⟨longMessage.host, atoi longMessage.port, sendMamApi, cutBody longBody⟩
      (env false).conn := by
    refine sent_readyConnection true (by decide) (by decide) (by decide) hnul ?_
    have hapi : sendMamApi.length = 9 := rfl
    have hhost : longMessage.host.length = 9 := rfl
    have hcut := length_cutBody
    simp only
    omega
  obtain ⟨myData, -, hreceive⟩ :=
    receiveResponse_arrival chunkedParser true (by decide : chunkedArrival.first ≠ [])
  exact ⟨some myData, (sendHttpsMsg_of_sent hsent).trans hreceive⟩

/-- The first `1023` of `1142` characters are handed over as `1142`, and that is a success.  So is a
failure to encode, after which nothing is handed over. -/
theorem sendMamMessage_not_handsOver :
    mamBody library builder longMessage = some longBody ∧ longBody.length = 1142 ∧
      sendMamMessage library builder (env false) longMessage 1 =
        some ⟨.ok (), some (longBody.take 1023, 1142)⟩ ∧
      sendMamMessage library builder (env true) longMessage 1 = some ⟨.ok (), none⟩ ∧
      ¬ HandsOver (sendMamMessage library builder (env false) longMessage) (some longBody) := by
  have hfits : sealedLen longMessage.msgLen ≤ maxMsgLen := by decide
  obtain ⟨ctx, hencrypt, hbody⟩ :=
    requestBody_of_encrypt (M := library) (B := builder) checkCipherCtx_longMessage hfits
  have hlong : longBody.length < 2 ^ 31 := by
    rw [length_longBody]
    decide
  have hrun : sendMamMessage library builder (env false) longMessage 1 =
      some ⟨.ok (), some (longBody.take 1023, 1142)⟩ := by
    obtain ⟨res, hsend⟩ := sendSucceeds_longMessage
    rw [sendMamMessage_of_encrypt hencrypt, hbody, ← longBody,
      deliver_of_lt rfl hlong nul_not_mem_longBody, hsend, length_longBody]
    rfl
  refine ⟨rfl, length_longBody, hrun, ?_, ?_⟩
  · rw [sendMamMessage_of_encrypt hencrypt]
    exact deliver_of_base64Fails rfl _ 1
  · rintro ⟨hok, -⟩
    obtain ⟨b, hb, hhanded⟩ := hok 1 _ hrun rfl
    cases hb
    have hlength := congrArg List.length (Prod.ext_iff.mp (Option.some.inj hhanded)).1
    rw [List.length_take, length_longBody] at hlength
    omega

end Sample

end TangleAccelerator.Endpoint
