import TangleAccelerator.Endpoint.Cipher

/-!
# The text format of a message

`text_serializer.c`: a message is the vector, the timestamp as `20` digits, the HMAC, the length of
the ciphertext as `10` digits, and the ciphertext.

The numbers are read back with `atol` and `atoi`.  A length below `2 ^ 32` survives `atoi`, which
truncates it to an `int`, since it is converted to `uint32_t` again.  A timestamp from `2 ^ 63` on
does not survive `atol`, which saturates.
-/

namespace TangleAccelerator.Endpoint

open Bytes

/-! ## The functions -/

/-- `IV_LEN`. -/
def ivLen : Nat := 16

/-- `UINT32_LEN`. -/
def uint32Len : Nat := 10

/-- `UINT64_LEN`. -/
def uint64Len : Nat := 20

/-- `TA_AES_HMAC_SIZE`. -/
def hmacSize : Nat := 32

/-- `serialize_msg`: the message and its length.  The pointers for both may be `NULL`. -/
def serializeMsg (ctx : TaCipherCtx) (outMsg : Option (List UInt8)) (outMsgLen : Option Nat) :
    Except Status (List UInt8 × Nat) :=
  match outMsg, outMsgLen, ctx.ciphertext with
  | some outMsg, some _, some ciphertext =>
      -- `snprintf` cuts the digits off where its buffers end
      let strCiphertextLen := (zeroFilled uint32Len ctx.ciphertextLen).take uint32Len
      let buf := (zeroFilled uint64Len ctx.timestamp.toNat).take uint64Len
      let outMsg := write outMsg 0 ctx.iv.toList
      let outMsg := write outMsg ivLen buf
      let outMsg := write outMsg (ivLen + uint64Len) ctx.hmac.toList
      let outMsg := write outMsg (ivLen + uint64Len + hmacSize) strCiphertextLen
      let outMsg := write outMsg (ivLen + uint64Len + hmacSize + uint32Len)
        (ciphertext.take ctx.ciphertextLen)
      .ok (outMsg, ivLen + uint64Len + hmacSize + uint32Len + ctx.ciphertextLen)
  | _, _, _ => .error .utilsTextSerialize

/-- `atol`, and the conversion to `uint64_t`. -/
def atolUInt64 (text : List UInt8) : UInt64 := UInt64.ofNat (strtol text % 2 ^ 64).toNat

/-- `atoi`. -/
def atoi (text : List UInt8) : Int := (strtol text).bmod (2 ^ 32)

/-- `atoi`, and the conversion to `uint32_t`. -/
def atoiUInt32 (text : List UInt8) : Nat := (atoi text % 2 ^ 32).toNat

/-- `deserialize_msg`: the status and the context after it.  Both pointers may be `NULL`. -/
def deserializeMsg (msg : Option (List UInt8)) (ctx : TaCipherCtx) :
    Except Status Unit × TaCipherCtx :=
  match msg, ctx.ciphertext with
  | some msg, some ciphertext =>
      let ptr := msg
      let iv := block 0 16 ptr
      let ptr := ptr.drop ivLen
      let timestamp := atolUInt64 (ptr.take uint64Len)
      let ptr := ptr.drop uint64Len
      let hmac := block 0 32 ptr
      let ptr := ptr.drop hmacSize
      let ciphertextLen := atoiUInt32 (ptr.take uint32Len)
      let ptr := ptr.drop uint32Len
      (.ok (),
        { ctx with
          iv := iv
          timestamp := timestamp
          hmac := hmac
          ciphertext := some (write ciphertext 0 (ptr.take ciphertextLen))
          ciphertextLen := ciphertextLen })
  | _, _ => (.error .utilsTextDeserialize, ctx)

/-! ## Numbers -/

theorem atolUInt64_zeroFilled (width : Nat) (t : UInt64) :
    atolUInt64 (zeroFilled width t.toNat) = t ↔ t.toNat < 2 ^ 63 := by
  have ht := t.toNat_lt
  rw [atolUInt64, strtol_zeroFilled, ← UInt64.toNat_inj, UInt64.toNat_ofNat']
  omega

theorem atoiUInt32_zeroFilled (width : Nat) {n : Nat} (hn : n < 2 ^ 32) :
    atoiUInt32 (zeroFilled width n) = n := by
  have hmod := Int.bmod_emod (x := min (2 ^ 63 - 1) (n : Int)) (m := 2 ^ 32)
  rw [Nat.cast_pow, Nat.cast_ofNat] at hmod
  rw [atoiUInt32, atoi, strtol_zeroFilled, hmod]
  omega

/-! ## Messages -/

/-- The fields of a message. -/
def layout (iv : Block) (timestamp : List UInt8) (hmac : Digest) (len ciphertext : List UInt8) :
    List UInt8 :=
  iv.toList ++ (timestamp ++ (hmac.toList ++ (len ++ ciphertext)))

/-- A message is written field by field. -/
theorem write_layout (buffer : List UInt8) (iv : Block) {timestamp : List UInt8} (hmac : Digest)
    {len : List UInt8} (ciphertext : List UInt8) (ht : timestamp.length = uint64Len)
    (hl : len.length = uint32Len) :
    write (write (write (write (write buffer 0 iv.toList) ivLen timestamp) (ivLen + uint64Len)
      hmac.toList) (ivLen + uint64Len + hmacSize) len)
      (ivLen + uint64Len + hmacSize + uint32Len) ciphertext =
      write buffer 0 (layout iv timestamp hmac len ciphertext) := by
  have hiv : ivLen = iv.toList.length := Vector.length_toList.symm
  have hhmac : hmacSize = hmac.toList.length := Vector.length_toList.symm
  rw [← ht, ← hl, hiv, hhmac, write_write, ← List.length_append, write_write,
    ← List.length_append, write_write, ← List.length_append, write_write, layout,
    List.append_assoc, List.append_assoc, List.append_assoc]

/-- A message is read field by field. -/
theorem deserializeMsg_layout {ctx : TaCipherCtx} {buffer : List UInt8}
    (hbuffer : ctx.ciphertext = some buffer) (iv : Block) {timestamp : List UInt8} (hmac : Digest)
    {len : List UInt8} (ciphertext rest : List UInt8) (ht : timestamp.length = uint64Len)
    (hl : len.length = uint32Len) (hc : ciphertext.length = atoiUInt32 len) :
    deserializeMsg (some (layout iv timestamp hmac len ciphertext ++ rest)) ctx =
      (.ok (),
        { ctx with
          iv := iv
          timestamp := atolUInt64 timestamp
          hmac := hmac
          ciphertext := some (write buffer 0 ciphertext)
          ciphertextLen := atoiUInt32 len }) := by
  have hiv : iv.toList.length = ivLen := Vector.length_toList
  have hhmac : hmac.toList.length = hmacSize := Vector.length_toList
  simp only [deserializeMsg, hbuffer, layout, List.append_assoc, block_toList_append,
    List.drop_left' hiv, List.drop_left' ht, List.take_left' ht, List.drop_left' hhmac,
    List.drop_left' hl, List.take_left' hl, List.take_left' hc]

theorem serializeMsg_eq {ctx : TaCipherCtx} {buffer : List UInt8}
    (hbuffer : ctx.ciphertext = some buffer) (hlen : ctx.ciphertextLen < 2 ^ 32)
    (outMsg : List UInt8) (outMsgLen : Nat) :
    serializeMsg ctx (some outMsg) (some outMsgLen) =
      .ok (write outMsg 0 (layout ctx.iv (zeroFilled uint64Len ctx.timestamp.toNat) ctx.hmac
        (zeroFilled uint32Len ctx.ciphertextLen) ctx.sealedBytes), 78 + ctx.ciphertextLen) := by
  have htime : (zeroFilled uint64Len ctx.timestamp.toNat).length = uint64Len :=
    length_zeroFilled (by decide) (ctx.timestamp.toNat_lt.trans (by decide))
  have hdigits : (zeroFilled uint32Len ctx.ciphertextLen).length = uint32Len :=
    length_zeroFilled (by decide) (hlen.trans (by decide))
  simp only [serializeMsg, hbuffer, List.take_of_length_le htime.le,
    List.take_of_length_le hdigits.le]
  rw [write_layout outMsg ctx.iv ctx.hmac _ htime hdigits, TaCipherCtx.sealedBytes, hbuffer]
  rfl

/-- A message of a ciphertext shorter than `2 ^ 32` has the length of its fields, and reading it
restores the context exactly if the timestamp is below `2 ^ 63`. -/
theorem text_roundTrip_iff (ctx rctx : TaCipherCtx) {buffer rbuffer : List UInt8}
    (hbuffer : ctx.ciphertext = some buffer) (hle : ctx.ciphertextLen ≤ buffer.length)
    (hlen : ctx.ciphertextLen < 2 ^ 32) (hrbuffer : rctx.ciphertext = some rbuffer)
    (outMsg : List UInt8) (outMsgLen : Nat) :
    ∃ msg, serializeMsg ctx (some outMsg) (some outMsgLen) = .ok (msg, 78 + ctx.ciphertextLen) ∧
      ∃ ctx', deserializeMsg (some msg) rctx = (.ok (), ctx') ∧
        ((ctx'.iv = ctx.iv ∧ ctx'.timestamp = ctx.timestamp ∧ ctx'.hmac = ctx.hmac ∧
          ctx'.ciphertextLen = ctx.ciphertextLen ∧ ctx'.sealedBytes = ctx.sealedBytes) ↔
          ctx.timestamp.toNat < 2 ^ 63) := by
  refine ⟨_, serializeMsg_eq hbuffer hlen outMsg outMsgLen, ?_⟩
  have hatoi := atoiUInt32_zeroFilled uint32Len hlen
  have hbytes : ctx.sealedBytes.length = ctx.ciphertextLen := by
    rw [TaCipherCtx.sealedBytes, hbuffer]
    exact List.length_take_of_le hle
  rw [write_zero, deserializeMsg_layout hrbuffer ctx.iv ctx.hmac ctx.sealedBytes _
    (length_zeroFilled (by decide) (ctx.timestamp.toNat_lt.trans (by decide)))
    (length_zeroFilled (by decide) (hlen.trans (by decide))) (hbytes.trans hatoi.symm), hatoi]
  have hread : (write rbuffer 0 ctx.sealedBytes).take ctx.ciphertextLen = ctx.sealedBytes := by
    rw [← hbytes, take_write_zero]
  refine ⟨_, rfl, ?_, fun ht => ?_⟩
  · rintro ⟨-, htime, -⟩
    exact (atolUInt64_zeroFilled uint64Len _).mp htime
  · exact ⟨rfl, (atolUInt64_zeroFilled uint64Len _).mpr ht, rfl, rfl, hread⟩

namespace Sample

/-- A message of one byte. -/
def oneByte (timestamp : UInt64) : TaCipherCtx where
  plaintext := none
  plaintextLen := 0
  ciphertext := some [7]
  ciphertextLen := 1
  iv := Vector.replicate 16 0
  key := none
  deviceId := none
  hmac := Vector.replicate 32 0
  timestamp := timestamp

end Sample

/-- A message with the timestamp `1` is restored. -/
theorem text_roundTrip_one :
    ∃ msg, serializeMsg (Sample.oneByte 1) (some []) (some 0) = .ok (msg, 79) ∧
      ∃ ctx', deserializeMsg (some msg) (Sample.oneByte 0) = (.ok (), ctx') ∧
        ctx'.timestamp = 1 ∧ ctx'.sealedBytes = [7] := by
  obtain ⟨msg, hmsg, ctx', hctx', hiff⟩ := text_roundTrip_iff (Sample.oneByte 1)
    (Sample.oneByte 0) rfl le_rfl (by decide) rfl [] 0
  obtain ⟨-, htime, -, -, hbytes⟩ := hiff.mpr (by decide)
  exact ⟨msg, hmsg, ctx', hctx', htime, hbytes⟩

/-- A message with the timestamp `2 ^ 63` is read with success, and with the timestamp before. -/
theorem text_roundTrip_saturated :
    ((serializeMsg (Sample.oneByte 0x8000000000000000) (some []) (some 0)).map fun m =>
      ((deserializeMsg (some m.1) (Sample.oneByte 0)).1,
        (deserializeMsg (some m.1) (Sample.oneByte 0)).2.timestamp)) =
      .ok (.ok (), 0x7fffffffffffffff) := by
  decide

end TangleAccelerator.Endpoint
