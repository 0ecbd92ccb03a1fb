import TangleAccelerator.Bytes.Block
import TangleAccelerator.Bytes.Decimal
import TangleAccelerator.Common.Types

/-!
# The cipher of the endpoint

`cipher.c`: `aes_encrypt` and `aes_decrypt` over a `ta_cipher_ctx`.

Both derive a digest from the device, the timestamp and the key.  Encryption takes the vector of CBC
from it, and both take the key of the HMAC from it.  The plaintext is filled up with zeros to whole
blocks, with at least one of them.  The HMAC is over the blocks of the ciphertext alone.

The functions of `mbedtls` are a parameter, and they succeed.  A buffer is a list of bytes, and a
write past its end makes it longer.  Buffers are smaller than `2 ^ 63`, so lengths do not wrap.
-/

namespace TangleAccelerator.Endpoint

open Bytes

/-! ## The library -/

/-- `AES_BLOCK_SIZE` bytes. -/
abbrev Block := Vector UInt8 16

/-- `TA_AES_HMAC_SIZE` bytes. -/
abbrev Digest := Vector UInt8 32

/-- `TA_AES_KEY_BITS` bits. -/
abbrev Key := Vector UInt8 32

/-- The functions of `mbedtls`. -/
structure Mbedtls where
  /-- SHA-256. -/
  sha256 : List UInt8 → Digest
  /-- HMAC-SHA256, of the key and the bytes of all updates. -/
  hmac : Digest → List UInt8 → Digest
  /-- `mbedtls_aes_crypt_cbc` with `MBEDTLS_AES_ENCRYPT` on one block: the vector and the block
  before and after. -/
  encryptCbc : Key → Block → Block → Block × Block
  /-- `mbedtls_aes_crypt_cbc` with `MBEDTLS_AES_DECRYPT` on one block. -/
  decryptCbc : Key → Block → Block → Block × Block

/-- Decryption with CBC is the inverse of encryption. -/
def Mbedtls.Inverse (M : Mbedtls) : Prop := ∀ key, Undoes (M.decryptCbc key) (M.encryptCbc key)

/-! ## The context -/

/-- `ta_cipher_ctx`.  Pointers may be `NULL`. -/
structure TaCipherCtx where
  plaintext : Option (List UInt8)
  plaintextLen : Nat
  ciphertext : Option (List UInt8)
  ciphertextLen : Nat
  iv : Block
  key : Option Key
  /-- The characters before the terminating NUL. -/
  deviceId : Option (List UInt8)
  hmac : Digest
  timestamp : UInt64
deriving DecidableEq

/-- The bytes of the ciphertext of a context. -/
def TaCipherCtx.sealedBytes (ctx : TaCipherCtx) : List UInt8 :=
  (ctx.ciphertext.getD []).take ctx.ciphertextLen

/-- The pointers of a context that passed the check. -/
structure Pointers where
  plaintext : List UInt8
  ciphertext : List UInt8
  deviceId : List UInt8
  key : Key

/-- `check_cipher_ctx`. -/
def checkCipherCtx (ctx : TaCipherCtx) : Except Status Pointers :=
  match ctx.plaintext, ctx.ciphertext, ctx.deviceId, ctx.key with
  | some plaintext, some ciphertext, some deviceId, some key =>
      .ok ⟨plaintext, ciphertext, deviceId, key⟩
  | _, _, _, _ => .error .utilsCipherError

/-! ## The digest -/

/-- `IMSI_LEN`. -/
def imsiLen : Nat := 16

/-- `MAX_TIMESTAMP_LEN`. -/
def maxTimestampLen : Nat := 20

/-- The nonce: `snprintf` of `"%s-%" PRIu64` to a buffer of zeros, without its last byte. -/
def nonce (deviceId : List UInt8) (timestamp : UInt64) : List UInt8 :=
  (block 0 (imsiLen + maxTimestampLen) (deviceId ++ 45 :: decimal timestamp.toNat)).toList

/-- The digest of the base data.  It starts with the zeros of the buffer of the digest. -/
def baseDigest (M : Mbedtls) (deviceId : List UInt8) (timestamp : UInt64) (key : Key) : Digest :=
  M.sha256 (List.replicate 32 0 ++ nonce deviceId timestamp ++ key.toList)

/-- The vector of CBC: the halves of the digest, added. -/
def foldDigest (digest : Digest) : Block :=
  Vector.ofFn fun i => digest[i.val] ^^^ digest[i.val + 16]

/-! ## The loops -/

/-- The block at an offset: a buffer of zeros, and at most `16` bytes of the source. -/
def readBlock (source : List UInt8) (len i : Nat) : Block :=
  let n := if len - i > 16 then 16 else len - i
  block 0 16 ((source.drop i).take n)

/-- The variables of a loop: the vector, the output and what the HMAC was updated with. -/
structure CbcState where
  iv : Block
  out : List UInt8
  mac : List UInt8

/-- The loop over the blocks of a source.  `mac` selects the block the HMAC is updated with, from
the one that was read and the one that is written. -/
def cbcLoop (crypt : Block → Block → Block × Block) (mac : Block × Block → Block)
    (source : List UInt8) (len stop i : Nat) (state : CbcState) : CbcState :=
  if i < stop then
    let buf := readBlock source len i
    let (iv, res) := crypt state.iv buf
    cbcLoop crypt mac source len stop (i + 16)
      ⟨iv, write state.out i res.toList, state.mac ++ (mac (buf, res)).toList⟩
  else state
termination_by stop - i

/-- The loop of `aes_encrypt`. -/
def encryptLoop (M : Mbedtls) (key : Key) (plaintext : List UInt8) (plaintextLen newLen : Nat) :
    Nat → CbcState → CbcState :=
  cbcLoop (M.encryptCbc key) Prod.snd plaintext plaintextLen newLen

/-- The loop of `aes_decrypt`. -/
def decryptLoop (M : Mbedtls) (key : Key) (ciphertext : List UInt8) (ciphertextLen : Nat) :
    Nat → CbcState → CbcState :=
  cbcLoop (M.decryptCbc key) Prod.fst ciphertext ciphertextLen ciphertextLen

/-! ## The functions -/

/-- The bytes `mbedtls_platform_zeroize` clears of a buffer: the size of a pointer. -/
def zeroize (buffer : List UInt8) : List UInt8 := write buffer 0 (List.replicate 8 0)

/-- The length of the ciphertext of a plaintext. -/
def sealedLen (plaintextLen : Nat) : Nat := plaintextLen + (16 - plaintextLen % 16)

/-- `aes_encrypt`: the status and the context after it. -/
def aesEncrypt (M : Mbedtls) (ctx : TaCipherCtx) : Except Status Unit × TaCipherCtx :=
  match checkCipherCtx ctx with
  | .error e => (.error e, ctx)
  | .ok ptrs =>
      let newLen := sealedLen ctx.plaintextLen
      if newLen > ctx.ciphertextLen then (.error .utilsCipherError, ctx)
      else
        let digest := baseDigest M ptrs.deviceId ctx.timestamp ptrs.key
        let tmp := foldDigest digest
        let state := encryptLoop M ptrs.key ptrs.plaintext ctx.plaintextLen newLen 0
          ⟨tmp, zeroize ptrs.ciphertext, []⟩
        (.ok (),
          { ctx with
            ciphertextLen := newLen
            iv := tmp
            ciphertext := some state.out
            hmac := M.hmac digest state.mac })

/-- `aes_decrypt`: the status and the context after it.  The vector of the context is the one CBC
carries. -/
def aesDecrypt (M : Mbedtls) (ctx : TaCipherCtx) : Except Status Unit × TaCipherCtx :=
  match checkCipherCtx ctx with
  | .error e => (.error e, ctx)
  | .ok ptrs =>
      let digest := baseDigest M ptrs.deviceId ctx.timestamp ptrs.key
      let state := decryptLoop M ptrs.key ptrs.ciphertext ctx.ciphertextLen 0
        ⟨ctx.iv, zeroize ptrs.plaintext, []⟩
      let ctx' := { ctx with plaintext := some state.out, iv := state.iv }
      if M.hmac digest state.mac = ctx.hmac then (.ok (), ctx')
      else (.error .utilsCipherError, ctx')

/-! ## What the loops compute -/

theorem readBlock_eq (source : List UInt8) (len i : Nat) :
    readBlock source len i = block 0 16 ((source.take len).drop i) := by
  refine Vector.ext fun j hj => ?_
  rw [readBlock, block, block, Vector.getElem_ofFn, Vector.getElem_ofFn, List.drop_take]
  have hn : (j < if len - i > 16 then 16 else len - i) ↔ j < len - i := by
    split <;> omega
  simp only [List.getD_eq_getElem?_getD, List.getElem?_take, hn]

/-- What the loop makes of blocks: they are chained, written and joined for the HMAC. -/
def cbcResult (crypt : Block → Block → Block × Block) (mac : Block × Block → Block)
    (buffer : List UInt8) (iv : Block) (done acc : List UInt8) (bs : List Block) : CbcState where
  iv := (chain crypt iv bs).1
  out := write buffer 0 (done ++ join (chain crypt iv bs).2)
  mac := acc ++ join ((bs.zip (chain crypt iv bs).2).map mac)

/-- The loop from an offset, where everything before it was written. -/
theorem cbcLoop_eq (crypt : Block → Block → Block × Block) (mac : Block × Block → Block)
    (source : List UInt8) (len stop : Nat) (buffer : List UInt8) (m : Nat) (iv : Block)
    (acc : List UInt8) {i : Nat} {done : List UInt8} (hdone : done.length = i)
    (hstop : stop ≤ i + 16 * m) (hm : i + 16 * m < stop + 16) :
    cbcLoop crypt mac source len stop i ⟨iv, write buffer 0 done, acc⟩ =
      cbcResult crypt mac buffer iv done acc (blocks 0 16 m ((source.take len).drop i)) := by
  induction m generalizing i iv done acc with
  | zero =>
      rw [cbcLoop, if_neg (by omega)]
      simp [cbcResult, blocks, chain]
  | succ m ih =>
      rw [cbcLoop, if_pos (by omega)]
      dsimp only
      rw [readBlock_eq, ← hdone, write_write, hdone,
        ih _ _ (by rw [List.length_append, Vector.length_toList, hdone]) (by omega) (by omega)]
      simp only [cbcResult, blocks, chain, List.drop_drop, List.zip_cons_cons, List.map_cons,
        join_cons, List.append_assoc]

/-- The blocks of a plaintext: it ends with one that is not full. -/
def plainBlocks (plaintext : List UInt8) : List Block :=
  blocks 0 16 (plaintext.length / 16 + 1) plaintext

/-- The blocks of a ciphertext. -/
def cipherBlocks (ciphertext : List UInt8) : List Block :=
  blocks 0 16 ((ciphertext.length + 15) / 16) ciphertext

theorem sealedLen_eq (n : Nat) : sealedLen n = 16 * (n / 16 + 1) := by
  rw [sealedLen]
  omega

theorem encryptLoop_eq (M : Mbedtls) (key : Key) {plaintext : List UInt8} {len : Nat}
    (hlen : len ≤ plaintext.length) (buffer : List UInt8) (iv : Block) :
    ∃ iv', encryptLoop M key plaintext len (sealedLen len) 0 ⟨iv, buffer, []⟩ =
      ⟨iv', write buffer 0
        (join (chain (M.encryptCbc key) iv (plainBlocks (plaintext.take len))).2),
        join (chain (M.encryptCbc key) iv (plainBlocks (plaintext.take len))).2⟩ := by
  have hloop := cbcLoop_eq (M.encryptCbc key) Prod.snd plaintext len (sealedLen len) buffer
    (len / 16 + 1) iv [] List.length_nil (by rw [sealedLen_eq]; omega)
    (by rw [sealedLen_eq]; omega)
  have htake : (plaintext.take len).length = len := List.length_take_of_le hlen
  rw [write_zero_nil, List.drop_zero] at hloop
  rw [encryptLoop, hloop, plainBlocks, htake, cbcResult, List.map_snd_zip (by simp)]
  exact ⟨_, rfl⟩

theorem decryptLoop_eq (M : Mbedtls) (key : Key) {ciphertext : List UInt8} {len : Nat}
    (hlen : len ≤ ciphertext.length) (buffer : List UInt8) (iv : Block) :
    ∃ iv', decryptLoop M key ciphertext len 0 ⟨iv, buffer, []⟩ =
      ⟨iv', write buffer 0
        (join (chain (M.decryptCbc key) iv (cipherBlocks (ciphertext.take len))).2),
        join (cipherBlocks (ciphertext.take len))⟩ := by
  have hloop := cbcLoop_eq (M.decryptCbc key) Prod.fst ciphertext len len buffer
    ((len + 15) / 16) iv [] List.length_nil (by omega) (by omega)
  have htake : (ciphertext.take len).length = len := List.length_take_of_le hlen
  rw [write_zero_nil, List.drop_zero] at hloop
  rw [decryptLoop, hloop, cipherBlocks, htake, cbcResult, List.map_fst_zip (by simp)]
  exact ⟨_, rfl⟩

/-! ## What the functions compute -/

/-- The blocks of the ciphertext. -/
def sealedBlocks (M : Mbedtls) (key : Key) (digest : Digest) (plaintext : List UInt8) :
    List Block :=
  (chain (M.encryptCbc key) (foldDigest digest) (plainBlocks plaintext)).2

theorem length_sealedBlocks (M : Mbedtls) (key : Key) (digest : Digest)
    (plaintext : List UInt8) :
    (join (sealedBlocks M key digest plaintext)).length = sealedLen plaintext.length := by
  rw [length_join, sealedBlocks, length_chain, plainBlocks, length_blocks, sealedLen_eq]

theorem aesEncrypt_of_lt (M : Mbedtls) {ctx : TaCipherCtx} {ptrs : Pointers}
    (hcheck : checkCipherCtx ctx = .ok ptrs)
    (hcap : ctx.ciphertextLen < sealedLen ctx.plaintextLen) :
    aesEncrypt M ctx = (.error .utilsCipherError, ctx) := by
  simp only [aesEncrypt, hcheck, if_pos hcap]

theorem aesEncrypt_of_le (M : Mbedtls) {ctx : TaCipherCtx} {ptrs : Pointers} {digest : Digest}
    (hcheck : checkCipherCtx ctx = .ok ptrs) (hlen : ctx.plaintextLen = ptrs.plaintext.length)
    (hcap : sealedLen ctx.plaintextLen ≤ ctx.ciphertextLen)
    (hdigest : baseDigest M ptrs.deviceId ctx.timestamp ptrs.key = digest) :
    aesEncrypt M ctx =
      (.ok (),
        { ctx with
          ciphertextLen := sealedLen ctx.plaintextLen
          iv := foldDigest digest
          ciphertext := some
            (write ptrs.ciphertext 0 (join (sealedBlocks M ptrs.key digest ptrs.plaintext)))
          hmac := M.hmac digest (join (sealedBlocks M ptrs.key digest ptrs.plaintext)) }) := by
  have hlength := length_sealedBlocks M ptrs.key digest ptrs.plaintext
  have hbytes : 8 ≤ sealedLen ptrs.plaintext.length := by
    rw [sealedLen_eq]
    omega
  obtain ⟨iv', hloop⟩ := encryptLoop_eq M ptrs.key (Nat.le_of_eq hlen) (zeroize ptrs.ciphertext)
    (foldDigest digest)
  rw [hlen, List.take_length, ← sealedBlocks, zeroize, write_write_zero _ _ _
    (by rw [hlength, List.length_replicate]; exact hbytes), ← hlen] at hloop
  simp only [aesEncrypt, hcheck, if_neg (Nat.not_lt.mpr hcap), hdigest]
  rw [zeroize, hloop]

theorem aesDecrypt_eq (M : Mbedtls) {ctx : TaCipherCtx} {ptrs : Pointers} {digest : Digest}
    {bs : List Block} (hcheck : checkCipherCtx ctx = .ok ptrs)
    (hlen : ctx.ciphertextLen ≤ ptrs.ciphertext.length)
    (hdigest : baseDigest M ptrs.deviceId ctx.timestamp ptrs.key = digest)
    (hbs : cipherBlocks (ptrs.ciphertext.take ctx.ciphertextLen) = bs) :
    ∃ iv, aesDecrypt M ctx =
      (if M.hmac digest (join bs) = ctx.hmac then .ok () else .error .utilsCipherError,
        { ctx with
          plaintext := some (write (zeroize ptrs.plaintext) 0
            (join (chain (M.decryptCbc ptrs.key) ctx.iv bs).2))
          iv := iv }) := by
  obtain ⟨iv, hloop⟩ := decryptLoop_eq M ptrs.key hlen (zeroize ptrs.plaintext) ctx.iv
  rw [hbs] at hloop
  refine ⟨iv, ?_⟩
  simp only [aesDecrypt, hcheck, hdigest, hloop]
  split <;> rfl

end TangleAccelerator.Endpoint
