import Mathlib
import TangleAccelerator.Endpoint.Cipher

/-!
# Sealed messages

What a receiver gets from `aes_encrypt` through `aes_decrypt`.

An unchanged message decrypts to the plaintext, filled up with zeros.  The HMAC is over the blocks
of the ciphertext, so a message with another vector is accepted as well, and one without the zeros
its ciphertext ends with.  The length of the plaintext is not part of the message, so plaintexts
that differ in zeros at their end are the same message.
-/

namespace TangleAccelerator.Endpoint

open Bytes

/-! ## Blocks and bytes -/

theorem join_plainBlocks (p : List UInt8) :
    join (plainBlocks p) = p ++ List.replicate (16 - p.length % 16) 0 := by
  rw [plainBlocks, join_blocks 0 16 (by omega)]
  congr 2
  omega

theorem join_cipherBlocks (c : List UInt8) :
    join (cipherBlocks c) = c ++ List.replicate (16 * ((c.length + 15) / 16) - c.length) 0 :=
  join_blocks 0 16 (by omega)

theorem cipherBlocks_join (bs : List Block) : cipherBlocks (join bs) = bs := by
  have hm : ((join bs).length + 15) / 16 = bs.length := by
    rw [length_join]
    omega
  rw [cipherBlocks, hm, blocks_join]

/-- A ciphertext has the blocks of whole ones, if it is without some of the zeros they end with. -/
theorem join_cipherBlocks_eq_iff {c c' : List UInt8} (hc : c.length % 16 = 0) :
    join (cipherBlocks c') = c ↔ ∃ k < 16, c = c' ++ List.replicate k 0 := by
  rw [join_cipherBlocks]
  constructor
  · intro h
    exact ⟨_, by omega, h.symm⟩
  · rintro ⟨k, hk, rfl⟩
    rw [List.length_append, List.length_replicate] at hc
    congr 2
    omega

/-- Plaintexts have the same blocks, if as many and the same up to zeros at the end. -/
theorem plainBlocks_eq_iff {p q : List UInt8} :
    plainBlocks p = plainBlocks q ↔
      p.length / 16 = q.length / 16 ∧
        ∃ k, p = q ++ List.replicate k 0 ∨ q = p ++ List.replicate k 0 := by
  constructor
  · intro h
    have hlength := congrArg List.length h
    have hjoin := congrArg join h
    rw [plainBlocks, plainBlocks, length_blocks, length_blocks] at hlength
    rw [join_plainBlocks, join_plainBlocks, append_replicate_eq_iff 0 (by omega)] at hjoin
    exact ⟨by omega, hjoin⟩
  · rintro ⟨hlength, hfill⟩
    refine join_injective ?_ ?_
    · rw [plainBlocks, plainBlocks, length_blocks, length_blocks, hlength]
    · rw [join_plainBlocks, join_plainBlocks, append_replicate_eq_iff 0 (by omega)]
      exact hfill

/-! ## Messages -/

/-- The output of `aes_encrypt`. -/
def TaCipherCtx.output (ctx : TaCipherCtx) : Block × List UInt8 × Nat × Digest :=
  (ctx.iv, ctx.sealedBytes, ctx.ciphertextLen, ctx.hmac)

theorem checkCipherCtx_eq_ok_iff {ctx : TaCipherCtx} {ptrs : Pointers} :
    checkCipherCtx ctx = .ok ptrs ↔
      ctx.plaintext = some ptrs.plaintext ∧ ctx.ciphertext = some ptrs.ciphertext ∧
        ctx.deviceId = some ptrs.deviceId ∧ ctx.key = some ptrs.key := by
  obtain ⟨plaintext, ciphertext, deviceId, key⟩ := ptrs
  rw [checkCipherCtx]
  split
  case h_1 p c d k hp hc hd hk => simp [hp, hc, hd, hk, eq_comm]
  case h_2 hnull =>
    refine iff_of_false (by simp) ?_
    rintro ⟨hp, hc, hd, hk⟩
    exact hnull _ _ _ _ hp hc hd hk

/-- Where `aes_encrypt` succeeds there was enough space. -/
theorem of_aesEncrypt_ok {M : Mbedtls} {ctx ctx' : TaCipherCtx}
    (h : aesEncrypt M ctx = (.ok (), ctx')) :
    ∃ ptrs, checkCipherCtx ctx = .ok ptrs ∧ sealedLen ctx.plaintextLen ≤ ctx.ciphertextLen := by
  cases hcheck : checkCipherCtx ctx with
  | error e => simp [aesEncrypt, hcheck] at h
  | ok ptrs =>
      refine ⟨ptrs, rfl, Nat.le_of_not_lt fun hcap => ?_⟩
      rw [aesEncrypt_of_lt M hcheck hcap] at h
      cases congrArg Prod.fst h

/-- `aes_encrypt` keeps what the digest is made of. -/
theorem frame_of_aesEncrypt {M : Mbedtls} {ctx ctx' : TaCipherCtx} {r : Except Status Unit}
    (h : aesEncrypt M ctx = (r, ctx')) :
    ctx'.key = ctx.key ∧ ctx'.deviceId = ctx.deviceId ∧ ctx'.timestamp = ctx.timestamp := by
  rw [aesEncrypt] at h
  split at h
  · cases h
    exact ⟨rfl, rfl, rfl⟩
  · dsimp only at h
    split at h
    · cases h
      exact ⟨rfl, rfl, rfl⟩
    · cases h
      exact ⟨rfl, rfl, rfl⟩

/-- What a successful `aes_encrypt` puts out. -/
theorem output_of_aesEncrypt {M : Mbedtls} {ctx ctx' : TaCipherCtx} {ptrs : Pointers}
    {digest : Digest} {bytes : List UInt8} (hcheck : checkCipherCtx ctx = .ok ptrs)
    (hlen : ctx.plaintextLen = ptrs.plaintext.length) (h : aesEncrypt M ctx = (.ok (), ctx'))
    (hdigest : baseDigest M ptrs.deviceId ctx.timestamp ptrs.key = digest)
    (hbytes : join (sealedBlocks M ptrs.key digest ptrs.plaintext) = bytes) :
    ctx'.output = (foldDigest digest, bytes, bytes.length, M.hmac digest bytes) := by
  obtain ⟨-, -, hcap⟩ := of_aesEncrypt_ok h
  rw [aesEncrypt_of_le M hcheck hlen hcap hdigest, hbytes] at h
  cases h
  have hlength := length_sealedBlocks M ptrs.key digest ptrs.plaintext
  rw [← hlen, hbytes] at hlength
  simp only [TaCipherCtx.output, TaCipherCtx.sealedBytes, Option.getD_some]
  rw [← hlength, take_write_zero]

/-! ## A library -/

namespace Sample

/-- Blocks, added. -/
def xorBlock (a b : Block) : Block := Vector.ofFn fun i => a[i.val] ^^^ b[i.val]

theorem xorBlock_xorBlock (a b : Block) : xorBlock (xorBlock a b) b = a := by
  refine Vector.ext fun i hi => ?_
  simp only [xorBlock, Vector.getElem_ofFn, UInt8.xor_assoc, UInt8.xor_self, UInt8.xor_zero]

/-- CBC with a cipher that does nothing. -/
def library : Mbedtls where
  sha256 _ := Vector.replicate 32 0
  hmac _ := block 0 32
  encryptCbc _ iv b := (xorBlock b iv, xorBlock b iv)
  decryptCbc _ iv c := (c, xorBlock c iv)

theorem inverse_library : library.Inverse := fun _ iv b =>
  Prod.ext rfl (xorBlock_xorBlock b iv)

/-- A message of three bytes. -/
def ctx : TaCipherCtx where
  plaintext := some [1, 2, 3]
  plaintextLen := 3
  ciphertext := some []
  ciphertextLen := 16
  iv := Vector.replicate 16 0
  key := some (Vector.replicate 32 0)
  deviceId := some []
  hmac := Vector.replicate 32 0
  timestamp := 0

theorem checkCipherCtx_ctx :
    checkCipherCtx ctx = .ok ⟨[1, 2, 3], [], [], Vector.replicate 32 0⟩ := rfl

/-- Its vector is zero, so the plaintext is sealed as it is. -/
theorem aesEncrypt_ctx :
    ∃ ctx', aesEncrypt library ctx = (.ok (), ctx') ∧
      ctx'.output = (Vector.replicate 16 0, [1, 2, 3] ++ List.replicate 13 0, 16,
        block 0 32 [1, 2, 3]) :=
  ⟨_, aesEncrypt_of_le library checkCipherCtx_ctx rfl (by decide) rfl, by decide⟩

end Sample

/-! ## The round trip -/

theorem write_zeroize (buffer : List UInt8) {bytes : List UInt8} (h : 8 ≤ bytes.length) :
    write (zeroize buffer) 0 bytes = write buffer 0 bytes :=
  write_write_zero buffer _ bytes (by rwa [List.length_replicate])

/-- `aes_decrypt` of the output of `aes_encrypt`. -/
theorem aesDecrypt_sealed {M : Mbedtls} (hM : M.Inverse) {ctx : TaCipherCtx} (ptrs : Pointers)
    {digest : Digest} {p : List UInt8} (hcheck : checkCipherCtx ctx = .ok ptrs)
    (hdigest : baseDigest M ptrs.deviceId ctx.timestamp ptrs.key = digest)
    (hlen : ctx.ciphertextLen ≤ ptrs.ciphertext.length)
    (hbytes : ptrs.ciphertext.take ctx.ciphertextLen = join (sealedBlocks M ptrs.key digest p))
    (hiv : ctx.iv = foldDigest digest)
    (hhmac : ctx.hmac = M.hmac digest (join (sealedBlocks M ptrs.key digest p))) :
    ∃ ctx', aesDecrypt M ctx = (.ok (), ctx') ∧
      ctx'.plaintext =
        some (write ptrs.plaintext 0 (p ++ List.replicate (16 - p.length % 16) 0)) := by
  have hopen := (hM ptrs.key).chain (foldDigest digest) (plainBlocks p)
  have hbs : cipherBlocks (ptrs.ciphertext.take ctx.ciphertextLen) =
      sealedBlocks M ptrs.key digest p := by
    rw [hbytes, cipherBlocks_join]
  obtain ⟨iv, hrun⟩ := aesDecrypt_eq M hcheck hlen hdigest hbs
  rw [hhmac, if_pos rfl, hiv, sealedBlocks, hopen, join_plainBlocks, write_zeroize] at hrun
  · exact ⟨_, hrun, rfl⟩
  · rw [List.length_append, List.length_replicate]
    omega

/-- `aes_encrypt` succeeds exactly if the ciphertext fits in its buffer, and `aes_decrypt` then
gives the plaintext back, followed by zeros. -/
theorem aes_roundTrip (M : Mbedtls) (hM : M.Inverse) {ctx : TaCipherCtx} {ptrs : Pointers}
    (hcheck : checkCipherCtx ctx = .ok ptrs) (hlen : ctx.plaintextLen = ptrs.plaintext.length) :
    (ptrs.plaintext.length + (16 - ptrs.plaintext.length % 16) ≤ ctx.ciphertextLen →
      ∃ ctx', aesEncrypt M ctx = (.ok (), ctx') ∧
        ctx'.ciphertextLen = ptrs.plaintext.length + (16 - ptrs.plaintext.length % 16) ∧
        ∀ out len, ∃ ctx'',
          aesDecrypt M { ctx' with plaintext := some out, plaintextLen := len } = (.ok (), ctx'') ∧
          ctx''.plaintext = some (write out 0
            (ptrs.plaintext ++ List.replicate (16 - ptrs.plaintext.length % 16) 0))) ∧
    (ctx.ciphertextLen < ptrs.plaintext.length + (16 - ptrs.plaintext.length % 16) →
      ∃ e ctx', aesEncrypt M ctx = (.error e, ctx') ∧
        ctx'.ciphertextLen = ctx.ciphertextLen) := by
  constructor
  · intro hcap
    have hcap' : sealedLen ctx.plaintextLen ≤ ctx.ciphertextLen := by rwa [hlen]
    obtain ⟨-, -, hd, hk⟩ := checkCipherCtx_eq_ok_iff.mp hcheck
    refine ⟨_, aesEncrypt_of_le M hcheck hlen hcap' rfl, by rw [hlen]; rfl, fun out len => ?_⟩
    have hlength := length_sealedBlocks M ptrs.key
      (baseDigest M ptrs.deviceId ctx.timestamp ptrs.key) ptrs.plaintext
    rw [← hlen] at hlength
    refine aesDecrypt_sealed hM ⟨out, write ptrs.ciphertext 0 (join (sealedBlocks M ptrs.key
        (baseDigest M ptrs.deviceId ctx.timestamp ptrs.key) ptrs.plaintext)), ptrs.deviceId,
        ptrs.key⟩
      (checkCipherCtx_eq_ok_iff.mpr ⟨rfl, rfl, hd, hk⟩) rfl ?_ ?_ rfl rfl
    · dsimp only
      rw [write_zero, List.length_append, hlength]
      exact Nat.le_add_right ..
    · dsimp only
      rw [← hlength, take_write_zero]
  · intro hcap
    exact ⟨_, _, aesEncrypt_of_lt M hcheck (by rwa [hlen]), rfl⟩

/-- Three bytes, sealed in a buffer of one block. -/
theorem aes_roundTrip_three :
    ∃ ctx', aesEncrypt Sample.library Sample.ctx = (.ok (), ctx') ∧ ctx'.ciphertextLen = 16 := by
  obtain ⟨ctx', hrun, hlen, -⟩ := (aes_roundTrip Sample.library Sample.inverse_library
    Sample.checkCipherCtx_ctx rfl).1 (by decide)
  exact ⟨ctx', hrun, hlen⟩

/-! ## Changed messages -/

/-- The context of a receiver of a message with another vector and ciphertext. -/
def TaCipherCtx.received (ctx : TaCipherCtx) (out : List UInt8) (len : Nat) (iv : Block)
    (c : List UInt8) : TaCipherCtx :=
  { ctx with
    plaintext := some out
    plaintextLen := len
    iv := iv
    ciphertext := some c
    ciphertextLen := c.length }

/-- `aes_decrypt` of a changed message. -/
theorem aesDecrypt_received {M : Mbedtls} {ctx ctx' : TaCipherCtx} {ptrs : Pointers}
    {r : Except Status Unit} (hcheck : checkCipherCtx ctx = .ok ptrs)
    (hrun : aesEncrypt M ctx = (r, ctx')) (out : List UInt8) (len : Nat) (iv : Block)
    (c : List UInt8) :
    ∃ ctx'', aesDecrypt M (ctx'.received out len iv c) =
        (if M.hmac (baseDigest M ptrs.deviceId ctx.timestamp ptrs.key) (join (cipherBlocks c)) =
          ctx'.hmac then .ok () else .error .utilsCipherError, ctx'') ∧
      ctx''.plaintext = some (write (zeroize out) 0
        (join (chain (M.decryptCbc ptrs.key) iv (cipherBlocks c)).2)) := by
  obtain ⟨hkey, hdevice, htime⟩ := frame_of_aesEncrypt hrun
  obtain ⟨-, -, hd, hk⟩ := checkCipherCtx_eq_ok_iff.mp hcheck
  have hreceived : checkCipherCtx (ctx'.received out len iv c) =
      .ok ⟨out, c, ptrs.deviceId, ptrs.key⟩ :=
    checkCipherCtx_eq_ok_iff.mpr ⟨rfl, rfl, hdevice.trans hd, hkey.trans hk⟩
  have hbs : cipherBlocks (c.take c.length) = cipherBlocks c := by rw [List.take_length]
  obtain ⟨iv', hopen⟩ := aesDecrypt_eq M hreceived le_rfl rfl hbs
  rw [← htime]
  exact ⟨_, hopen, rfl⟩

/-- What `aes_decrypt` accepts with the HMAC of a message, where it has no collision: whatever the
vector, the ciphertext of the message, and the ones without some of the zeros it ends with. -/
theorem aesDecrypt_rejects_iff (M : Mbedtls) {ctx ctx' : TaCipherCtx} {ptrs : Pointers}
    (hcheck : checkCipherCtx ctx = .ok ptrs) (hlen : ctx.plaintextLen = ptrs.plaintext.length)
    (hrun : aesEncrypt M ctx = (.ok (), ctx')) (out : List UInt8) (len : Nat) (iv : Block)
    (c : List UInt8)
    (hmac : ∀ digest, Set.InjOn (M.hmac digest) {ctx'.sealedBytes, join (cipherBlocks c)}) :
    (aesDecrypt M (ctx'.received out len iv c)).1 ≠ .ok () ↔
      ¬ ∃ k < 16, ctx'.sealedBytes = c ++ List.replicate k 0 := by
  have hout := output_of_aesEncrypt hcheck hlen hrun rfl rfl
  simp only [TaCipherCtx.output, Prod.mk.injEq] at hout
  obtain ⟨-, hbytes, -, hhmac⟩ := hout
  have hmod : ctx'.sealedBytes.length % 16 = 0 := by
    rw [hbytes, length_sealedBlocks, sealedLen_eq]
    omega
  obtain ⟨ctx'', hdecrypt, -⟩ := aesDecrypt_received hcheck hrun out len iv c
  rw [hdecrypt, hhmac, ← hbytes, ← join_cipherBlocks_eq_iff hmod]
  dsimp only
  split
  case isTrue h =>
    have heq := hmac _ (Set.mem_insert_of_mem _ rfl) (Set.mem_insert ..) h
    simp [heq]
  case isFalse h =>
    have hne : join (cipherBlocks c) ≠ ctx'.sealedBytes := fun heq => h (by rw [heq])
    simp [hne]

/-- The message of the sample without its ciphertext is rejected. -/
theorem aesDecrypt_rejects_empty :
    ∃ ctx', aesEncrypt Sample.library Sample.ctx = (.ok (), ctx') ∧
      (aesDecrypt Sample.library (ctx'.received [] 0 ctx'.iv [])).1 ≠ .ok () := by
  obtain ⟨ctx', hrun, hout⟩ := Sample.aesEncrypt_ctx
  have hbytes : ctx'.sealedBytes = [1, 2, 3] ++ List.replicate 13 0 :=
    congrArg (fun output => output.2.1) hout
  refine ⟨_, hrun, (aesDecrypt_rejects_iff Sample.library Sample.checkCipherCtx_ctx rfl hrun [] 0 _
    [] fun digest => ?_).mpr ?_⟩
  · rw [hbytes]
    have hne : Sample.library.hmac digest ([1, 2, 3] ++ List.replicate 13 0) ≠
        Sample.library.hmac digest (join (cipherBlocks [])) := by
      change block 0 32 _ ≠ block 0 32 _
      decide
    rintro a (rfl | rfl) b (rfl | rfl) hab
    · rfl
    · exact absurd hab hne
    · exact absurd hab.symm hne
    · rfl
  · rw [hbytes]
    rintro ⟨k, hk, h⟩
    have hlength := congrArg List.length h
    simp at hlength
    omega

/-- The message of the sample is accepted with another vector, and opens to another plaintext. -/
theorem aesDecrypt_other_iv :
    Sample.library.Inverse ∧ ∃ ctx' ctx'',
      aesEncrypt Sample.library Sample.ctx = (.ok (), ctx') ∧
      ctx'.iv ≠ Vector.replicate 16 1 ∧
      aesDecrypt Sample.library
        (ctx'.received [] 0 (Vector.replicate 16 1) ctx'.sealedBytes) = (.ok (), ctx'') ∧
      ctx''.plaintext = some ([0, 3, 2] ++ List.replicate 13 1) := by
  obtain ⟨ctx', hrun, hout⟩ := Sample.aesEncrypt_ctx
  simp only [TaCipherCtx.output, Prod.mk.injEq] at hout
  obtain ⟨hiv, hbytes, -, hhmac⟩ := hout
  obtain ⟨ctx'', hopen, hplain⟩ := aesDecrypt_received Sample.checkCipherCtx_ctx hrun [] 0
    (Vector.replicate 16 1) ctx'.sealedBytes
  refine ⟨Sample.inverse_library, ctx', ctx'', hrun, ?_, ?_, ?_⟩
  · rw [hiv]
    decide
  · rw [hopen, hbytes, hhmac, if_pos (by decide)]
  · rw [hplain, hbytes]
    decide

/-! ## Different messages -/

/-- A context with a plaintext. -/
def TaCipherCtx.sends (ctx : TaCipherCtx) (p : List UInt8) : TaCipherCtx :=
  { ctx with plaintext := some p, plaintextLen := p.length }

/-- What a successful `aes_encrypt` of a plaintext puts out, from the rest of the context. -/
theorem output_of_sends {M : Mbedtls} {ctx ctx' : TaCipherCtx} {p : List UInt8}
    (h : aesEncrypt M (ctx.sends p) = (.ok (), ctx')) :
    ∃ deviceId key digest bytes, ctx.deviceId = some deviceId ∧ ctx.key = some key ∧
      digest = baseDigest M deviceId ctx.timestamp key ∧
      bytes = join (sealedBlocks M key digest p) ∧
      ctx'.output = (foldDigest digest, bytes, bytes.length, M.hmac digest bytes) := by
  obtain ⟨ptrs, hcheck, -⟩ := of_aesEncrypt_ok h
  obtain ⟨hp, -, hd, hk⟩ := checkCipherCtx_eq_ok_iff.mp hcheck
  obtain rfl : p = ptrs.plaintext := Option.some.inj hp
  have hout := output_of_aesEncrypt hcheck rfl h rfl rfl
  exact ⟨ptrs.deviceId, ptrs.key, _, _, hd, hk, rfl, rfl, hout⟩

/-- `aes_encrypt` puts out the same for two plaintexts exactly if they fill as many blocks, and are
the same up to zeros at the end. -/
theorem aesEncrypt_distinct_iff (M : Mbedtls)
    (hcbc : ∀ key iv, Function.Injective fun bs => (chain (M.encryptCbc key) iv bs).2)
    (ctx : TaCipherCtx) {p q : List UInt8} {ctxp ctxq : TaCipherCtx}
    (hp : aesEncrypt M (ctx.sends p) = (.ok (), ctxp))
    (hq : aesEncrypt M (ctx.sends q) = (.ok (), ctxq)) :
    ctxp.output ≠ ctxq.output ↔
      ¬ (p.length / 16 = q.length / 16 ∧
        ∃ k, p = q ++ List.replicate k 0 ∨ q = p ++ List.replicate k 0) := by
  obtain ⟨d, k, digest, bp, hd, hk, hdigest, hbp, hpout⟩ := output_of_sends hp
  obtain ⟨d', k', digest', bq, hd', hk', hdigest', hbq, hqout⟩ := output_of_sends hq
  obtain rfl : d = d' := Option.some.inj (hd.symm.trans hd')
  obtain rfl : k = k' := Option.some.inj (hk.symm.trans hk')
  obtain rfl : digest = digest' := hdigest.trans hdigest'.symm
  rw [not_iff_not, hpout, hqout, ← plainBlocks_eq_iff]
  constructor
  · intro h
    simp only [Prod.mk.injEq] at h
    obtain ⟨-, hjoin, hlength, -⟩ := h
    rw [hbp, hbq, length_join, length_join] at hlength
    rw [hbp, hbq] at hjoin
    have hblocks := join_injective (Nat.eq_of_mul_eq_mul_left (by decide) hlength) hjoin
    exact hcbc k _ hblocks
  · intro h
    rw [hbp, hbq, sealedBlocks, sealedBlocks, h]

theorem Sample.checkCipherCtx_sends (p : List UInt8) :
    checkCipherCtx (ctx.sends p) = .ok ⟨p, [], [], Vector.replicate 32 0⟩ := rfl

/-- Plaintexts of one byte. -/
theorem aesEncrypt_distinct_bytes :
    ∃ ctxp ctxq, aesEncrypt Sample.library (Sample.ctx.sends [1]) = (.ok (), ctxp) ∧
      aesEncrypt Sample.library (Sample.ctx.sends [2]) = (.ok (), ctxq) ∧
      ctxp.output ≠ ctxq.output := by
  have hp := aesEncrypt_of_le Sample.library (Sample.checkCipherCtx_sends [1]) rfl (by decide) rfl
  have hq := aesEncrypt_of_le Sample.library (Sample.checkCipherCtx_sends [2]) rfl (by decide) rfl
  refine ⟨_, _, hp, hq, (aesEncrypt_distinct_iff Sample.library
    (fun key iv _ _ h => (Sample.inverse_library key).chain_injective h) Sample.ctx hp hq).mpr ?_⟩
  rintro ⟨-, k, h | h⟩ <;> simp at h

/-- The empty plaintext and one zero are the same message. -/
theorem aesEncrypt_empty_zero :
    ∃ ctxp ctxq, aesEncrypt Sample.library (Sample.ctx.sends []) = (.ok (), ctxp) ∧
      aesEncrypt Sample.library (Sample.ctx.sends [0]) = (.ok (), ctxq) ∧
      ctxp.output = ctxq.output :=
  ⟨_, _, aesEncrypt_of_le Sample.library (Sample.checkCipherCtx_sends []) rfl (by decide) rfl,
    aesEncrypt_of_le Sample.library (Sample.checkCipherCtx_sends [0]) rfl (by decide) rfl,
    by decide⟩

end TangleAccelerator.Endpoint
