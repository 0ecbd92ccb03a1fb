import TangleAccelerator.Bytes.Printf
import TangleAccelerator.Endpoint.TextSerializer

/-!
# What `deserialize_msg` reads and writes

`deserialize_msg` is given a message without its length and a buffer without its size.  It copies
the four fields at the front, and then as many bytes as the last of them says.  The number is read
with `atoi` and stored as a `uint32_t`.  Nothing is checked.

`boundedDeserializeMsg` is `deserialize_msg` with every access inside the message and the buffer.
It has no result where an access is outside, and where it has one, it is that of `deserializeMsg`
(`deserializeMsg_of_bounded`).

What a malformed length is has no definition in the source, so it is a parameter.
-/

namespace TangleAccelerator.Endpoint

open Bytes

/-! ## The function -/

/-- `deserialize_msg`, if it reads inside the message and writes inside the buffer. -/
def boundedDeserializeMsg (msg : Option (List UInt8)) (ctx : TaCipherCtx) :
    Option (Except Status Unit × TaCipherCtx) :=
  match msg, ctx.ciphertext with
  | some msg, some ciphertext => do
      let iv ← load msg 0 ivLen
      let buf ← load msg ivLen uint64Len
      let hmac ← load msg (ivLen + uint64Len) hmacSize
      let strCiphertextLen ← load msg (ivLen + uint64Len + hmacSize) uint32Len
      let ciphertextLen := atoiUInt32 strCiphertextLen
      let bytes ← load msg (ivLen + uint64Len + hmacSize + uint32Len) ciphertextLen
      if ciphertextLen ≤ ciphertext.length then
        some (.ok (),
          { ctx with
            iv := block 0 16 iv
            timestamp := atolUInt64 buf
            hmac := block 0 32 hmac
            ciphertext := some (write ciphertext 0 bytes)
            ciphertextLen := ciphertextLen })
      else none
  | _, _ => some (.error .utilsTextDeserialize, ctx)

/-- The length of the fields before the ciphertext. -/
def headerLen : Nat := ivLen + uint64Len + hmacSize + uint32Len

/-- The field with the length of the ciphertext. -/
def lengthField (msg : List UInt8) : List UInt8 :=
  (msg.drop (ivLen + uint64Len + hmacSize)).take uint32Len

variable {msg buffer : List UInt8} {ctx : TaCipherCtx}

/-! ## Where it has a result -/

/-- The fields and the ciphertext are in the message, and the ciphertext fits in the buffer. -/
theorem boundedDeserializeMsg_of_le (hbuffer : ctx.ciphertext = some buffer)
    (hmsg : headerLen + atoiUInt32 (lengthField msg) ≤ msg.length)
    (hcap : atoiUInt32 (lengthField msg) ≤ buffer.length) :
    boundedDeserializeMsg (some msg) ctx = some (deserializeMsg (some msg) ctx) := by
  have hload {i n : Nat} (h : i + n ≤ headerLen) : load msg i n = some ((msg.drop i).take n) :=
    load_eq_some_iff.mpr ⟨by omega, rfl⟩
  have hbytes : load msg (ivLen + uint64Len + hmacSize + uint32Len) (atoiUInt32 (lengthField msg)) =
      some ((msg.drop (ivLen + uint64Len + hmacSize + uint32Len)).take
        (atoiUInt32 (lengthField msg))) :=
    load_eq_some_iff.mpr ⟨hmsg, rfl⟩
  have hiv : block 0 16 (msg.take ivLen) = block 0 16 msg := block_take 0 16 msg
  have hhmac : block 0 32 ((msg.drop (ivLen + uint64Len)).take hmacSize) =
      block 0 32 (msg.drop (ivLen + uint64Len)) := block_take 0 32 _
  rw [lengthField] at hbytes hcap
  simp only [boundedDeserializeMsg, hbuffer, hload (show 0 + ivLen ≤ headerLen by decide),
    hload (show ivLen + uint64Len ≤ headerLen by decide),
    hload (show ivLen + uint64Len + hmacSize ≤ headerLen by decide),
    hload (show ivLen + uint64Len + hmacSize + uint32Len ≤ headerLen by decide),
    Option.bind_eq_bind, Option.bind_some, hbytes, if_pos hcap, deserializeMsg, List.drop_drop,
    List.drop_zero, hiv, hhmac]

/-- An access outside has no result. -/
theorem le_of_boundedDeserializeMsg (hbuffer : ctx.ciphertext = some buffer)
    {r : Except Status Unit × TaCipherCtx}
    (h : boundedDeserializeMsg (some msg) ctx = some r) :
    headerLen + atoiUInt32 (lengthField msg) ≤ msg.length ∧
      atoiUInt32 (lengthField msg) ≤ buffer.length := by
  simp only [boundedDeserializeMsg, hbuffer, Option.bind_eq_bind, Option.bind_eq_some_iff,
    load_eq_some_iff] at h
  obtain ⟨_, -, _, -, _, -, _, ⟨-, rfl⟩, _, ⟨hmsg, -⟩, h⟩ := h
  split at h
  case isTrue hcap => exact ⟨hmsg, hcap⟩
  case isFalse hcap => cases h

/-- Where every access is inside, the result is that of `deserializeMsg`. -/
theorem deserializeMsg_of_bounded {msg : Option (List UInt8)} {r : Except Status Unit × TaCipherCtx}
    (h : boundedDeserializeMsg msg ctx = some r) : deserializeMsg msg ctx = r := by
  cases msg with
  | none => exact Option.some.inj h
  | some msg =>
      cases hbuffer : ctx.ciphertext with
      | none =>
          simp only [boundedDeserializeMsg, hbuffer] at h
          simp only [deserializeMsg, hbuffer]
          exact Option.some.inj h
      | some buffer =>
          obtain ⟨hmsg, hcap⟩ := le_of_boundedDeserializeMsg hbuffer h
          rw [boundedDeserializeMsg_of_le hbuffer hmsg hcap] at h
          exact Option.some.inj h

/-- There is no error but for a `NULL`. -/
theorem deserializeMsg_fst (hbuffer : ctx.ciphertext = some buffer) (msg : List UInt8) :
    (deserializeMsg (some msg) ctx).1 = .ok () := by
  simp only [deserializeMsg, hbuffer]

/-! ## Bounds -/

/-- The length is one that has to be refused: it is malformed, negative, larger than what is left
of the message, or larger than the buffer. -/
def BadLength (Malformed : List UInt8 → Prop) (msg buffer : List UInt8) : Prop :=
  Malformed (lengthField msg) ∨ strtol (lengthField msg) < 0 ∨
    (msg.length : Int) - headerLen < strtol (lengthField msg) ∨
    (buffer.length : Int) < strtol (lengthField msg)

/-- No byte outside the message is read and none outside the buffer is written, and a length that
has to be refused is an error. -/
def StaysInside (Malformed : List UInt8 → Prop) (msg buffer : List UInt8) (ctx : TaCipherCtx) :
    Prop :=
  ∃ status ctx', boundedDeserializeMsg (some msg) ctx = some (status, ctx') ∧
    (BadLength Malformed msg buffer → status ≠ .ok ())

/-- A length that is not refused is at least the number that is copied. -/
theorem atoiUInt32_le {text : List UInt8} (h : 0 ≤ strtol text) :
    (atoiUInt32 text : Int) ≤ strtol text := by
  have hmod := Int.bmod_emod (x := strtol text) (m := 2 ^ 32)
  rw [Nat.cast_pow, Nat.cast_ofNat] at hmod
  rw [atoiUInt32, atoi, hmod]
  omega

/-- It stays inside exactly if the message has all its fields and no length that has to be
refused. -/
theorem deserializeMsg_staysInside_iff (Malformed : List UInt8 → Prop) {msg buffer : List UInt8}
    {ctx : TaCipherCtx} (hbuffer : ctx.ciphertext = some buffer) :
    StaysInside Malformed msg buffer ctx ↔
      headerLen ≤ msg.length ∧ ¬ Malformed (lengthField msg) ∧ 0 ≤ strtol (lengthField msg) ∧
        strtol (lengthField msg) ≤ (msg.length : Int) - headerLen ∧
        strtol (lengthField msg) ≤ buffer.length := by
  constructor
  · rintro ⟨status, ctx', hrun, hrefuses⟩
    obtain ⟨hmsg, -⟩ := le_of_boundedDeserializeMsg hbuffer hrun
    have hok : status = .ok () := by
      rw [← deserializeMsg_fst hbuffer msg, deserializeMsg_of_bounded hrun]
    have hgood : ¬ BadLength Malformed msg buffer := fun hbad => hrefuses hbad hok
    rw [BadLength, not_or, not_or, not_or, not_lt, not_lt, not_lt] at hgood
    exact ⟨by omega, hgood⟩
  · rintro ⟨hheader, hwell, hnonneg, hrest, hcap⟩
    have hle := atoiUInt32_le hnonneg
    refine ⟨_, _, boundedDeserializeMsg_of_le hbuffer (by omega) (by omega), fun hbad => ?_⟩
    rcases hbad with hbad | hbad | hbad | hbad
    · exact absurd hbad hwell
    · exact absurd hbad (not_lt.mpr hnonneg)
    · exact absurd hbad (not_lt.mpr hrest)
    · exact absurd hbad (not_lt.mpr hcap)

namespace Sample

/-- A message of one byte with a field for the length. -/
def withLength (field : String) : List UInt8 :=
  List.replicate 68 48 ++ ascii field ++ [7]

end Sample

/-- The length of one byte. -/
theorem deserializeMsg_staysInside_one :
    StaysInside (fun field => field.all isDigit = false) (Sample.withLength "0000000001") [7]
      (Sample.oneByte 0) :=
  (deserializeMsg_staysInside_iff _ rfl).mpr (by decide)

/-- The length `-1` is read as `2 ^ 32 - 1`, and that many bytes are copied. -/
theorem deserializeMsg_not_staysInside :
    atoiUInt32 (lengthField (Sample.withLength "-000000001")) = 2 ^ 32 - 1 ∧
      ¬ StaysInside (fun field => field.all isDigit = false) (Sample.withLength "-000000001") [7]
        (Sample.oneByte 0) := by
  have hlength : atoiUInt32 (lengthField (Sample.withLength "-000000001")) = 2 ^ 32 - 1 := by
    decide
  refine ⟨hlength, ?_⟩
  rintro ⟨status, ctx', hrun, -⟩
  obtain ⟨-, hcap⟩ := le_of_boundedDeserializeMsg rfl hrun
  rw [hlength] at hcap
  exact absurd hcap (by decide)

end TangleAccelerator.Endpoint
