import TangleAccelerator.Bytes.Printf
import TangleAccelerator.Endpoint.Seal

/-!
# The nonce

`aes_encrypt` and `aes_decrypt` derive the vector of CBC and the key of the HMAC from a nonce and
the key of the device.  The nonce is the device ID, a dash and the timestamp, in a buffer that has
room for a device ID and a timestamp of full length, but not for the dash.  So the last digit is
lost where both have their full length: `16` characters and `20` digits.

`nonce_eq_iff` says which pairs of a device and a time have the same nonce.  A device ID may hold
dashes and digits, but a timestamp holds no dash, so the last dash tells where the device ID ends.
-/

namespace TangleAccelerator.Endpoint

open Bytes

variable {d d₁ d₂ : List UInt8} {t t₁ t₂ : UInt64}

/-! ## The text -/

/-- The text that is printed. -/
def nonceText (deviceId : List UInt8) (timestamp : Nat) : List UInt8 :=
  deviceId ++ 45 :: decimal timestamp

/-- What is left of a timestamp behind a device ID of full length: its first `19` digits. -/
def kept (timestamp : Nat) : Nat := if 10 ^ 19 ≤ timestamp then timestamp / 10 else timestamp

/-- The timestamp as it is in the nonce. -/
def keptBehind (deviceId : List UInt8) (timestamp : Nat) : Nat :=
  if deviceId.length = imsiLen then kept timestamp else timestamp

theorem length_decimal_timestamp (t : UInt64) : (decimal t.toNat).length ≤ maxTimestampLen :=
  length_decimal_le (by decide) (t.toNat_lt.trans (by decide))

/-- The digits that are kept. -/
theorem take_decimal (t : UInt64) : (decimal t.toNat).take 19 = decimal (kept t.toNat) := by
  have ht := t.toNat_lt
  rw [kept]
  split
  case isTrue h =>
    have hlength : (decimal (t.toNat / 10)).length = 19 := by
      have hle : (decimal (t.toNat / 10)).length ≤ 19 := length_decimal_le (by decide) (by omega)
      have hlt : 18 < (decimal (t.toNat / 10)).length := lt_length_decimal (by omega)
      omega
    rw [decimal_eq_append (by omega), List.take_left' hlength]
  case isFalse h =>
    exact List.take_of_length_le (length_decimal_le (by decide) (Nat.not_le.mp h))

/-- The text that is in the nonce. -/
theorem take_nonceText (hd : d.length ≤ imsiLen) (t : UInt64) :
    (nonceText d t.toNat).take (imsiLen + maxTimestampLen) =
      nonceText d (keptBehind d t.toNat) := by
  rw [keptBehind]
  split
  case isTrue h =>
    have hsplit : imsiLen + maxTimestampLen = d.length + (19 + 1) := by
      rw [h]
      rfl
    rw [nonceText, hsplit, List.take_length_add_append, List.take_succ_cons, take_decimal,
      nonceText]
  case isFalse h =>
    have hlength := length_decimal_timestamp t
    refine List.take_of_length_le ?_
    simp only [nonceText, List.length_append, List.length_cons, imsiLen, maxTimestampLen] at *
    omega

theorem length_nonceText_kept (hd : d.length ≤ imsiLen) (t : UInt64) :
    (nonceText d (keptBehind d t.toNat)).length ≤ imsiLen + maxTimestampLen := by
  rw [← take_nonceText hd]
  exact List.length_take_le _ _

theorem nul_not_mem_nonceText (hd : 0 ∉ d) (n : Nat) : 0 ∉ nonceText d n := by
  rw [nonceText, List.mem_append, List.mem_cons, not_or, not_or]
  refine ⟨hd, by decide, fun hmem => ?_⟩
  cases isDigit_of_mem_decimal hmem

/-- A timestamp holds no dash. -/
theorem dash_decimal_eq {m n : Nat} {xs : List UInt8}
    (h : 45 :: decimal m = xs ++ 45 :: decimal n) : xs = [] ∧ m = n := by
  cases xs with
  | nil => exact ⟨rfl, decimal_injective (List.cons.inj h).2⟩
  | cons c xs =>
      have hmem : 45 ∈ decimal m := by
        rw [(List.cons.inj h).2]
        exact List.mem_append_right _ List.mem_cons_self
      cases isDigit_of_mem_decimal hmem

/-- The last dash separates the device ID from the timestamp. -/
theorem nonceText_inj {m n : Nat} :
    nonceText d₁ m = nonceText d₂ n ↔ d₁ = d₂ ∧ m = n := by
  constructor
  · intro h
    rcases List.append_eq_append_iff.mp h with ⟨xs, hd, hrest⟩ | ⟨xs, hd, hrest⟩
    · obtain ⟨rfl, hn⟩ := dash_decimal_eq hrest
      exact ⟨(hd.trans (List.append_nil d₁)).symm, hn⟩
    · obtain ⟨rfl, hn⟩ := dash_decimal_eq hrest
      exact ⟨hd.trans (List.append_nil d₂), hn.symm⟩
  · rintro ⟨rfl, rfl⟩
    rfl

/-! ## The buffer -/

theorem nonce_eq (hd : d.length ≤ imsiLen) (t : UInt64) :
    nonce d t = nonceText d (keptBehind d t.toNat) ++ List.replicate
      (imsiLen + maxTimestampLen - (nonceText d (keptBehind d t.toNat)).length) 0 := by
  have hlength := congrArg List.length (take_nonceText hd t)
  rw [List.length_take] at hlength
  rw [nonce, toList_block, ← nonceText, take_nonceText hd]
  congr 2
  omega

/-- The nonce is in the buffer that `snprintf` prints to: all of it but the last byte. -/
theorem snprintf_nonce (d : List UInt8) (t : UInt64) (h : (nonceText d t.toNat).length < 2 ^ 31) :
    ∃ m, snprintf (zeroed (imsiLen + maxTimestampLen + 1)) (imsiLen + maxTimestampLen + 1)
        (nonceText d t.toNat) = some (m, (nonceText d t.toNat).length) ∧
      m.take (imsiLen + maxTimestampLen) = (nonce d t).map some :=
  snprintf_zeroed h (imsiLen + maxTimestampLen)

/-- Two nonces are the same exactly for one device ID and one timestamp, as far as it is kept. -/
theorem nonce_eq_iff (h₁ : d₁.length ≤ imsiLen) (hnul₁ : 0 ∉ d₁) (h₂ : d₂.length ≤ imsiLen)
    (hnul₂ : 0 ∉ d₂) :
    nonce d₁ t₁ = nonce d₂ t₂ ↔
      d₁ = d₂ ∧ keptBehind d₁ t₁.toNat = keptBehind d₂ t₂.toNat := by
  have hlen₁ := length_nonceText_kept h₁ t₁
  have hlen₂ := length_nonceText_kept h₂ t₂
  -- Neither text holds a NUL, so neither ends in the zeros behind the other.
  have hpad {xs ys : List UInt8} {j : Nat} (hnul : 0 ∉ xs)
      (h : xs = ys ++ List.replicate j 0) : xs = ys := by
    cases j with
    | zero => simpa using h
    | succ j => exact absurd (by simp [h]) hnul
  rw [← nonceText_inj, nonce_eq h₁, nonce_eq h₂, append_replicate_eq_iff 0 (by omega)]
  constructor
  · rintro ⟨j, h | h⟩
    · exact hpad (nul_not_mem_nonceText hnul₁ _) h
    · exact (hpad (nul_not_mem_nonceText hnul₂ _) h).symm
  · intro h
    exact ⟨0, .inl (by rw [h, List.replicate_zero, List.append_nil])⟩

/-! ## What is derived -/

/-- The bytes SHA-256 is given. -/
def baseData (deviceId : List UInt8) (timestamp : UInt64) (key : Key) : List UInt8 :=
  List.replicate 32 0 ++ nonce deviceId timestamp ++ key.toList

theorem baseDigest_eq (M : Mbedtls) (d : List UInt8) (t : UInt64) (key : Key) :
    baseDigest M d t key = M.sha256 (baseData d t key) := rfl

/-- The vector of CBC and the key of the HMAC. -/
def derived (M : Mbedtls) (deviceId : List UInt8) (timestamp : UInt64) (key : Key) :
    Block × Digest :=
  (foldDigest (baseDigest M deviceId timestamp key), baseDigest M deviceId timestamp key)

/-- `aes_encrypt` uses what is derived. -/
theorem aesEncrypt_derived {M : Mbedtls} {ctx ctx' : TaCipherCtx} {ptrs : Pointers}
    (hcheck : checkCipherCtx ctx = .ok ptrs) (h : aesEncrypt M ctx = (.ok (), ctx')) :
    ctx'.iv = (derived M ptrs.deviceId ctx.timestamp ptrs.key).1 ∧
      ∃ mac, ctx'.hmac = M.hmac (derived M ptrs.deviceId ctx.timestamp ptrs.key).2 mac := by
  simp only [aesEncrypt, hcheck] at h
  split at h
  · cases h
  · cases h
    exact ⟨rfl, _, rfl⟩

/-- So does `aes_decrypt`. -/
theorem aesDecrypt_derived {M : Mbedtls} {ctx ctx' : TaCipherCtx} {ptrs : Pointers}
    (hcheck : checkCipherCtx ctx = .ok ptrs) (h : aesDecrypt M ctx = (.ok (), ctx')) :
    ∃ mac, M.hmac (derived M ptrs.deviceId ctx.timestamp ptrs.key).2 mac = ctx.hmac := by
  simp only [aesDecrypt, hcheck] at h
  split at h
  case isTrue hmac => exact ⟨_, hmac⟩
  case isFalse hmac => cases h

/-- SHA-256 has no collision of two inputs. -/
def Mbedtls.Separates (M : Mbedtls) (x y : List UInt8) : Prop := M.sha256 x = M.sha256 y → x = y

/-- The nonces differ, and so does what is derived from them. -/
def Separated (M : Mbedtls) (key : Key) (d₁ : List UInt8) (t₁ : UInt64) (d₂ : List UInt8)
    (t₂ : UInt64) : Prop :=
  nonce d₁ t₁ ≠ nonce d₂ t₂ ∧ derived M d₁ t₁ key ≠ derived M d₂ t₂ key

theorem separated_iff_nonce_ne (M : Mbedtls) (key : Key)
    (hsha : M.Separates (baseData d₁ t₁ key) (baseData d₂ t₂ key)) :
    Separated M key d₁ t₁ d₂ t₂ ↔ nonce d₁ t₁ ≠ nonce d₂ t₂ := by
  refine ⟨And.left, fun hne => ⟨hne, fun hderived => hne ?_⟩⟩
  have hdigest : M.sha256 (baseData d₁ t₁ key) = M.sha256 (baseData d₂ t₂ key) := by
    rw [← baseDigest_eq, ← baseDigest_eq]
    exact congrArg Prod.snd hderived
  have hdata : baseData d₁ t₁ key = baseData d₂ t₂ key := hsha hdigest
  rw [baseData, baseData, List.append_left_inj, List.append_right_inj] at hdata
  exact hdata

/-- Two devices or times are told apart, unless they are one device with an ID of full length, and
times that have the same digits up to the one that is lost. -/
theorem nonce_separated_iff (M : Mbedtls) (key : Key) (h₁ : d₁.length ≤ imsiLen) (hnul₁ : 0 ∉ d₁)
    (h₂ : d₂.length ≤ imsiLen) (hnul₂ : 0 ∉ d₂) (hne : (d₁, t₁) ≠ (d₂, t₂))
    (hsha : M.Separates (baseData d₁ t₁ key) (baseData d₂ t₂ key)) :
    Separated M key d₁ t₁ d₂ t₂ ↔
      ¬ (d₁ = d₂ ∧ d₁.length = imsiLen ∧ kept t₁.toNat = kept t₂.toNat) := by
  rw [separated_iff_nonce_ne M key hsha, ne_eq, nonce_eq_iff h₁ hnul₁ h₂ hnul₂, not_iff_not]
  constructor
  · rintro ⟨rfl, hkept⟩
    rw [keptBehind, keptBehind] at hkept
    split at hkept
    case isTrue hlength => exact ⟨rfl, hlength, hkept⟩
    case isFalse hlength =>
      rw [UInt64.toNat_inj.mp hkept] at hne
      exact absurd rfl hne
  · rintro ⟨rfl, hlength, hkept⟩
    rw [keptBehind, keptBehind, if_pos hlength, if_pos hlength]
    exact ⟨rfl, hkept⟩

namespace Sample

/-- A library whose digest is the start of the nonce. -/
def reading : Mbedtls := { library with sha256 := fun bytes => block 0 32 (bytes.drop 32) }

/-- A device ID of full length. -/
def imsi : List UInt8 := ascii "4660123456789012"

/-- The key of a device. -/
def deviceKey : Key := Vector.replicate 32 7

end Sample

/-- Two times of a device with a short ID. -/
theorem nonce_separated_short :
    Separated Sample.reading Sample.deviceKey (ascii "device") 1 (ascii "device") 2 := by
  have hsha : Sample.reading.sha256 (baseData (ascii "device") 1 Sample.deviceKey) ≠
      Sample.reading.sha256 (baseData (ascii "device") 2 Sample.deviceKey) := by
    decide
  refine (nonce_separated_iff Sample.reading Sample.deviceKey (by decide) (by decide) (by decide)
    (by decide) (by decide) fun h => absurd h hsha).mpr ?_
  rintro ⟨-, hlength, -⟩
  cases hlength

/-- Two times that differ in their twentieth digit. -/
theorem nonce_not_separated :
    nonce Sample.imsi 10000000000000000000 = nonce Sample.imsi 10000000000000000001 ∧
      ¬ Separated Sample.reading Sample.deviceKey Sample.imsi 10000000000000000000 Sample.imsi
        10000000000000000001 := by
  have hnonce : nonce Sample.imsi 10000000000000000000 =
      nonce Sample.imsi 10000000000000000001 :=
    (nonce_eq_iff (by decide) (by decide) (by decide) (by decide)).mpr ⟨rfl, by decide⟩
  exact ⟨hnonce, fun h => h.1 hnonce⟩

end TangleAccelerator.Endpoint
