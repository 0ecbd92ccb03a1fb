import TangleAccelerator.Bytes.Printf
import TangleAccelerator.Core.Mam
import TangleAccelerator.Loop.While

/-!
# Bytes as trytes

`tryte_byte_conv.c`.  `bytes_to_trytes` writes two characters for each byte, one for each half, and
`trytes_to_bytes` reads them back.

Both loops count with an index of `16` bits.  The length of the first one has `16` bits too, so its
index reaches it.  The length of the second one has `32` bits, and the index grows by two: from
`65534` it wraps around to zero.  So a text of `65536` characters or more is read for ever, which is
the text of `32768` bytes or more.

The text that is written is the one of `TangleAccelerator.bytesToTrytes`, with which the IDs of
pre-shared keys are made.

The buffers the functions write to belong to the caller.  A write past the end of one has no
result, and neither has a read past the end of the input.
-/

namespace TangleAccelerator.TryteByteConv

open Bytes Loop

/-! ## The functions -/

/-- `tryte_alphabet`. -/
def tryteAlphabet : List UInt8 := ascii "9ABCDEFGHIJKLMNOPQRSTUVWXYZ"

/-- The variables of a loop: the index, and the buffer that is written to. -/
structure State where
  i : UInt16
  output : Memory

/-- The loop of `bytes_to_trytes`. -/
def bytesToTrytesLoop (input : List UInt8) (inputLen : UInt16) : While State where
  cond s := s.i < inputLen
  body s := do
    let dec ← input[s.i.toNat]?
    let upper := (dec >>> 4) &&& 15
    let lower := dec &&& 15
    let output ← store s.output (2 * s.i.toNat) [← tryteAlphabet[upper.toNat]?]
    let output ← store output (2 * s.i.toNat + 1) [← tryteAlphabet[lower.toNat]?]
    pure ⟨s.i + 1, output⟩

/-- `bytes_to_trytes`: the buffer after it, if its loop takes at most `fuel` passes. -/
def bytesToTrytes (fuel : Nat) (input : List UInt8) (inputLen : UInt16) (output : Memory) :
    Option Memory :=
  ((bytesToTrytesLoop input inputLen).run fuel ⟨0, output⟩).map State.output

/-- The half of a byte a character stands for. -/
def half (c : UInt8) : UInt8 := if c = 57 then 0 else c - 64

/-- The loop of `trytes_to_bytes`.  The index is compared with a length of `32` bits. -/
def trytesToBytesLoop (input : List UInt8) (inputLen : UInt32) : While State where
  cond s := s.i.toUInt32 < inputLen
  body s := do
    let upper := half (← input[s.i.toNat]?)
    let lower := half (← input[s.i.toNat + 1]?)
    let output ← store s.output (s.i.toNat / 2) [(upper <<< 4) ||| lower]
    pure ⟨s.i + 2, output⟩

/-- `trytes_to_bytes`: the buffer after it, if its loop takes at most `fuel` passes. -/
def trytesToBytes (fuel : Nat) (input : List UInt8) (inputLen : UInt32) (output : Memory) :
    Option Memory :=
  ((trytesToBytesLoop input inputLen).run fuel ⟨0, output⟩).map State.output

/-! ## Characters -/

/-- The character of a tryte. -/
def tryteByte (t : Tryte) : UInt8 := tryteAlphabet.getD t.val 0

/-- The characters of the halves of bytes: `9` and `A` to `O`. -/
def isHalf (c : UInt8) : Bool := c == 57 || (65 ≤ c && c ≤ 79)

/-- The characters of bytes. -/
def text (bs : List UInt8) : List UInt8 := (TangleAccelerator.bytesToTrytes bs).map tryteByte

theorem tryteByte_injective : Function.Injective tryteByte := by
  decide

/-- The characters `bytes_to_trytes` takes for the halves of a byte. -/
theorem getElem?_upper (b : UInt8) : tryteAlphabet[((b >>> 4) &&& 15).toNat]? =
    some (tryteByte (Fin.ofNat 27 (b.toNat / 16))) := by
  revert b
  decide +kernel

theorem getElem?_lower (b : UInt8) : tryteAlphabet[(b &&& 15).toNat]? =
    some (tryteByte (Fin.ofNat 27 (b.toNat % 16))) := by
  revert b
  decide +kernel

/-- The characters of the halves of a byte give it back. -/
theorem half_or_half (b : UInt8) :
    (half (tryteByte (Fin.ofNat 27 (b.toNat / 16))) <<< 4) |||
      half (tryteByte (Fin.ofNat 27 (b.toNat % 16))) = b := by
  revert b
  decide +kernel

theorem isHalf_tryteByte {n : Nat} (h : n < 16) : isHalf (tryteByte (Fin.ofNat 27 n)) = true := by
  revert n
  decide

/-! ## Texts -/

theorem text_cons (b : UInt8) (bs : List UInt8) :
    text (b :: bs) = tryteByte (Fin.ofNat 27 (b.toNat / 16)) ::
      tryteByte (Fin.ofNat 27 (b.toNat % 16)) :: text bs := rfl

theorem text_append (bs bs' : List UInt8) : text (bs ++ bs') = text bs ++ text bs' := by
  induction bs with
  | nil => rfl
  | cons b bs ih => simp only [List.cons_append, text_cons, ih]

@[simp] theorem length_text (bs : List UInt8) : (text bs).length = 2 * bs.length := by
  induction bs with
  | nil => rfl
  | cons b bs ih =>
      simp only [text_cons, List.length_cons, ih]
      omega

theorem isHalf_of_mem_text {bs : List UInt8} {c : UInt8} (hc : c ∈ text bs) :
    isHalf c = true := by
  induction bs with
  | nil => cases hc
  | cons b bs ih =>
      simp only [text_cons, List.mem_cons] at hc
      rcases hc with rfl | rfl | hc
      · exact isHalf_tryteByte (Nat.div_lt_of_lt_mul b.toNat_lt)
      · exact isHalf_tryteByte (Nat.mod_lt _ (by omega))
      · exact ih hc

/-- The two characters of a byte. -/
theorem getElem?_text {bs : List UInt8} {k : Nat} {b : UInt8} (h : bs[k]? = some b) :
    (text bs)[2 * k]? = some (tryteByte (Fin.ofNat 27 (b.toNat / 16))) ∧
      (text bs)[2 * k + 1]? = some (tryteByte (Fin.ofNat 27 (b.toNat % 16))) := by
  induction bs generalizing k with
  | nil => cases h
  | cons b' bs ih =>
      cases k with
      | zero =>
          cases h
          exact ⟨rfl, rfl⟩
      | succ k => exact ih h

/-! ## Writing -/

theorem bytesToTrytesLoop_cond (input : List UInt8) (inputLen : UInt16) (s : State) :
    (bytesToTrytesLoop input inputLen).cond s = decide (s.i.toNat < inputLen.toNat) :=
  decide_eq_decide.mpr UInt16.lt_iff_toNat_lt

/-- One pass of `bytes_to_trytes`. -/
theorem bytesToTrytesLoop_body {input : List UInt8} {inputLen : UInt16} {output : Memory}
    (hlen : 2 * input.length ≤ output.length) {s : State} (hi : s.i.toNat < input.length)
    (hs : s.output = write output 0 ((text (input.take s.i.toNat)).map some)) :
    (bytesToTrytesLoop input inputLen).body s =
      some ⟨s.i + 1, write output 0 ((text (input.take (s.i.toNat + 1))).map some)⟩ := by
  obtain ⟨b, hb⟩ : ∃ b, input[s.i.toNat]? = some b := ⟨_, List.getElem?_eq_getElem hi⟩
  have htake : input.take (s.i.toNat + 1) = input.take s.i.toNat ++ [b] := by
    rw [List.take_add_one, hb, Option.toList_some]
  have hlength : (text (input.take s.i.toNat)).length = 2 * s.i.toNat := by
    rw [length_text, List.length_take_of_le hi.le]
  have hupper := store_write output (text (input.take s.i.toNat))
    [tryteByte (Fin.ofNat 27 (b.toNat / 16))] (by simp [hlength]; omega)
  have hlower := store_write output
    (text (input.take s.i.toNat) ++ [tryteByte (Fin.ofNat 27 (b.toNat / 16))])
    [tryteByte (Fin.ofNat 27 (b.toNat % 16))] (by simp [hlength]; omega)
  rw [List.length_append, List.length_singleton, hlength] at hlower
  rw [hlength] at hupper
  show (input[s.i.toNat]?.bind fun dec =>
    tryteAlphabet[((dec >>> 4) &&& 15).toNat]?.bind fun upper =>
    (store s.output (2 * s.i.toNat) [upper]).bind fun output =>
    tryteAlphabet[(dec &&& 15).toNat]?.bind fun lower =>
    (store output (2 * s.i.toNat + 1) [lower]).bind fun output =>
    some (State.mk (s.i + 1) output)) = _
  rw [hb, Option.bind_some, getElem?_upper, Option.bind_some, hs, hupper, Option.bind_some,
    getElem?_lower, Option.bind_some, hlower, Option.bind_some, htake, text_append,
    List.append_assoc]
  rfl

/-- `bytes_to_trytes` writes the text of its input and nothing else. -/
theorem bytesToTrytes_eq {input : List UInt8} (hinput : input.length ≤ 65535) {output : Memory}
    (hlen : 2 * input.length ≤ output.length) :
    ∃ fuel, bytesToTrytes fuel input (UInt16.ofNat input.length) output =
      some (write output 0 ((text input).map some)) := by
  have hofNat : (UInt16.ofNat input.length).toNat = input.length :=
    UInt16.toNat_ofNat_of_lt' (Nat.lt_succ_of_le hinput)
  -- before pass `k` the index is `k`, and the text of the first `k` bytes is written
  obtain ⟨t, ⟨fuel, hrun⟩, -, ht⟩ := While.ends_of_count (n := input.length)
    (L := bytesToTrytesLoop input (UInt16.ofNat input.length)) (s := ⟨0, output⟩)
    (I := fun k s => s.i.toNat = k ∧ s.output = write output 0 ((text (input.take k)).map some))
    ⟨rfl, (write_zero_nil output).symm⟩
    (by
      rintro k s hk ⟨rfl, hs⟩
      refine ⟨?_, _, bytesToTrytesLoop_body hlen hk hs, ?_, rfl⟩
      · rw [bytesToTrytesLoop_cond, hofNat, decide_eq_true hk]
      · simp only [UInt16.toNat_add, UInt16.toNat_one]
        omega)
    (by
      rintro s ⟨hi, -⟩
      rw [bytesToTrytesLoop_cond, hofNat, hi, decide_eq_false (Nat.lt_irrefl _)])
  rw [List.take_length] at ht
  exact ⟨fuel, by rw [bytesToTrytes, hrun, Option.map_some, ht]⟩

/-! ## Reading -/

theorem trytesToBytesLoop_cond (input : List UInt8) (inputLen : UInt32) (s : State) :
    (trytesToBytesLoop input inputLen).cond s = decide (s.i.toNat < inputLen.toNat) :=
  decide_eq_decide.mpr (by rw [UInt32.lt_iff_toNat_lt, UInt16.toNat_toUInt32])

/-- One pass of `trytes_to_bytes`. -/
theorem trytesToBytesLoop_body {bs : List UInt8} {inputLen : UInt32} {output : Memory}
    (hlen : bs.length ≤ output.length) {s : State} {k : Nat} (hi : s.i.toNat = 2 * k)
    (hk : k < bs.length) (hs : s.output = write output 0 ((bs.take k).map some)) :
    (trytesToBytesLoop (text bs) inputLen).body s =
      some ⟨s.i + 2, write output 0 ((bs.take (k + 1)).map some)⟩ := by
  obtain ⟨b, hb⟩ : ∃ b, bs[k]? = some b := ⟨_, List.getElem?_eq_getElem hk⟩
  obtain ⟨hupper, hlower⟩ := getElem?_text hb
  have htake : bs.take (k + 1) = bs.take k ++ [b] := by
    rw [List.take_add_one, hb, Option.toList_some]
  have hlength : (bs.take k).length = k := List.length_take_of_le hk.le
  have hstore := store_write output (bs.take k) [b] (by simp; omega)
  rw [hlength] at hstore
  show ((text bs)[s.i.toNat]?.bind fun upper => (text bs)[s.i.toNat + 1]?.bind fun lower =>
    (store s.output (s.i.toNat / 2) [(half upper <<< 4) ||| half lower]).bind fun output =>
    some (State.mk (s.i + 2) output)) = _
  rw [hi, hupper, Option.bind_some, hlower, Option.bind_some, half_or_half, hs,
    Nat.mul_div_cancel_left k (by omega), hstore, Option.bind_some, htake]

/-- A text of fewer than `65536` characters is read back. -/
theorem trytesToBytes_eq {bs : List UInt8} (hbs : bs.length < 32768) {output : Memory}
    (hlen : bs.length ≤ output.length) :
    ∃ fuel, trytesToBytes fuel (text bs) (UInt32.ofNat (2 * bs.length)) output =
      some (write output 0 (bs.map some)) := by
  have hofNat : (UInt32.ofNat (2 * bs.length)).toNat = 2 * bs.length :=
    UInt32.toNat_ofNat_of_lt' (by simp [UInt32.size]; omega)
  -- before pass `k` the index is `2 * k`, which does not wrap, and `k` bytes are written
  obtain ⟨t, ⟨fuel, hrun⟩, -, ht⟩ := While.ends_of_count (n := bs.length)
    (L := trytesToBytesLoop (text bs) (UInt32.ofNat (2 * bs.length))) (s := ⟨0, output⟩)
    (I := fun k s => s.i.toNat = 2 * k ∧ s.output = write output 0 ((bs.take k).map some))
    ⟨rfl, (write_zero_nil output).symm⟩
    (by
      rintro k s hk ⟨hi, hs⟩
      refine ⟨?_, _, trytesToBytesLoop_body hlen hi hk hs, ?_, rfl⟩
      · rw [trytesToBytesLoop_cond, hofNat, hi, decide_eq_true (by omega)]
      · simp only [UInt16.toNat_add, hi, UInt16.reduceToNat]
        omega)
    (by
      rintro s ⟨hi, -⟩
      rw [trytesToBytesLoop_cond, hofNat, hi, decide_eq_false (Nat.lt_irrefl _)])
  rw [List.take_length] at ht
  exact ⟨fuel, by rw [trytesToBytes, hrun, Option.map_some, ht]⟩

/-- An index of `16` bits never reaches a length of `65536` or more. -/
theorem trytesToBytes_not_ends {input : List UInt8} {inputLen : UInt32}
    (hlen : 65536 ≤ inputLen.toNat) (output : Memory) (fuel : Nat) :
    trytesToBytes fuel input inputLen output = none := by
  have hcond (s : State) : (trytesToBytesLoop input inputLen).cond s = true := by
    have hi := s.i.toNat_lt
    rw [trytesToBytesLoop_cond, decide_eq_true (by omega)]
  rw [trytesToBytes, Option.map_eq_none_iff, Option.eq_none_iff_forall_not_mem]
  intro t ht
  exact While.not_ends (I := fun _ => True) trivial (fun s _ => hcond s)
    (fun _ _ _ _ => trivial) t ⟨fuel, ht⟩

/-! ## The round trip -/

/-- Bytes are written as characters of halves, two for each, and reading these ends with the
bytes. -/
def RoundTrips (bs : List UInt8) (enc dec : Memory) : Prop :=
  ∃ trytes, (∃ fuel, bytesToTrytes fuel bs (UInt16.ofNat bs.length) enc =
      some (write enc 0 (trytes.map some))) ∧
    trytes.length = 2 * bs.length ∧ (∀ c ∈ trytes, isHalf c = true) ∧
    ∃ fuel, trytesToBytes fuel trytes (UInt32.ofNat trytes.length) dec =
      some (write dec 0 (bs.map some))

theorem roundTrips_of_lt {bs : List UInt8} (hbs : bs.length < 32768) {enc dec : Memory}
    (henc : 2 * bs.length ≤ enc.length) (hdec : bs.length ≤ dec.length) :
    RoundTrips bs enc dec := by
  refine ⟨text bs, bytesToTrytes_eq (by omega) henc, length_text bs,
    fun c hc => isHalf_of_mem_text hc, ?_⟩
  rw [length_text]
  exact trytesToBytes_eq hbs hdec

theorem not_roundTrips_of_le {bs : List UInt8} (hbs : 32768 ≤ bs.length)
    (hrange : bs.length ≤ 65535) (enc dec : Memory) : ¬ RoundTrips bs enc dec := by
  rintro ⟨trytes, -, hlength, -, fuel, hread⟩
  have hofNat : (UInt32.ofNat trytes.length).toNat = trytes.length :=
    UInt32.toNat_ofNat_of_lt' (by simp [UInt32.size]; omega)
  rw [trytesToBytes_not_ends (by omega)] at hread
  cases hread

/-- Bytes survive the way through trytes exactly if there are fewer than `32768` of them. -/
theorem bytesToTrytes_roundTrips_iff {bs : List UInt8} (hrange : bs.length ≤ 65535)
    {enc dec : Memory} (henc : 2 * bs.length ≤ enc.length) (hdec : bs.length ≤ dec.length) :
    RoundTrips bs enc dec ↔ bs.length < 32768 := by
  constructor
  · intro h
    by_contra hbs
    exact not_roundTrips_of_le (Nat.not_lt.mp hbs) hrange enc dec h
  · intro hbs
    exact roundTrips_of_lt hbs henc hdec

/-- Two bytes, in buffers of the right size. -/
theorem bytesToTrytes_roundTrips_two :
    RoundTrips [0, 255] (malloc 4) (malloc 2) ∧ ([0, 255] : List UInt8).length < 32768 :=
  ⟨(bytesToTrytes_roundTrips_iff (by decide) (by decide) (by decide)).mpr (by decide), by decide⟩

/-- The text of `32768` bytes is read for ever. -/
theorem trytesToBytes_not_roundTrips :
    ¬ RoundTrips (List.replicate 32768 0) (malloc 65536) (malloc 32768) :=
  not_roundTrips_of_le (by rw [List.length_replicate]) (by rw [List.length_replicate]; omega) _ _

end TangleAccelerator.TryteByteConv
