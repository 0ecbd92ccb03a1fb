import TangleAccelerator.Bytes.Memory

/-!
# The certificate file

`read_ca_pem` of `config.c`, which reads a file byte by byte into a buffer that is to grow.

`fgetc` returns a byte, or `EOF`, as an `int`, and the loop keeps it in a `char`, which is signed.
There the byte `0xFF` is `EOF`, and the file ends before it.  The first call of `realloc` asks for
the size that the buffer has, and the next byte is written behind it; so is the NUL, if the file
ends there.
-/

namespace TangleAccelerator.Config

open Bytes

/-- `CA_BUFFER_SIZE`. -/
def caBufferSize : Nat := 2048

/-- `EOF`. -/
def eof : Int := -1

/-- The loop of `read_ca_pem` over the bytes that are left, with the buffer and its index at the
end.  Nothing is returned where it writes outside the buffer. -/
def readLoop (caPem : Memory) (i bufferNums : Nat) : List UInt8 → Option (Memory × Nat)
  | [] => some (caPem, i)
  | byte :: file =>
      let c : Int8 := byte.toInt8
      if c.toInt = eof then some (caPem, i)
      else do
        let caPem ← store caPem i [c.toUInt8]
        if i + 1 < caBufferSize then readLoop caPem (i + 1) bufferNums file
        else readLoop (realloc caPem (bufferNums * caBufferSize)) (i + 1) (bufferNums + 1) file

/-- `read_ca_pem` of a file that can be opened. -/
def readCaPem (file : List UInt8) : Option Memory := do
  let (caPem, i) ← readLoop (malloc caBufferSize) 0 1 file
  store caPem i [0]

/-- The buffer holds the whole file and a NUL, and nothing was written outside of it. -/
def ReadsWhole (file : List UInt8) : Prop :=
  ∃ caPem, readCaPem file = some caPem ∧ Holds caPem (file ++ [0])

/-! ## The loop -/

theorem toInt8_eq_eof_iff (byte : UInt8) : byte.toInt8.toInt = eof ↔ byte = 255 := by
  rw [eof]
  constructor
  · intro h
    have hInt8 : byte.toInt8 = -1 := Int8.toInt.inj h
    have hbyte := congrArg Int8.toUInt8 hInt8
    rwa [UInt8.toUInt8_toInt8] at hbyte
  · rintro rfl
    decide

/-- The bytes before the first `0xFF`. -/
def untilEof (file : List UInt8) : List UInt8 := file.takeWhile (· ≠ 255)

@[simp] theorem untilEof_nil : untilEof [] = [] := rfl

@[simp] theorem untilEof_eof (file : List UInt8) : untilEof (255 :: file) = [] := rfl

theorem untilEof_cons {byte : UInt8} (h : byte ≠ 255) (file : List UInt8) :
    untilEof (byte :: file) = byte :: untilEof file :=
  List.takeWhile_cons_of_pos (decide_eq_true h)

theorem untilEof_cases (file : List UInt8) :
    untilEof file = file ∨ ∃ rest, file = untilEof file ++ 255 :: rest := by
  induction file with
  | nil => exact Or.inl rfl
  | cons byte file ih =>
      by_cases hbyte : byte = 255
      · rw [hbyte]
        exact Or.inr ⟨file, rfl⟩
      · rw [untilEof_cons hbyte]
        rcases ih with hself | ⟨rest, hfile⟩
        · exact Or.inl (congrArg (byte :: ·) hself)
        · exact Or.inr ⟨rest, congrArg (byte :: ·) hfile⟩

variable {caPem : Memory} {i bufferNums : Nat}

theorem readLoop_eof (file : List UInt8) :
    readLoop caPem i bufferNums (255 :: file) = some (caPem, i) := by
  rw [readLoop, if_pos ((toInt8_eq_eof_iff 255).mpr rfl)]

theorem readLoop_cons {byte : UInt8} (h : byte ≠ 255) (file : List UInt8) :
    readLoop caPem i bufferNums (byte :: file) = (store caPem i [byte]).bind fun caPem =>
      if i + 1 < caBufferSize then readLoop caPem (i + 1) bufferNums file
      else readLoop (realloc caPem (bufferNums * caBufferSize)) (i + 1) (bufferNums + 1) file := by
  rw [readLoop, if_neg (mt (toInt8_eq_eof_iff byte).mp h), UInt8.toUInt8_toInt8]
  rfl

/-- What fits in the buffer together with a NUL is read. -/
theorem readLoop_of_lt {file : List UInt8} (bufferNums : Nat) :
    ∀ {caPem : Memory} {read : List UInt8}, caPem.length = caBufferSize → Holds caPem read →
    (read ++ untilEof file).length < caBufferSize →
      ∃ caPem', readLoop caPem read.length bufferNums file =
          some (caPem', (read ++ untilEof file).length) ∧
        caPem'.length = caBufferSize ∧ Holds caPem' (read ++ untilEof file) := by
  induction file with
  | nil =>
      intro caPem read hlength hread _
      rw [untilEof_nil, List.append_nil]
      exact ⟨caPem, rfl, hlength, hread⟩
  | cons byte file ih =>
      intro caPem read hlength hread hfits
      by_cases hbyte : byte = 255
      · rw [hbyte, untilEof_eof, List.append_nil]
        exact ⟨caPem, readLoop_eof file, hlength, hread⟩
      · rw [untilEof_cons hbyte, List.append_cons] at hfits ⊢
        have hlen : (read ++ [byte]).length = read.length + 1 := List.length_append
        have hroom : read.length + 1 < caBufferSize := by
          rw [List.length_append, hlen] at hfits
          omega
        obtain ⟨next, hstore, hnext, hholds⟩ := holds_store hread [byte] (by
          rw [hlength, List.length_singleton]
          exact hroom.le)
        have hrest := ih (hnext.trans hlength) hholds hfits
        rwa [readLoop_cons hbyte, hstore, Option.bind_some, if_pos hroom, ← hlen]

/-- The first `realloc` leaves the size as it was, and nothing can be written behind it. -/
theorem store_of_readLoop_full (hlength : caPem.length = caBufferSize) (file : List UInt8) :
    ((readLoop caPem caBufferSize bufferNums file).bind fun r => store r.1 r.2 [0]) = none := by
  have hfull : ∀ byte, store caPem caBufferSize [byte] = none := fun byte =>
    store_of_lt (by rw [hlength, List.length_singleton]; exact Nat.lt_succ_self _)
  cases file with
  | nil => exact hfull 0
  | cons byte file =>
      by_cases hbyte : byte = 255
      · rw [hbyte, readLoop_eof]
        exact hfull 0
      · rw [readLoop_cons hbyte, hfull]
        rfl

/-- What does not fit is written outside. -/
theorem store_of_readLoop_of_le {file : List UInt8} : ∀ {caPem : Memory} {i : Nat},
    caPem.length = caBufferSize → i < caBufferSize → caBufferSize ≤ i + (untilEof file).length →
      ((readLoop caPem i 1 file).bind fun r => store r.1 r.2 [0]) = none := by
  induction file with
  | nil =>
      intro caPem i _ hi hle
      rw [untilEof_nil] at hle
      exact absurd hi (Nat.not_lt.mpr hle)
  | cons byte file ih =>
      intro caPem i hlength hi hle
      by_cases hbyte : byte = 255
      · rw [hbyte, untilEof_eof] at hle
        exact absurd hi (Nat.not_lt.mpr hle)
      · rw [untilEof_cons hbyte, List.length_cons] at hle
        have hstore := store_of_le (show i + [byte].length ≤ caPem.length by
          rw [hlength]
          exact hi)
        have hnext := (length_store hstore).trans hlength
        rw [readLoop_cons hbyte, hstore, Option.bind_some]
        split
        · rename_i hroom
          exact ih hnext hroom (by omega)
        · rename_i hfull
          rw [show i + 1 = caBufferSize by omega, Nat.one_mul]
          exact store_of_readLoop_full (length_realloc _ _) file

/-! ## The file -/

theorem readCaPem_of_lt {file : List UInt8} (h : (untilEof file).length < caBufferSize) :
    ∃ caPem, readCaPem file = some caPem ∧ Holds caPem (untilEof file ++ [0]) := by
  obtain ⟨caPem, hloop, hlength, hholds⟩ :=
    readLoop_of_lt 1 (length_malloc caBufferSize) (holds_nil _) h
  rw [List.nil_append] at hloop hholds
  obtain ⟨caPem', hstore, -, hholds'⟩ := holds_store hholds [0] (by
    rw [hlength, List.length_singleton]
    exact h)
  refine ⟨caPem', ?_, hholds'⟩
  rw [readCaPem]
  simp only [Option.bind_eq_bind, List.length_nil] at hloop ⊢
  rw [hloop, Option.bind_some, hstore]

theorem readCaPem_of_le {file : List UInt8} (h : caBufferSize ≤ (untilEof file).length) :
    readCaPem file = none :=
  store_of_readLoop_of_le (length_malloc caBufferSize) (by decide) (by rwa [Nat.zero_add])

theorem untilEof_eq_self_iff (file : List UInt8) : untilEof file = file ↔ 255 ∉ file := by
  rw [untilEof, List.takeWhile_eq_self_iff]
  constructor
  · intro h hmem
    exact absurd (h 255 hmem) (by decide)
  · intro h byte hbyte
    exact decide_eq_true fun he => h (he ▸ hbyte)

/-- A file is read as a whole exactly if it is shorter than the buffer and has no byte `0xFF`. -/
theorem readCaPem_readsWhole_iff (file : List UInt8) :
    ReadsWhole file ↔ file.length < caBufferSize ∧ 255 ∉ file := by
  constructor
  · rintro ⟨caPem, hread, hholds⟩
    have hshort : (untilEof file).length < caBufferSize := by
      by_contra hlong
      rw [readCaPem_of_le (Nat.not_lt.mp hlong)] at hread
      cases hread
    obtain ⟨caPem', hread', huntil⟩ := readCaPem_of_lt hshort
    obtain rfl : caPem = caPem' := Option.some.inj (hread.symm.trans hread')
    have hself : untilEof file = file := by
      rcases untilEof_cases file with hself | ⟨rest, hfile⟩
      · exact hself
      · -- the NUL stands where the file has its first `0xFF`
        have hle : (untilEof file ++ [0]).length ≤ (file ++ [0]).length := by
          rw [List.length_append, List.length_append]
          exact Nat.add_le_add_right (List.takeWhile_prefix _).length_le _
        have hsplit : file ++ [0] = untilEof file ++ 255 :: (rest ++ [0]) := by
          conv_lhs => rw [hfile]
          rw [List.append_assoc, List.cons_append]
        have hprefix := huntil.isPrefix hholds hle
        rw [hsplit, List.prefix_append_right_inj, List.cons_prefix_cons] at hprefix
        exact absurd hprefix.1 (by decide)
    rw [hself] at hshort
    exact ⟨hshort, (untilEof_eq_self_iff file).mp hself⟩
  · rintro ⟨hshort, hfree⟩
    have hself := (untilEof_eq_self_iff file).mpr hfree
    have hread := readCaPem_of_lt (show (untilEof file).length < caBufferSize by rwa [hself])
    rwa [hself] at hread

/-- A file of as many bytes as the buffer has cells is written outside of it, and a file ends before
its byte `0xFF`. -/
theorem readCaPem_not_readsWhole :
    ¬ReadsWhole (List.replicate 2048 65) ∧ ¬ReadsWhole [65, 255, 66] := by
  constructor
  · rintro ⟨caPem, hread, -⟩
    have hfree : 255 ∉ List.replicate 2048 (65 : UInt8) := by
      rw [List.mem_replicate]
      decide
    have hlong : caBufferSize ≤ (untilEof (List.replicate 2048 65)).length := by
      rw [(untilEof_eq_self_iff _).mpr hfree, List.length_replicate]
      exact le_rfl
    rw [readCaPem_of_le hlong] at hread
    cases hread
  · rintro ⟨caPem, hread, hholds⟩
    obtain ⟨caPem', hread', huntil⟩ := readCaPem_of_lt (show (untilEof [65, 255, 66]).length <
      caBufferSize by decide)
    obtain rfl : caPem = caPem' := Option.some.inj (hread.symm.trans hread')
    have hprefix := huntil.isPrefix hholds (by decide)
    exact absurd hprefix (by decide)

end TangleAccelerator.Config
