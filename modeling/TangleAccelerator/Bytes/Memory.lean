import TangleAccelerator.Bytes.Block

/-!
# Allocated memory

A buffer from the heap, whose size is what was asked for.  A cell that nothing was written to holds
no byte.  A write that leaves the buffer has no result.

`Holds` is the use that is made of a buffer that is filled from its start: it holds what was written
so far, and `holds_store` is one more write at the end of that.
-/

namespace Bytes

/-- The cells of a buffer. -/
abbrev Memory := List (Option UInt8)

/-- `malloc`. -/
def malloc (size : Nat) : Memory := List.replicate size none

/-- `malloc`, and `memset` with zero. -/
def zeroed (size : Nat) : Memory := List.replicate size (some 0)

/-- `realloc`. -/
def realloc (m : Memory) (size : Nat) : Memory :=
  m.take size ++ List.replicate (size - m.length) none

/-- `memcpy` to an offset. -/
def store (m : Memory) (i : Nat) (xs : List UInt8) : Option Memory :=
  if i + xs.length ≤ m.length then some (write m i (xs.map some)) else none

/-- `memcpy` from an offset. -/
def load (xs : List UInt8) (i n : Nat) : Option (List UInt8) :=
  if i + n ≤ xs.length then some ((xs.drop i).take n) else none

/-- A buffer starts with bytes. -/
def Holds (m : Memory) (xs : List UInt8) : Prop := xs.map some <+: m

/-- The text at the start of a buffer, which a NUL ends. -/
def readText : Memory → Option (List UInt8)
  | [] => none
  | none :: _ => none
  | some b :: m => if b = 0 then some [] else (readText m).map (b :: ·)

variable {m m' : Memory} {i size : Nat} {xs : List UInt8}

@[simp] theorem length_malloc (size : Nat) : (malloc size).length = size :=
  List.length_replicate

@[simp] theorem length_zeroed (size : Nat) : (zeroed size).length = size :=
  List.length_replicate

@[simp] theorem length_realloc (m : Memory) (size : Nat) : (realloc m size).length = size := by
  rw [realloc, List.length_append, List.length_take, List.length_replicate]
  omega

theorem load_eq_some_iff {n : Nat} {ys : List UInt8} :
    load xs i n = some ys ↔ i + n ≤ xs.length ∧ ys = (xs.drop i).take n := by
  rw [load]
  split
  case isTrue h => simp [h, eq_comm]
  case isFalse h => simp [h]

theorem store_of_le (h : i + xs.length ≤ m.length) :
    store m i xs = some (write m i (xs.map some)) := if_pos h

theorem store_of_lt (h : m.length < i + xs.length) : store m i xs = none :=
  if_neg (Nat.not_le.mpr h)

theorem length_store (h : store m i xs = some m') : m'.length = m.length := by
  rw [store] at h
  split at h
  · rename_i hle
    cases h
    simp only [write, List.length_append, List.length_take, List.length_map, List.length_drop]
    omega
  · cases h

theorem holds_nil (m : Memory) : Holds m [] := List.nil_prefix

theorem Holds.length_le (h : Holds m xs) : xs.length ≤ m.length := by
  have hle := List.IsPrefix.length_le h
  rwa [List.length_map] at hle

/-- A buffer that is full holds nothing else. -/
theorem Holds.eq_of_length (h : Holds m xs) (hlength : m.length = xs.length) :
    m = xs.map some :=
  (List.IsPrefix.eq_of_length h (by rw [List.length_map, hlength])).symm

/-- A buffer starts with one sequence of a length. -/
theorem Holds.isPrefix {ys : List UInt8} (hxs : Holds m xs) (hys : Holds m ys)
    (h : xs.length ≤ ys.length) : xs <+: ys := by
  have hmap : xs.map some <+: ys.map some :=
    List.prefix_of_prefix_length_le hxs hys (by rwa [List.length_map, List.length_map])
  exact (List.prefix_map_iff_of_injective (Option.some_injective _)).mp hmap

/-- A write where the last one ended. -/
theorem holds_store (h : Holds m xs) (ys : List UInt8) (hle : xs.length + ys.length ≤ m.length) :
    ∃ m', store m xs.length ys = some m' ∧ m'.length = m.length ∧ Holds m' (xs ++ ys) := by
  have hstore := store_of_le hle
  refine ⟨_, hstore, length_store hstore, ?_⟩
  have htake : m.take xs.length = xs.map some := by
    have hprefix := List.prefix_iff_eq_take.mp h
    rw [List.length_map] at hprefix
    exact hprefix.symm
  rw [Holds, write, htake, List.map_append]
  exact List.prefix_append _ _

/-- A write where the last one to the start ended. -/
theorem store_write (m : Memory) (xs ys : List UInt8) (h : xs.length + ys.length ≤ m.length) :
    store (write m 0 (xs.map some)) xs.length ys = some (write m 0 ((xs ++ ys).map some)) := by
  have hlength : (write m 0 (xs.map some)).length = m.length := by
    rw [write_zero, List.length_append, List.length_drop, List.length_map]
    omega
  have hwrite := write_write m (xs.map some) (ys.map some)
  rw [List.length_map] at hwrite
  rw [store_of_le (by omega), hwrite, List.map_append]

/-- A buffer of zeros has a NUL behind what is written to its start. -/
theorem holds_store_zeroed (h : xs.length < size) :
    ∃ m, store (zeroed size) 0 xs = some m ∧ Holds m (xs ++ [0]) := by
  refine ⟨_, store_of_le (by rw [length_zeroed]; omega), ?_⟩
  obtain ⟨k, hk⟩ : ∃ k, size - xs.length = k + 1 := ⟨size - xs.length - 1, by omega⟩
  rw [Holds, write_zero, List.length_map, zeroed, List.drop_replicate, hk, List.map_append]
  exact (List.prefix_append_right_inj _).mpr ⟨List.replicate k (some 0), rfl⟩

/-- Cells that were written can be read. -/
theorem mapM_id_map_some (xs : List UInt8) : (xs.map some).mapM id = some xs := by
  induction xs with
  | nil => rfl
  | cons b xs ih =>
      rw [List.map_cons, List.mapM_cons, ih]
      rfl

/-- A buffer that starts with bytes and a NUL holds them as a text. -/
theorem readText_of_holds (h : Holds m (xs ++ [0])) (hxs : 0 ∉ xs) : readText m = some xs := by
  obtain ⟨rest, rfl⟩ := h
  induction xs with
  | nil => rfl
  | cons b xs ih =>
      have hb : b ≠ 0 := fun he => hxs (he ▸ List.mem_cons_self)
      have hrest := ih fun hmem => hxs (List.mem_cons_of_mem b hmem)
      simp only [List.cons_append, List.map_cons, readText, if_neg hb]
      rw [hrest, Option.map_some]

end Bytes
