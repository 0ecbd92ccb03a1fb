import Mathlib

/-!
# C strings

Memory as lists of characters, one for each byte, and the texts that C functions read from it and
write to it.

A text ends at the first NUL.  Memory without one holds no text: the read runs past its end.  A
block has a size that no write changes, and a write that is longer than the block has no result.

`strncpy` writes as many characters as it is told to, whatever the length of its source.  It fills
up with NULs where the source is shorter, and writes no NUL where it is not.
-/

namespace CString

/-- The character that ends a text. -/
def nul : Char := '\x00'

/-- No character ends the text early. -/
def NulFree (s : List Char) : Prop := nul ∉ s

instance (s : List Char) : Decidable (NulFree s) := inferInstanceAs (Decidable (_ ∉ _))

/-- The characters up to the first NUL. -/
def text (s : List Char) : List Char := s.takeWhile (· ≠ nul)

/-- The text that memory holds. -/
def read (memory : List Char) : Option (List Char) :=
  if nul ∈ memory then some (text memory) else none

/-- The characters `strncpy` writes for a text. -/
def padded (s : List Char) (n : Nat) : List Char := s.take n ++ List.replicate (n - s.length) nul

/-- Whether `strncmp` finds no difference. -/
def strncmpEq (s t : List Char) (n : Nat) : Bool := text (s.take n) == text (t.take n)

/-- Whether `strncasecmp` finds no difference. -/
def strncasecmpEq (s t : List Char) (n : Nat) : Bool :=
  strncmpEq (s.map Char.toLower) (t.map Char.toLower) n

/-- Memory of a fixed size. -/
@[ext] structure Block (size : Nat) where
  /-- What it holds. -/
  cells : List Char
  length_cells : cells.length = size
deriving DecidableEq

/-! ## Texts -/

section Texts

variable {s memory : List Char} {n : Nat}

theorem text_isPrefix (s : List Char) : text s <+: s := List.takeWhile_prefix _

theorem nulFree_text (s : List Char) : NulFree (text s) := by
  intro h
  have hne := List.mem_takeWhile_imp h
  simp at hne

theorem text_of_nulFree (hs : NulFree s) : text s = s := by
  rw [text, List.takeWhile_eq_self_iff]
  intro c hc
  exact decide_eq_true fun he => hs (he ▸ hc)

/-- A comparison of as many characters as the first text has. -/
theorem strncmpEq_length_iff (hs : NulFree s) (t : List Char) :
    strncmpEq s t s.length = true ↔ s <+: t := by
  rw [strncmpEq, beq_iff_eq, List.take_length, text_of_nulFree hs]
  constructor
  · intro h
    rw [h]
    exact (text_isPrefix _).trans (List.take_prefix _ _)
  · intro h
    rw [← List.prefix_iff_eq_take.mp h, text_of_nulFree hs]

theorem strncasecmpEq_length_iff (hs : NulFree (s.map Char.toLower)) (t : List Char) :
    strncasecmpEq s t s.length = true ↔ s.map Char.toLower <+: t.map Char.toLower := by
  rw [← strncmpEq_length_iff hs, List.length_map, strncasecmpEq]

/-- A text in front of memory is part of what it holds. -/
theorem read_append (hs : NulFree s) : read (s ++ memory) = (read memory).map (s ++ ·) := by
  have hall : ∀ c ∈ s, decide (c ≠ nul) = true := by
    intro c hc
    exact decide_eq_true fun he => hs (he ▸ hc)
  rw [read, read]
  by_cases hmem : nul ∈ memory
  · rw [if_pos hmem, if_pos (List.mem_append_right s hmem), Option.map_some, text, text,
      List.takeWhile_append_of_pos hall]
  · have happend : nul ∉ s ++ memory := by
      rw [List.mem_append, not_or]
      exact ⟨hs, hmem⟩
    rw [if_neg hmem, if_neg happend, Option.map_none]

/-- Memory that starts with a NUL holds the empty text. -/
theorem read_nul_cons (memory : List Char) : read (nul :: memory) = some [] := by
  rw [read, if_pos List.mem_cons_self, text, List.takeWhile_cons_of_neg (by simp)]

/-- A text and a NUL behind it. -/
theorem read_append_nul (hs : NulFree s) : read (s ++ nul :: memory) = some s := by
  rw [read_append hs, read_nul_cons, Option.map_some, List.append_nil]

/-- A text ends at its last character exactly if there is a NUL behind it. -/
theorem read_append_eq_some_iff (hs : NulFree s) :
    read (s ++ memory) = some s ↔ memory.head? = some nul := by
  cases memory with
  | nil => simp [read, NulFree.eq_1 s ▸ hs]
  | cons c memory =>
    by_cases hc : c = nul
    · simp [hc, read_append_nul hs]
    · have hchar : NulFree [c] := fun h => hc (List.mem_singleton.mp h).symm
      rw [read_append hs, ← List.singleton_append, read_append hchar, Option.map_map]
      simp [hc]

@[simp] theorem length_padded (s : List Char) (n : Nat) : (padded s n).length = n := by
  rw [padded, List.length_append, List.length_take, List.length_replicate]
  omega

/-- What is behind the first `n` characters is not written. -/
theorem padded_text_take (s : List Char) (n : Nat) :
    padded (text (s.take n)) n = padded (text s) n := by
  have htake : text (s.take n) = (text s).take n := List.take_takeWhile.symm
  have hpad : n - (List.take n (text s)).length = n - (text s).length := by
    rw [List.length_take]
    omega
  rw [padded, padded, htake, List.take_take, Nat.min_self, hpad]

/-- A short text is ended. -/
theorem read_padded_of_lt (hs : NulFree s) (hn : s.length < n) :
    read (padded s n ++ memory) = some s := by
  obtain ⟨k, rfl⟩ := Nat.exists_eq_add_of_lt hn
  have hpad : s.length + k + 1 - s.length = k + 1 := by omega
  rw [padded, List.take_of_length_le (by omega), hpad, List.replicate_succ, List.append_assoc,
    List.cons_append, read_append_nul hs]

/-- A long text is cut and not ended: what is read goes on behind it. -/
theorem read_padded_of_le (hs : NulFree s) (hn : n ≤ s.length) :
    read (padded s n ++ memory) = (read memory).map (s.take n ++ ·) := by
  have hpad : n - s.length = 0 := by omega
  rw [padded, hpad, List.replicate_zero, List.append_nil,
    read_append fun h => hs (List.mem_of_mem_take h)]

end Texts

/-! ## Blocks -/

namespace Block

variable {size : Nat}

/-- `{0}`, or `memset` with zero. -/
def zero (size : Nat) : Block size := ⟨List.replicate size nul, List.length_replicate⟩

/-- `memcpy` of `n` characters to the front of a block. -/
def memcpy (block : Block size) (src : List Char) (n : Nat) : Option (Block size) :=
  if h : n ≤ src.length ∧ n ≤ size then
    some ⟨src.take n ++ block.cells.drop n, by
      rw [List.length_append, List.length_take, List.length_drop, block.length_cells]
      omega⟩
  else none

/-- `strncpy` of a text to the front of a block. -/
def strncpy (block : Block size) (s : List Char) (n : Nat) : Option (Block size) :=
  block.memcpy (padded s n) n

/-- The assignment of a NUL to a cell. -/
def terminate (block : Block size) (i : Nat) : Option (Block size) :=
  if i < size then
    some ⟨block.cells.set i nul, by rw [List.length_set, block.length_cells]⟩
  else none

/-- A text that leaves room for one NUL. -/
def ofText (s : List Char) (h : s.length + 1 = size) : Block size :=
  ⟨s ++ [nul], by rw [List.length_append, List.length_singleton, h]⟩

theorem memcpy_of_le (block : Block size) {src : List Char} {n : Nat} (hsrc : n ≤ src.length)
    (hn : n ≤ size) :
    ∃ block', block.memcpy src n = some block' ∧ block'.cells = src.take n ++ block.cells.drop n :=
  ⟨_, dif_pos ⟨hsrc, hn⟩, rfl⟩

theorem strncpy_of_le (block : Block size) (s : List Char) {n : Nat} (hn : n ≤ size) :
    ∃ block', block.strncpy s n = some block' ∧
      block'.cells = padded s n ++ block.cells.drop n := by
  obtain ⟨block', hblock, hcells⟩ := block.memcpy_of_le (length_padded s n).ge hn
  rw [List.take_of_length_le (length_padded s n).le] at hcells
  exact ⟨block', hblock, hcells⟩

/-- Where the size is larger than the block, the write goes past the end. -/
theorem strncpy_of_lt (block : Block size) (s : List Char) {n : Nat} (h : size < n) :
    block.strncpy s n = none :=
  dif_neg fun hn => (Nat.not_le.mpr h) hn.2

/-- Where the size is that of the block, all of it is written. -/
theorem strncpy_self (block : Block size) (s : List Char) :
    ∃ block', block.strncpy s size = some block' ∧ block'.cells = padded s size := by
  obtain ⟨block', hblock, hcells⟩ := block.strncpy_of_le s le_rfl
  rw [List.drop_eq_nil_of_le block.length_cells.le, List.append_nil] at hcells
  exact ⟨block', hblock, hcells⟩

/-- Then the text is ended exactly if it is shorter. -/
theorem read_strncpy_self_iff {block block' : Block size} {s t : List Char} (hs : NulFree s)
    (h : block.strncpy s size = some block') :
    read block'.cells = some t ↔ s.length < size ∧ s = t := by
  obtain ⟨_, hblock, hcells⟩ := block.strncpy_self s
  obtain rfl := Option.some.inj (hblock.symm.trans h)
  rw [hcells, ← List.append_nil (padded s size)]
  by_cases hlen : s.length < size
  · rw [read_padded_of_lt hs hlen, Option.some.injEq, and_iff_right hlen]
  · rw [read_padded_of_le hs (Nat.not_lt.mp hlen)]
    simp [read, hlen]

theorem read_ofText {s : List Char} (hs : NulFree s) (h : s.length + 1 = size) :
    read (ofText s h).cells = some s := read_append_nul hs

/-- A copy of all but the last cell, and the NUL behind it. -/
theorem memcpy_bind_terminate (block : Block size) {s rest : List Char} {n : Nat}
    (hs : s.length = n) (h : s.length + 1 = size) :
    ((block.memcpy (s ++ rest) n).bind fun b => b.terminate n) = some (ofText s h) := by
  subst hs
  have hsrc : s.length ≤ (s ++ rest).length := by
    rw [List.length_append]
    omega
  have hlast : (block.cells.drop s.length).length = 1 := by
    rw [List.length_drop, block.length_cells]
    omega
  obtain ⟨c, hc⟩ := List.length_eq_one_iff.mp hlast
  obtain ⟨block', hblock, hcells⟩ := block.memcpy_of_le hsrc (by omega)
  rw [List.take_left, hc] at hcells
  rw [hblock, Option.bind_some, terminate, if_pos (by omega), Option.some.injEq]
  apply Block.ext
  show block'.cells.set s.length nul = s ++ [nul]
  rw [hcells, List.set_append_right _ _ le_rfl, Nat.sub_self, List.set_cons_zero]

end Block

end CString
