import Mathlib

/-!
# Blocks

Sequences that are written to a buffer, that are cut into blocks of a fixed size, and that are
processed block by block.

* `write` puts a sequence into a buffer.  Writes one after the other are one write (`write_write`).
* `blocks` cuts a sequence into a number of blocks and fills the last ones up.  `join_blocks` says
  what the blocks hold, and `blocks_join` that cutting is the inverse of joining.
* `chain` processes blocks with a state that is carried from one to the next.  Where each step can
  be undone, so can a chain (`Undoes.chain`), and its results determine its blocks
  (`Undoes.chain_injective`).
-/

namespace Bytes

variable {α : Type}

/-! ## Buffers -/

/-- A buffer after a write at an offset. -/
def write (buffer : List α) (i : Nat) (xs : List α) : List α :=
  buffer.take i ++ xs ++ buffer.drop (i + xs.length)

theorem write_zero (buffer xs : List α) : write buffer 0 xs = xs ++ buffer.drop xs.length := by
  rw [write, List.take_zero, List.nil_append, Nat.zero_add]

@[simp] theorem write_zero_nil (buffer : List α) : write buffer 0 [] = buffer := by
  rw [write_zero, List.length_nil, List.drop_zero, List.nil_append]

/-- A write after a write to the start, where that one ended. -/
theorem write_write (buffer xs ys : List α) :
    write (write buffer 0 xs) xs.length ys = write buffer 0 (xs ++ ys) := by
  rw [write_zero, write_zero, write, List.take_left, List.drop_append, List.drop_eq_nil_of_le
    (Nat.le_add_right ..), List.nil_append, List.drop_drop, List.length_append]
  congr 2
  omega

/-- A write to the start hides the ones to the start that were not longer. -/
theorem write_write_zero (buffer xs ys : List α) (h : xs.length ≤ ys.length) :
    write (write buffer 0 xs) 0 ys = write buffer 0 ys := by
  rw [write_zero, write_zero, write_zero, List.drop_append, List.drop_eq_nil_of_le h,
    List.nil_append, List.drop_drop]
  congr 2
  omega

@[simp] theorem take_write_zero (buffer xs : List α) :
    (write buffer 0 xs).take xs.length = xs := by
  rw [write_zero, List.take_left]

/-! ## Cutting into blocks -/

section Cut

variable (z : α) (k : Nat)

/-- The first block of a sequence, filled up with `z`. -/
def block (xs : List α) : Vector α k := Vector.ofFn fun j => xs.getD j z

/-- The first `m` blocks of a sequence. -/
def blocks : Nat → List α → List (Vector α k)
  | 0, _ => []
  | m + 1, xs => block z k xs :: blocks m (xs.drop k)

/-- The elements of blocks. -/
def join {k : Nat} (bs : List (Vector α k)) : List α := bs.flatMap Vector.toList

@[simp] theorem join_nil : join ([] : List (Vector α k)) = [] := rfl

@[simp] theorem join_cons {k : Nat} (b : Vector α k) (bs : List (Vector α k)) :
    join (b :: bs) = b.toList ++ join bs := rfl

@[simp] theorem length_join {k : Nat} (bs : List (Vector α k)) :
    (join bs).length = k * bs.length := by
  induction bs with
  | nil => rfl
  | cons b bs ih =>
      rw [join_cons, List.length_append, Vector.length_toList, ih, List.length_cons]
      ring

@[simp] theorem length_blocks (m : Nat) (xs : List α) : (blocks z k m xs).length = m := by
  induction m generalizing xs with
  | zero => rfl
  | succ m ih => rw [blocks, List.length_cons, ih]

theorem toList_block (xs : List α) :
    (block z k xs).toList = xs.take k ++ List.replicate (k - xs.length) z := by
  refine List.ext_getElem ?_ fun j h₁ h₂ => ?_
  · simp only [Vector.length_toList, List.length_append, List.length_take, List.length_replicate]
    omega
  · simp only [Vector.getElem_toList, block, Vector.getElem_ofFn, List.getElem_append,
      List.getElem_take, List.getElem_replicate, List.length_take]
    rw [Vector.length_toList] at h₁
    split
    case isTrue h => exact List.getD_eq_getElem _ _ (by omega)
    case isFalse h => exact List.getD_eq_default _ _ (by omega)

/-- A block takes no more than its size. -/
theorem block_take (xs : List α) : block z k (xs.take k) = block z k xs := by
  refine Vector.ext fun j hj => ?_
  simp [block, List.getD_eq_getElem?_getD]

/-- The blocks hold the sequence, filled up to their size. -/
theorem join_blocks {m : Nat} {xs : List α} (h : xs.length ≤ k * m) :
    join (blocks z k m xs) = xs ++ List.replicate (k * m - xs.length) z := by
  induction m generalizing xs with
  | zero =>
      obtain rfl := List.length_eq_zero_iff.mp (Nat.le_zero.mp h)
      simp [blocks]
  | succ m ih =>
      have hmul : k * (m + 1) = k * m + k := Nat.mul_succ k m
      have hdrop : (xs.drop k).length ≤ k * m := by
        rw [List.length_drop]
        omega
      rw [blocks, join_cons, toList_block, ih hdrop, List.length_drop]
      rcases Nat.le_total k xs.length with hk | hk
      · rw [Nat.sub_eq_zero_of_le hk, List.replicate_zero, List.append_nil, ← List.append_assoc,
          List.take_append_drop]
        congr 2
        omega
      · rw [List.take_of_length_le hk, List.drop_eq_nil_of_le hk, List.nil_append,
          List.append_assoc, List.replicate_append_replicate]
        congr 2
        omega

/-- The blocks hold the front of a sequence that is longer. -/
theorem join_blocks_of_le {m : Nat} {xs : List α} (h : k * m ≤ xs.length) :
    join (blocks z k m xs) = xs.take (k * m) := by
  induction m generalizing xs with
  | zero => rfl
  | succ m ih =>
      have hmul : k * (m + 1) = k + k * m := by rw [Nat.mul_succ, Nat.add_comm]
      have hdrop : k * m ≤ (xs.drop k).length := by
        rw [List.length_drop]
        omega
      rw [blocks, join_cons, toList_block, ih hdrop, Nat.sub_eq_zero_of_le (by omega),
        List.replicate_zero, List.append_nil, hmul, List.take_add]

theorem block_toList_append {k : Nat} (b : Vector α k) (xs : List α) :
    block z k (b.toList ++ xs) = b := by
  refine Vector.ext fun j hj => ?_
  have hj' : j < b.toList.length := by rwa [Vector.length_toList]
  rw [block, Vector.getElem_ofFn, List.getD_append _ _ _ _ hj', List.getD_eq_getElem _ _ hj',
    Vector.getElem_toList]

theorem blocks_join {k : Nat} (bs : List (Vector α k)) : blocks z k bs.length (join bs) = bs := by
  induction bs with
  | nil => rfl
  | cons b bs ih =>
      have hdrop : (b.toList ++ join bs).drop k = join bs := by
        rw [List.drop_append, Vector.length_toList, Nat.sub_self, List.drop_zero,
          List.drop_eq_nil_of_le (Nat.le_of_eq (Vector.length_toList ..)), List.nil_append]
      rw [join_cons, List.length_cons, blocks, block_toList_append, hdrop, ih]

/-- Joining is injective. -/
theorem join_injective {k : Nat} {bs bs' : List (Vector α k)} (hlength : bs.length = bs'.length)
    (h : join bs = join bs') : bs = bs' := by
  induction bs generalizing bs' with
  | nil => exact (List.length_eq_zero_iff.mp hlength.symm).symm
  | cons b bs ih =>
      obtain ⟨b', bs', rfl⟩ := List.exists_cons_of_length_eq_add_one hlength.symm
      rw [join_cons, join_cons] at h
      obtain ⟨hb, hbs⟩ := List.append_inj h (by rw [Vector.length_toList, Vector.length_toList])
      rw [Vector.toList_inj.mp hb, ih (Nat.succ.inj hlength) hbs]

/-- Sequences that are filled up to one length are the same, if one of them is the other filled
up. -/
theorem append_replicate_eq_iff {xs ys : List α} {m n : Nat}
    (hlength : xs.length + m = ys.length + n) :
    xs ++ List.replicate m z = ys ++ List.replicate n z ↔
      ∃ j, xs = ys ++ List.replicate j z ∨ ys = xs ++ List.replicate j z := by
  constructor
  · intro h
    rcases Nat.le_total xs.length ys.length with hle | hle
    · refine ⟨ys.length - xs.length, Or.inr ?_⟩
      have htake := congrArg (List.take ys.length) h
      rwa [List.take_left, List.take_append, List.take_of_length_le hle, List.take_replicate,
        Nat.min_eq_left (by omega), eq_comm] at htake
    · refine ⟨xs.length - ys.length, Or.inl ?_⟩
      have htake := congrArg (List.take xs.length) h
      rwa [List.take_left, List.take_append, List.take_of_length_le hle, List.take_replicate,
        Nat.min_eq_left (by omega)] at htake
  · rintro ⟨j, rfl | rfl⟩
    · rw [List.length_append, List.length_replicate] at hlength
      rw [List.append_assoc, List.replicate_append_replicate]
      congr 2
      omega
    · rw [List.length_append, List.length_replicate] at hlength
      rw [List.append_assoc, List.replicate_append_replicate]
      congr 2
      omega

end Cut

/-! ## Chains -/

section Chain

variable {S B C : Type}

/-- Process blocks one after the other. -/
def chain (step : S → B → S × C) : S → List B → S × List C
  | s, [] => (s, [])
  | s, b :: bs =>
      ((chain step (step s b).1 bs).1, (step s b).2 :: (chain step (step s b).1 bs).2)

@[simp] theorem length_chain (step : S → B → S × C) (s : S) (bs : List B) :
    (chain step s bs).2.length = bs.length := by
  induction bs generalizing s with
  | nil => rfl
  | cons b bs ih => rw [chain, List.length_cons, List.length_cons, ih]

/-- Each step can be undone, from the state it was made in. -/
def Undoes (step' : S → C → S × B) (step : S → B → S × C) : Prop :=
  ∀ s b, step' s (step s b).2 = ((step s b).1, b)

variable {step : S → B → S × C} {step' : S → C → S × B}

theorem Undoes.chain (h : Undoes step' step) (s : S) (bs : List B) :
    Bytes.chain step' s (Bytes.chain step s bs).2 = ((Bytes.chain step s bs).1, bs) := by
  induction bs generalizing s with
  | nil => rfl
  | cons b bs ih => rw [Bytes.chain, Bytes.chain, h s b, ih]

theorem Undoes.chain_injective (h : Undoes step' step) {s : S} {bs bs' : List B}
    (heq : (Bytes.chain step s bs).2 = (Bytes.chain step s bs').2) : bs = bs' := by
  have hbs := h.chain s bs
  rw [heq, h.chain s bs'] at hbs
  exact (congrArg Prod.snd hbs).symm

end Chain

end Bytes
