import TangleAccelerator.Regex.Basic

/-!
# Searching for a match

What a search in a word has to find: of all the factors that are words of a language, one that
starts first, and of these the longest.

If the whole word is in the language, it is that match.  So the match is as long as the word exactly
if the word is in the language, although the search is not anchored.

`search` is one such search, by derivatives.
-/

namespace Regex

variable {σ α : Type*}

/-- The letters from one position up to another. -/
def factor (w : List α) (i j : Nat) : List α := (w.take j).drop i

@[simp] theorem factor_whole (w : List α) : factor w 0 w.length = w := by simp [factor]

@[simp] theorem factor_succ_succ (a : α) (w : List α) (i j : Nat) :
    factor (a :: w) (i + 1) (j + 1) = factor w i j := rfl

/-- The leftmost longest match, as the positions of its start and its end. -/
def LeftmostLongest (L : Language α) (w : List α) : Option (Nat × Nat) → Prop
  | none => ∀ i j, i ≤ j → j ≤ w.length → factor w i j ∉ L
  | some (so, eo) => so ≤ eo ∧ eo ≤ w.length ∧ factor w so eo ∈ L ∧
      (∀ i j, i < so → i ≤ j → j ≤ w.length → factor w i j ∉ L) ∧
      ∀ j, eo < j → j ≤ w.length → factor w so j ∉ L

/-- The match is as long as the word exactly if the word is in the language. -/
theorem LeftmostLongest.whole_iff {L : Language α} {w : List α} {m : Option (Nat × Nat)}
    (h : LeftmostLongest L w m) :
    (∃ so eo, m = some (so, eo) ∧ eo - so = w.length) ↔ w ∈ L := by
  constructor
  · rintro ⟨so, eo, rfl, hlen⟩
    obtain ⟨hle, hend, hmem, -, -⟩ := h
    obtain ⟨rfl, rfl⟩ : so = 0 ∧ eo = w.length := by omega
    rwa [factor_whole] at hmem
  · intro hw
    cases m with
    | none => exact absurd (by rwa [factor_whole]) (h 0 w.length (Nat.zero_le _) le_rfl)
    | some m =>
      obtain ⟨so, eo⟩ := m
      obtain ⟨hle, hend, -, hleft, hlong⟩ := h
      have hso : so = 0 := by
        by_contra hso
        exact hleft 0 w.length (Nat.pos_of_ne_zero hso) (Nat.zero_le _) le_rfl
          (by rwa [factor_whole])
      subst hso
      have heo : eo = w.length := by
        by_contra heo
        exact hlong w.length (lt_of_le_of_ne hend heo) le_rfl (by rwa [factor_whole])
      exact ⟨0, eo, rfl, by omega⟩

/-- A match one letter later, if there is none at the start. -/
theorem LeftmostLongest.cons {L : Language α} {a : α} {w : List α} {m : Option (Nat × Nat)}
    (hfirst : ∀ j, factor (a :: w) 0 j ∉ L) (h : LeftmostLongest L w m) :
    LeftmostLongest L (a :: w) (m.map fun m => (m.1 + 1, m.2 + 1)) := by
  -- a factor that does not start at the first letter is one of the rest
  have hshift {P : Nat → Nat → Prop} (hrest : ∀ i j, P (i + 1) (j + 1) → i ≤ j → j ≤ w.length →
      factor w i j ∉ L) (i j : Nat) (hP : P i j) (hij : i ≤ j) (hj : j ≤ w.length + 1) :
      factor (a :: w) i j ∉ L := by
    cases i with
    | zero => exact hfirst j
    | succ i =>
      obtain ⟨j, rfl⟩ : ∃ k, j = k + 1 := ⟨j - 1, by omega⟩
      exact hrest i j hP (Nat.le_of_succ_le_succ hij) (Nat.le_of_succ_le_succ hj)
  cases m with
  | none =>
    intro i j
    exact hshift (P := fun _ _ => True) (fun i j _ => h i j) i j trivial
  | some m =>
    obtain ⟨hle, hend, hmem, hleft, hlong⟩ := h
    refine ⟨Nat.succ_le_succ hle, Nat.succ_le_succ hend, hmem, ?_, ?_⟩
    · intro i j hi
      exact hshift (P := fun i _ => i < m.1 + 1) (fun i j hi => hleft i j (by omega)) i j hi
    · intro j hj hj'
      refine hshift (P := fun i j => i = m.1 + 1 ∧ m.2 + 1 < j) ?_ (m.1 + 1) j ⟨rfl, hj⟩
        (by omega) hj'
      rintro i k ⟨hi, hk⟩ _ hk'
      obtain rfl : i = m.1 := by omega
      exact hlong k (by omega) hk'

/-! ## A search by derivatives -/

namespace RE

variable (stands : σ → α → Bool)

/-- The length of the longest match at the start. -/
def longest : RE σ → List α → Option Nat
  | r, [] => if nullable r then some 0 else none
  | r, a :: w =>
      match longest (deriv stands a r) w with
      | some n => some (n + 1)
      | none => if nullable r then some 0 else none

/-- The leftmost longest match. -/
def search (r : RE σ) : List α → Option (Nat × Nat)
  | [] => (longest stands r []).map fun n => (0, n)
  | a :: w =>
      match longest stands r (a :: w) with
      | some n => some (0, n)
      | none => (search r w).map fun m => (m.1 + 1, m.2 + 1)

variable {stands} {r : RE σ} {w : List α}

theorem longest_eq_none (h : longest stands r w = none) (j : Nat) :
    w.take j ∉ lang stands r := by
  induction w generalizing r j with
  | nil =>
    rw [longest] at h
    split at h
    · cases h
    · rename_i hnull
      rwa [List.take_nil, nil_mem_lang_iff]
  | cons a w ih =>
    rw [longest] at h
    split at h
    · cases h
    · rename_i hrest
      split at h
      · cases h
      · rename_i hnull
        cases j with
        | zero => rwa [List.take_zero, nil_mem_lang_iff]
        | succ j =>
          rw [List.take_succ_cons, ← mem_lang_deriv]
          exact ih hrest j

theorem longest_eq_some {n : Nat} (h : longest stands r w = some n) :
    n ≤ w.length ∧ w.take n ∈ lang stands r ∧
      ∀ j, n < j → j ≤ w.length → w.take j ∉ lang stands r := by
  induction w generalizing r n with
  | nil =>
    rw [longest] at h
    split at h
    · rename_i hnull
      cases h
      exact ⟨le_rfl, nil_mem_lang_iff.mpr hnull, fun j hj hj' => absurd hj' (Nat.not_le.mpr hj)⟩
    · cases h
  | cons a w ih =>
    rw [longest] at h
    split at h
    · rename_i k hk
      cases h
      obtain ⟨hle, hmem, hlong⟩ := ih hk
      refine ⟨Nat.succ_le_succ hle, mem_lang_deriv.mp hmem, ?_⟩
      intro j hj hj'
      obtain ⟨j, rfl⟩ : ∃ i, j = i + 1 := ⟨j - 1, by omega⟩
      rw [List.take_succ_cons, ← mem_lang_deriv]
      exact hlong j (by omega) (Nat.le_of_succ_le_succ hj')
    · rename_i hrest
      split at h
      · rename_i hnull
        cases h
        refine ⟨Nat.zero_le _, nil_mem_lang_iff.mpr hnull, ?_⟩
        intro j hj _
        obtain ⟨j, rfl⟩ : ∃ i, j = i + 1 := ⟨j - 1, by omega⟩
        rw [List.take_succ_cons, ← mem_lang_deriv]
        exact longest_eq_none hrest j
      · cases h

/-- A longest match at the start is leftmost. -/
theorem leftmostLongest_of_longest {n : Nat} (h : longest stands r w = some n) :
    LeftmostLongest (lang stands r) w (some (0, n)) := by
  obtain ⟨hle, hmem, hlong⟩ := longest_eq_some h
  exact ⟨Nat.zero_le _, hle, hmem, fun i j hi => absurd hi (Nat.not_lt_zero i), hlong⟩

theorem leftmostLongest_search (r : RE σ) (w : List α) :
    LeftmostLongest (lang stands r) w (search stands r w) := by
  induction w with
  | nil =>
    rw [search]
    cases hlong : longest stands r [] with
    | some n => exact leftmostLongest_of_longest hlong
    | none =>
      intro i j _ hj
      rw [factor, List.take_nil, List.drop_nil]
      exact longest_eq_none hlong 0
  | cons a w ih =>
    rw [search]
    split
    · rename_i n hlong
      exact leftmostLongest_of_longest hlong
    · rename_i hlong
      have hfirst : ∀ j, factor (a :: w) 0 j ∉ lang stands r := longest_eq_none hlong
      exact ih.cons hfirst

end RE

end Regex
