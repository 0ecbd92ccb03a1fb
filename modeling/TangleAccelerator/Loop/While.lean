import Mathlib

/-!
# While loops

A loop is a condition and a body over the states of its variables.  The body has no result where it
is undefined, and then the loop has none either.  Whether a loop ends is a property of the loop and
of the state it starts from (`Ends`).

There are two rules.  `ends_of_count` is for a loop whose passes are counted: an invariant that
mentions the number of passes leads to the state after the last one.  `not_ends` is for a loop that
goes on for ever: an invariant that implies the condition.
-/

namespace Loop

/-- A loop. -/
structure While (σ : Type) where
  cond : σ → Bool
  body : σ → Option σ

namespace While

variable {σ : Type} (L : While σ) {s t : σ}

/-- The state after the loop, if it takes at most `fuel` passes. -/
def run : Nat → σ → Option σ
  | 0, s => if L.cond s then none else some s
  | fuel + 1, s => if L.cond s then (L.body s).bind (run fuel) else some s

/-- The loop ends. -/
def Ends (s t : σ) : Prop := ∃ fuel, L.run fuel s = some t

variable {L}

theorem run_of_not_cond (h : L.cond s = false) (fuel : Nat) : L.run fuel s = some s := by
  cases fuel <;> simp [run, h]

theorem run_succ_of_cond (h : L.cond s = true) (fuel : Nat) :
    L.run (fuel + 1) s = (L.body s).bind (L.run fuel) := by
  rw [run, if_pos h]

/-- A loop of `n` passes, from the state before pass `k`. -/
theorem run_of_count {I : Nat → σ → Prop} {n : Nat}
    (hstep : ∀ k s, k < n → I k s →
      L.cond s = true ∧ ∃ s', L.body s = some s' ∧ I (k + 1) s')
    (hlast : ∀ s, I n s → L.cond s = false) {k fuel : Nat} (hk : k + fuel = n) (h : I k s) :
    ∃ t, L.run fuel s = some t ∧ I n t := by
  induction fuel generalizing k s with
  | zero =>
      obtain rfl : k = n := by omega
      exact ⟨s, run_of_not_cond (hlast s h) 0, h⟩
  | succ fuel ih =>
      obtain ⟨hcond, s', hbody, hs'⟩ := hstep k s (by omega) h
      obtain ⟨t, hrun, ht⟩ := ih (by omega) hs'
      refine ⟨t, ?_, ht⟩
      rw [run_succ_of_cond hcond, hbody, Option.bind_some, hrun]

/-- A loop of `n` passes ends. -/
theorem ends_of_count {I : Nat → σ → Prop} {n : Nat} (h : I 0 s)
    (hstep : ∀ k s, k < n → I k s →
      L.cond s = true ∧ ∃ s', L.body s = some s' ∧ I (k + 1) s')
    (hlast : ∀ s, I n s → L.cond s = false) : ∃ t, L.Ends s t ∧ I n t := by
  obtain ⟨t, hrun, ht⟩ := run_of_count hstep hlast (Nat.zero_add n) h
  exact ⟨t, ⟨n, hrun⟩, ht⟩

/-- A loop whose condition stays true does not end. -/
theorem not_ends {I : σ → Prop} (h : I s) (hcond : ∀ s, I s → L.cond s = true)
    (hkeeps : ∀ s s', I s → L.body s = some s' → I s') (t : σ) : ¬ L.Ends s t := by
  rintro ⟨fuel, hrun⟩
  induction fuel generalizing s with
  | zero =>
      rw [run, if_pos (hcond s h)] at hrun
      cases hrun
  | succ fuel ih =>
      rw [run_succ_of_cond (hcond s h), Option.bind_eq_some_iff] at hrun
      obtain ⟨s', hbody, hrun⟩ := hrun
      exact ih (hkeeps s s' h hbody) hrun

end While

end Loop
