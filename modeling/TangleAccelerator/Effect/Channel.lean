import Mathlib

/-!
# Two machines and two queues

Two machines send messages to each other.  A machine sends, or waits for a message, or has halted.
Each direction is a queue that keeps the order and loses nothing.  At any time either machine may
move, so a run is any interleaving of their moves.

A move takes at most one message from the head of a queue and adds at most one to the tail of the
other (`advance_spec`).  So a move of one machine neither enables nor disables another message for
the other, and moves of the two commute (`step_diamond`).  It follows that the outcome does not
depend on the interleaving.  If some run ends where nothing can move, then every run can be
completed to that end, and all complete runs have the same length (`Reaches.complete`).
-/

namespace Channel

variable {α σ τ M : Type}

/-! ## Counted runs -/

/-- So many steps of a relation. -/
inductive Reaches (r : α → α → Prop) : Nat → α → α → Prop
  | refl (a : α) : Reaches r 0 a a
  | step {n : Nat} {a b c : α} (h : r a b) (hs : Reaches r n b c) : Reaches r (n + 1) a c

/-- Two steps from one state are the same, or can be joined by one step each. -/
def Diamond (r : α → α → Prop) : Prop :=
  ∀ ⦃a b c⦄, r a b → r a c → b = c ∨ ∃ d, r b d ∧ r c d

/-- Nothing can move. -/
def Stuck (r : α → α → Prop) (a : α) : Prop := ∀ b, ¬r a b

section Runs

variable {r : α → α → Prop} {a b z : α} {m n : Nat}

theorem Reaches.single (h : r a b) : Reaches r 1 a b := .step h (.refl b)

theorem Reaches.trans {c : α} (hab : Reaches r m a b) (hbc : Reaches r n b c) :
    Reaches r (n + m) a c := by
  induction hab with
  | refl => exact hbc
  | step h _ ih => exact .step h (ih hbc)

/-- A run is part of one to the end. -/
theorem Reaches.complete (hr : Diamond r) (hz : Stuck r z) : ∀ {n : Nat} {a : α}, Reaches r n a z →
    ∀ {m : Nat} {b : α}, Reaches r m a b → ∃ k, m + k = n ∧ Reaches r k b z := by
  intro n
  induction n with
  | zero =>
      intro a ha m b hb
      cases ha
      cases hb with
      | refl => exact ⟨0, rfl, .refl _⟩
      | step h _ => exact absurd h (hz _)
  | succ n ih =>
      intro a ha m b hb
      cases hb with
      | refl => exact ⟨n + 1, Nat.zero_add _, ha⟩
      | @step m _ b' _ hab' hb'b =>
          obtain ⟨a', haa', ha'z⟩ : ∃ a', r a a' ∧ Reaches r n a' z := by
            cases ha with
            | step h hs => exact ⟨_, h, hs⟩
          -- the step of the run leads to the end as well, in one step less
          have hb'z : Reaches r n b' z := by
            rcases hr hab' haa' with rfl | ⟨d, hb'd, ha'd⟩
            · exact ha'z
            · obtain ⟨k, hk, hdz⟩ := ih ha'z (.single ha'd)
              obtain rfl : n = k + 1 := by omega
              exact .step hb'd hdz
          obtain ⟨k, hk, hbz⟩ := ih hb'z hb'b
          exact ⟨k, by omega, hbz⟩

/-- A run that cannot go on is at the end. -/
theorem Reaches.eq_of_stuck (hr : Diamond r) (hz : Stuck r z) (ha : Reaches r n a z)
    (hb : Reaches r m a b) (hstuck : Stuck r b) : b = z := by
  obtain ⟨k, -, hbz⟩ := ha.complete hr hz hb
  cases hbz with
  | refl => rfl
  | step h _ => exact absurd h (hstuck _)

end Runs

/-! ## Machines -/

/-- What a machine does next. -/
inductive Act (σ M : Type) where
  | send (m : M) (s : σ)
  | recv (k : M → σ)
  | halt

/-- A move of a machine, with the queue to it and the queue from it. -/
def advance (next : σ → Act σ M) (s : σ) (incoming outgoing : List M) :
    Option (σ × List M × List M) :=
  match next s with
  | .send m s => some (s, incoming, outgoing ++ [m])
  | .recv k =>
      match incoming with
      | [] => none
      | m :: incoming => some (k m, incoming, outgoing)
  | .halt => none

/-- A move depends on what it takes from the head of one queue, and on nothing else in them. -/
theorem advance_spec {next : σ → Act σ M} {s s' : σ}
    {incoming outgoing incoming' outgoing' : List M}
    (h : advance next s incoming outgoing = some (s', incoming', outgoing')) :
    ∃ taken given, incoming = taken ++ incoming' ∧ outgoing' = outgoing ++ given ∧
      ∀ more out, advance next s (taken ++ more) out = some (s', more, out ++ given) := by
  rw [advance] at h
  cases hnext : next s with
  | send m t =>
      rw [hnext] at h
      cases h
      exact ⟨[], [m], rfl, rfl, fun more out => by simp [advance, hnext]⟩
  | recv k =>
      rw [hnext] at h
      cases incoming with
      | nil => cases h
      | cons m incoming =>
          cases h
          exact ⟨[m], [], rfl, by simp, fun more out => by simp [advance, hnext]⟩
  | halt =>
      rw [hnext] at h
      cases h

/-- The states of two machines, and the messages under way. -/
structure Config (σ τ M : Type) where
  left : σ
  right : τ
  toRight : List M
  toLeft : List M

section Step

variable (L : σ → Act σ M) (R : τ → Act τ M)

/-- A move of the left machine. -/
def stepLeft (c : Config σ τ M) : Option (Config σ τ M) :=
  (advance L c.left c.toLeft c.toRight).map fun r =>
    { c with left := r.1, toLeft := r.2.1, toRight := r.2.2 }

/-- A move of the right machine. -/
def stepRight (c : Config σ τ M) : Option (Config σ τ M) :=
  (advance R c.right c.toRight c.toLeft).map fun r =>
    { c with right := r.1, toRight := r.2.1, toLeft := r.2.2 }

/-- A move of either machine. -/
def Step (c c' : Config σ τ M) : Prop := stepLeft L c = some c' ∨ stepRight R c = some c'

section Moves

variable {L : σ → Act σ M} {R : τ → Act τ M} {s s' : σ} {t t' : τ} {toRight toLeft : List M} {m : M}

theorem step_leftSend (h : L s = .send m s') :
    Step L R ⟨s, t, toRight, toLeft⟩ ⟨s', t, toRight ++ [m], toLeft⟩ := by
  refine Or.inl ?_
  rw [stepLeft, advance, h]
  rfl

theorem step_leftRecv {k : M → σ} (h : L s = .recv k) :
    Step L R ⟨s, t, toRight, m :: toLeft⟩ ⟨k m, t, toRight, toLeft⟩ := by
  refine Or.inl ?_
  rw [stepLeft, advance, h]
  rfl

theorem step_rightSend (h : R t = .send m t') :
    Step L R ⟨s, t, toRight, toLeft⟩ ⟨s, t', toRight, toLeft ++ [m]⟩ := by
  refine Or.inr ?_
  rw [stepRight, advance, h]
  rfl

theorem step_rightRecv {k : M → τ} (h : R t = .recv k) :
    Step L R ⟨s, t, m :: toRight, toLeft⟩ ⟨s, k m, toRight, toLeft⟩ := by
  refine Or.inr ?_
  rw [stepRight, advance, h]
  rfl

end Moves

/-- Moves of the two machines commute. -/
theorem step_commute {c c₁ c₂ : Config σ τ M} (hleft : stepLeft L c = some c₁)
    (hright : stepRight R c = some c₂) :
    ∃ d, stepRight R c₁ = some d ∧ stepLeft L c₂ = some d := by
  obtain ⟨⟨s, inl, outl⟩, hl, rfl⟩ := Option.map_eq_some_iff.mp hleft
  obtain ⟨⟨t, inr, outr⟩, hr, rfl⟩ := Option.map_eq_some_iff.mp hright
  obtain ⟨takenl, givenl, htoLeft, rfl, hl'⟩ := advance_spec hl
  obtain ⟨takenr, givenr, htoRight, rfl, hr'⟩ := advance_spec hr
  refine ⟨⟨s, t, inr ++ givenl, inl ++ givenr⟩, ?_, ?_⟩
  · rw [stepRight]
    dsimp only
    rw [htoRight, List.append_assoc, hr']
    rfl
  · rw [stepLeft]
    dsimp only
    rw [htoLeft, List.append_assoc, hl']
    rfl

theorem step_diamond : Diamond (Step L R) := by
  rintro c c₁ c₂ (h₁ | h₁) (h₂ | h₂)
  · exact Or.inl (Option.some.inj (h₁.symm.trans h₂))
  · obtain ⟨d, hd₁, hd₂⟩ := step_commute L R h₁ h₂
    exact Or.inr ⟨d, Or.inr hd₁, Or.inl hd₂⟩
  · obtain ⟨d, hd₂, hd₁⟩ := step_commute L R h₂ h₁
    exact Or.inr ⟨d, Or.inl hd₁, Or.inr hd₂⟩
  · exact Or.inl (Option.some.inj (h₁.symm.trans h₂))

theorem stuck_iff (c : Config σ τ M) :
    Stuck (Step L R) c ↔ stepLeft L c = none ∧ stepRight R c = none := by
  rw [Option.eq_none_iff_forall_ne_some, Option.eq_none_iff_forall_ne_some, ← forall_and]
  exact forall_congr' fun c' => not_or

end Step

end Channel
