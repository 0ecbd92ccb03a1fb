import TangleAccelerator.Effect.Prog

/-!
# Programs whose answers are known

Where enough is known of the answers, the result of a program is known, although its trace may not
be.  `Succeeds A x P` says that on every path whose events satisfy `A` the program does not fail,
and that what it returns satisfies `P`.  The rules follow the program: a command is followed on each
of the answers that `A` leaves, and a sequence on each of the values its first part may return.

A program always comes to an end, so `Succeeds` says that there is a result.
-/

namespace Effect

variable {S : Sig} {α β ε : Type} {A : Event S → Prop}

/-- On every path whose events satisfy `A` the program returns a value that satisfies `P`. -/
def Succeeds (A : Event S → Prop) (x : ExceptT ε (Prog S) α) (P : α → Prop) : Prop :=
  ∀ τ r, Path x.run τ r → (∀ e ∈ τ, A e) → ∃ a, r = .ok a ∧ P a

section Rules

variable {x : ExceptT ε (Prog S) α} {f : α → ExceptT ε (Prog S) β} {P : α → Prop} {Q : β → Prop}

theorem succeeds_pure {a : α} (h : P a) : Succeeds A (pure a : ExceptT ε (Prog S) α) P := by
  intro τ r hpath _
  exact ⟨a, ((path_run_pure ..).mp hpath).2, h⟩

theorem Succeeds.bind (hx : Succeeds A x P) (hf : ∀ a, P a → Succeeds A (f a) Q) :
    Succeeds A (x >>= f) Q := by
  intro τ r hpath hτ
  rcases (path_run_bind ..).mp hpath with ⟨e, rfl, herror⟩ | ⟨a, τ₁, τ₂, rfl, h₁, h₂⟩
  · obtain ⟨a, he, -⟩ := hx τ _ herror hτ
    cases he
  · rw [List.forall_mem_append] at hτ
    obtain ⟨a', he, ha⟩ := hx τ₁ _ h₁ hτ.1
    cases he
    exact hf a ha τ₂ r h₂ hτ.2

theorem Succeeds.mono {P' : α → Prop} (hx : Succeeds A x P) (h : ∀ a, P a → P' a) :
    Succeeds A x P' := by
  intro τ r hpath hτ
  obtain ⟨a, hr, ha⟩ := hx τ r hpath hτ
  exact ⟨a, hr, h a ha⟩

/-- What is known of every path that returns. -/
theorem Succeeds.and_path {P' : α → Prop} (hx : Succeeds A x P)
    (h : ∀ τ a, Path x.run τ (.ok a) → P' a) : Succeeds A x fun a => P a ∧ P' a := by
  intro τ r hpath hτ
  obtain ⟨a, rfl, ha⟩ := hx τ r hpath hτ
  exact ⟨a, rfl, ha, h τ a hpath⟩

/-- A program that cannot fail, or whose status is kept. -/
theorem succeeds_lift {p : Prog S α} (h : ∀ τ a, Path p τ a → (∀ e ∈ τ, A e) → P a) :
    Succeeds A (liftM p : ExceptT ε (Prog S) α) P := by
  intro τ r hpath hτ
  obtain ⟨a, rfl, hp⟩ := (path_run_lift ..).mp hpath
  exact ⟨a, rfl, h τ a hp hτ⟩

/-- A command, on each answer that is left. -/
theorem succeeds_command {c : S.Cmd} {P : S.Ans c → Prop} (h : ∀ r, A ⟨c, r⟩ → P r) :
    Succeeds A (liftM (command c) : ExceptT ε (Prog S) (S.Ans c)) P := by
  refine succeeds_lift fun τ a hpath hτ => ?_
  obtain ⟨r, τ', rfl, rfl, rfl⟩ := hpath
  exact h _ (hτ _ (List.mem_cons_self ..))

theorem succeeds_ensure {b : Bool} {e : ε} (h : b = true) :
    Succeeds A (ensure b e : ExceptT ε (Prog S) Unit) fun _ => True := by
  subst h
  exact succeeds_pure trivial

theorem succeeds_demand {o : Option α} {e : ε} (h : ∃ a, o = some a ∧ P a) :
    Succeeds A (demand o e : ExceptT ε (Prog S) α) P := by
  obtain ⟨a, rfl, ha⟩ := h
  exact succeeds_pure ha

end Rules

end Effect
