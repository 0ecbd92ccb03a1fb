import TangleAccelerator.Effect.Prog

/-!
# Protocols a program obeys

Two ways to say what a program does whatever the answers are.

`Uses P p` says that every command `p` can issue satisfies `P`.

A *protocol* watches the events of one program with a state of its own.  It
says which commands may be issued in a state (`may`) and which events the
environment is assumed to produce (`admits`).  `Safe P p m Q` says that `p`,
watched from state `m`, only issues commands that may be issued there, and that
`Q` holds of its result and the last state, for all answers that are admitted.
It is computed by recursion on the program, so it speaks of unfinished runs too:
`Safe.steps` carries it along any part of a path.
-/

namespace Effect

variable {S : Sig} {α β ε : Type}

/-! ## The commands of a program -/

/-- Every command the program can issue satisfies `P`. -/
def Uses (P : S.Cmd → Prop) : Prog S α → Prop
  | .ret _ => True
  | .call c k => P c ∧ ∀ r, Uses P (k r)

variable {P Q : S.Cmd → Prop}

@[simp] theorem uses_ret (a : α) : Uses P (Prog.ret a : Prog S α) := trivial

@[simp] theorem uses_pure (a : α) : Uses P (pure a : Prog S α) := trivial

@[simp] theorem uses_command (c : S.Cmd) : Uses P (command c) ↔ P c :=
  ⟨fun h => h.1, fun h => ⟨h, fun _ => trivial⟩⟩

theorem Uses.bind {f : α → Prog S β} (hf : ∀ a, Uses P (f a)) :
    ∀ {p : Prog S α}, Uses P p → Uses P (p >>= f)
  | .ret a, _ => hf a
  | .call _ _, h => ⟨h.1, fun r => Uses.bind hf (h.2 r)⟩

theorem Uses.mono (hPQ : ∀ c, P c → Q c) : ∀ {p : Prog S α}, Uses P p → Uses Q p
  | .ret _, _ => trivial
  | .call c _, h => ⟨hPQ c h.1, fun r => Uses.mono hPQ (h.2 r)⟩

theorem uses_of_forall (h : ∀ c, P c) : ∀ p : Prog S α, Uses P p
  | .ret _ => trivial
  | .call c k => ⟨h c, fun r => uses_of_forall h (k r)⟩

theorem Uses.path : ∀ {p : Prog S α} {τ : List (Event S)} {a : α},
    Uses P p → Path p τ a → ∀ e ∈ τ, P e.cmd
  | .ret _, _, _, _, ⟨rfl, _⟩ => by simp
  | .call c k, _, _, h, ⟨r, τ', rfl, hp⟩ => by
      intro e he
      cases List.mem_cons.mp he with
      | inl h' => subst h'; exact h.1
      | inr h' => exact (h.2 r).path hp e h'

theorem Uses.steps : ∀ {τ : List (Event S)} {p q : Prog S α},
    Uses P p → Steps p τ q → (∀ e ∈ τ, P e.cmd) ∧ Uses P q
  | [], _, _, h, hs => by
      rw [steps_nil] at hs
      subst hs
      exact ⟨by simp, h⟩
  | _ :: _, .call c k, _, h, ⟨r, he, hs⟩ => by
      subst he
      obtain ⟨hτ, hq⟩ := (h.2 r).steps hs
      refine ⟨fun e he => ?_, hq⟩
      cases List.mem_cons.mp he with
      | inl h' => subst h'; exact h.1
      | inr h' => exact hτ e h'

theorem Uses.run_bind {x : ExceptT ε (Prog S) α} {f : α → ExceptT ε (Prog S) β}
    (hx : Uses P x.run) (hf : ∀ a, Uses P (f a).run) : Uses P (x >>= f).run := by
  rw [ExceptT.run_bind]
  refine Uses.bind (fun r => ?_) hx
  cases r with
  | ok a => exact hf a
  | error e => trivial

@[simp] theorem uses_run_pure (a : α) : Uses P (pure a : ExceptT ε (Prog S) α).run := trivial

@[simp] theorem uses_run_throw (e : ε) : Uses P (throw e : ExceptT ε (Prog S) α).run := trivial

@[simp] theorem uses_run_ensure (b : Bool) (e : ε) :
    Uses P (ensure b e : ExceptT ε (Prog S) Unit).run := by
  cases b <;> trivial

@[simp] theorem uses_run_settle (r : Except ε α) :
    Uses P (settle r : ExceptT ε (Prog S) α).run := trivial

@[simp] theorem uses_run_demand (o : Option α) (e : ε) :
    Uses P (demand o e : ExceptT ε (Prog S) α).run := trivial

theorem Uses.run_lift {p : Prog S α} (h : Uses P p) :
    Uses P (liftM p : ExceptT ε (Prog S) α).run := by
  change Uses P (Except.ok <$> p)
  rw [map_eq_pure_bind]
  exact Uses.bind (fun a => uses_pure (Except.ok a)) h

/-! ## Protocols -/

/-- A protocol over a signature. -/
structure Protocol (S : Sig) where
  /-- What the protocol remembers of the events so far. -/
  State : Type
  /-- The state after an event. -/
  next : State → Event S → State
  /-- The commands that may be issued in a state. -/
  may : State → S.Cmd → Prop
  /-- The events the environment is assumed to produce in a state. -/
  admits : State → Event S → Prop

variable {R : Protocol S}

/-- The state after a trace. -/
def Protocol.after (R : Protocol S) (m : R.State) (τ : List (Event S)) : R.State :=
  τ.foldl R.next m

@[simp] theorem Protocol.after_nil (m : R.State) : R.after m [] = m := rfl

@[simp] theorem Protocol.after_cons (m : R.State) (e : Event S) (τ : List (Event S)) :
    R.after m (e :: τ) = R.after (R.next m e) τ := rfl

theorem Protocol.after_append (m : R.State) (τ₁ τ₂ : List (Event S)) :
    R.after m (τ₁ ++ τ₂) = R.after (R.after m τ₁) τ₂ := List.foldl_append

/-- Every event of the trace is one the protocol assumes. -/
def Protocol.Admitted (R : Protocol S) : R.State → List (Event S) → Prop
  | _, [] => True
  | m, e :: τ => R.admits m e ∧ R.Admitted (R.next m e) τ

instance Protocol.decidableAdmitted [∀ m e, Decidable (R.admits m e)] :
    ∀ (m : R.State) (τ : List (Event S)), Decidable (R.Admitted m τ)
  | _, [] => isTrue trivial
  | m, e :: τ =>
      have := decidableAdmitted (R.next m e) τ
      inferInstanceAs (Decidable (_ ∧ _))

theorem Protocol.admitted_append : ∀ (τ₁ τ₂ : List (Event S)) (m : R.State),
    R.Admitted m (τ₁ ++ τ₂) ↔ R.Admitted m τ₁ ∧ R.Admitted (R.after m τ₁) τ₂
  | [], τ₂, m => by simp [Protocol.Admitted]
  | e :: τ₁, τ₂, m => by
      simp only [List.cons_append, Protocol.Admitted, Protocol.after_cons,
        Protocol.admitted_append τ₁ τ₂, and_assoc]

/-- Every event of the trace is admitted in the state before it. -/
theorem Protocol.admitted_iff : ∀ {τ : List (Event S)} {m : R.State},
    R.Admitted m τ ↔ ∀ τ₁ e τ₂, τ = τ₁ ++ e :: τ₂ → R.admits (R.after m τ₁) e
  | [], m => by simp [Protocol.Admitted]
  | e :: τ, m => by
      rw [Protocol.Admitted, Protocol.admitted_iff]
      constructor
      · intro h τ₁ e' τ₂ hτ
        cases τ₁ with
        | nil =>
            cases hτ
            exact h.1
        | cons e₁ τ₁ =>
            cases hτ
            exact h.2 τ₁ e' τ₂ rfl
      · intro h
        refine ⟨h [] e τ rfl, fun τ₁ e' τ₂ hτ => h (e :: τ₁) e' τ₂ ?_⟩
        rw [hτ, List.cons_append]

/-- Watched from `m`, the program issues only commands that may be issued, and
`Q` holds of its result and the last state. -/
def Safe (R : Protocol S) : Prog S α → R.State → (α → R.State → Prop) → Prop
  | .ret a, m, Q => Q a m
  | .call c k, m, Q => R.may m c ∧ ∀ r, R.admits m ⟨c, r⟩ → Safe R (k r) (R.next m ⟨c, r⟩) Q

@[simp] theorem safe_ret (a : α) (m : R.State) (Q : α → R.State → Prop) :
    Safe R (Prog.ret a) m Q ↔ Q a m := Iff.rfl

@[simp] theorem safe_pure (a : α) (m : R.State) (Q : α → R.State → Prop) :
    Safe R (pure a : Prog S α) m Q ↔ Q a m := Iff.rfl

@[simp] theorem safe_command (c : S.Cmd) (m : R.State) (Q : S.Ans c → R.State → Prop) :
    Safe R (command c) m Q ↔ R.may m c ∧ ∀ r, R.admits m ⟨c, r⟩ → Q r (R.next m ⟨c, r⟩) :=
  Iff.rfl

theorem Safe.mono {Q Q' : α → R.State → Prop} (hQ : ∀ a m, Q a m → Q' a m) :
    ∀ {p : Prog S α} {m : R.State}, Safe R p m Q → Safe R p m Q'
  | .ret a, m, h => hQ a m h
  | .call _ _, _, h => ⟨h.1, fun r hr => (h.2 r hr).mono hQ⟩

theorem safe_bind (f : α → Prog S β) (Q : β → R.State → Prop) :
    ∀ (p : Prog S α) (m : R.State),
      Safe R (p >>= f) m Q ↔ Safe R p m fun a m' => Safe R (f a) m' Q
  | .ret a, m => Iff.rfl
  | .call c k, m => by
      rw [bind_call]
      refine and_congr_right fun _ => ?_
      exact forall_congr' fun r => forall_congr' fun _ => safe_bind f Q (k r) _

/-- The rule for a sequence of fallible programs. -/
theorem safe_run_bind (x : ExceptT ε (Prog S) α) (f : α → ExceptT ε (Prog S) β) (m : R.State)
    (Q : Except ε β → R.State → Prop) :
    Safe R (x >>= f).run m Q ↔ Safe R x.run m fun r m' =>
      match r with
      | .ok a => Safe R (f a).run m' Q
      | .error e => Q (.error e) m' := by
  rw [ExceptT.run_bind, safe_bind]
  constructor
  · refine fun h => h.mono fun r m' hr => ?_
    cases r <;> exact hr
  · refine fun h => h.mono fun r m' hr => ?_
    cases r <;> exact hr

theorem safe_run_lift (p : Prog S α) (m : R.State) (Q : Except ε α → R.State → Prop) :
    Safe R (liftM p : ExceptT ε (Prog S) α).run m Q ↔ Safe R p m fun a m' => Q (.ok a) m' := by
  change Safe R (Except.ok <$> p) m Q ↔ _
  rw [map_eq_pure_bind, safe_bind]
  exact Iff.rfl

@[simp] theorem safe_run_pure (a : α) (m : R.State) (Q : Except ε α → R.State → Prop) :
    Safe R (pure a : ExceptT ε (Prog S) α).run m Q ↔ Q (.ok a) m := Iff.rfl

@[simp] theorem safe_run_throw (e : ε) (m : R.State) (Q : Except ε α → R.State → Prop) :
    Safe R (throw e : ExceptT ε (Prog S) α).run m Q ↔ Q (.error e) m := Iff.rfl

@[simp] theorem safe_run_settle (r : Except ε α) (m : R.State) (Q : Except ε α → R.State → Prop) :
    Safe R (settle r : ExceptT ε (Prog S) α).run m Q ↔ Q r m := Iff.rfl

@[simp] theorem safe_run_ensure (b : Bool) (e : ε) (m : R.State)
    (Q : Except ε Unit → R.State → Prop) :
    Safe R (ensure b e : ExceptT ε (Prog S) Unit).run m Q ↔
      (b = true → Q (.ok ()) m) ∧ (b = false → Q (.error e) m) := by
  cases b <;> simp [ensure]

/-- A safe program stays safe along its path. -/
theorem Safe.steps {Q : α → R.State → Prop} :
    ∀ {τ : List (Event S)} {p q : Prog S α} {m : R.State},
      Safe R p m Q → Steps p τ q → R.Admitted m τ → Safe R q (R.after m τ) Q
  | [], _, _, _, h, hs, _ => by
      rw [steps_nil] at hs
      subst hs
      exact h
  | _ :: _, .call c k, _, m, h, ⟨r, he, hs⟩, ha => by
      subst he
      exact (h.2 r ha.1).steps hs ha.2

/-- Every command of the trace may be issued where it is. -/
def Protocol.Allowed (R : Protocol S) : R.State → List (Event S) → Prop
  | _, [] => True
  | m, e :: τ => R.may m e.cmd ∧ R.Allowed (R.next m e) τ

theorem Protocol.Allowed.may {τ₁ τ₂ : List (Event S)} {e : Event S} {m : R.State}
    (h : R.Allowed m (τ₁ ++ e :: τ₂)) : R.may (R.after m τ₁) e.cmd := by
  induction τ₁ generalizing m with
  | nil => exact h.1
  | cons e₁ τ₁ ih => exact ih h.2

theorem Safe.allowed {Q : α → R.State → Prop} :
    ∀ {τ : List (Event S)} {p q : Prog S α} {m : R.State},
      Safe R p m Q → Steps p τ q → R.Admitted m τ → R.Allowed m τ
  | [], _, _, _, _, _, _ => trivial
  | _ :: _, .call c k, _, m, h, ⟨r, he, hs⟩, ha => by
      subst he
      exact ⟨h.1, (h.2 r ha.1).allowed hs ha.2⟩

/-- What relates the state of a protocol to the state of the server is kept along a trace the
protocol allows and admits, where each such event keeps it. -/
theorem Protocol.served {V : Server S} {J : R.State → V.State → Prop}
    (hJ : ∀ m s e s', J m s → R.may m e.cmd → R.admits m e → V.Serves s e s' → J (R.next m e) s') :
    ∀ {τ : List (Event S)} {m : R.State} {s s' : V.State}, Served V s τ s' → R.Allowed m τ →
      R.Admitted m τ → J m s → J (R.after m τ) s'
  | [], _, _, _, h, _, _, hs => by
      cases h
      exact hs
  | e :: _, m, s, _, ⟨s₁, he, h⟩, hmay, hadm, hs => by
      rw [Protocol.after_cons]
      exact Protocol.served hJ h hmay.2 hadm.2 (hJ m s e s₁ hs hmay.1 hadm.1 he)

/-- The postcondition holds at the end of a path. -/
theorem Safe.path {Q : α → R.State → Prop} {p : Prog S α} {m : R.State} {τ : List (Event S)}
    {a : α} (h : Safe R p m Q) (hp : Path p τ a) (ha : R.Admitted m τ) : Q a (R.after m τ) :=
  h.steps ((steps_ret_iff p τ a).mpr hp) ha

/-- A program keeps what each of its commands keeps. -/
theorem Safe.of_uses {J : R.State → Prop} (hmay : ∀ m c, J m → P c → R.may m c)
    (hnext : ∀ m c r, J m → P c → J (R.next m ⟨c, r⟩)) :
    ∀ {p : Prog S α} {m : R.State}, Uses P p → J m → Safe R p m fun _ m' => J m'
  | .ret _, _, _, hJ => hJ
  | .call c _, m, h, hJ =>
      ⟨hmay m c hJ h.1, fun r _ => (Safe.of_uses hmay hnext (h.2 r) (hnext m c r hJ h.1))⟩

/-- A program whose commands may always be issued is safe if its admitted paths end well. -/
theorem Safe.of_path {Q : α → R.State → Prop} :
    ∀ {p : Prog S α} {m : R.State}, Uses (fun c => ∀ m, R.may m c) p →
      (∀ τ a, Path p τ a → R.Admitted m τ → Q a (R.after m τ)) → Safe R p m Q
  | .ret a, _, _, hQ => hQ [] a ⟨rfl, rfl⟩ trivial
  | .call c _, m, h, hQ =>
      ⟨h.1 m, fun r hr => Safe.of_path (h.2 r) fun τ a hp ha =>
        hQ (⟨c, r⟩ :: τ) a ⟨r, τ, rfl, hp⟩ ⟨hr, ha⟩⟩

end Effect
