import TangleAccelerator.Effect.Protocol

/-!
# Interleavings

A *pool* is a list of programs, the threads, over one server.  A schedule is a
list of moves, each the index of a thread and the choices of the server at that
move.  A move lets the thread issue one command, and the server answers it at
once, so commands are atomic and everything between two commands of a thread can
be interleaved with commands of the others.  A move of a finished or missing
thread does nothing.

The trace of a schedule records which thread issued each event.  `Pool.exec_served`
says that the server answered the whole trace, and `Pool.exec_steps` that the
events of one thread are a path of that thread.
-/

namespace Effect

variable {S : Sig} {V : Server S} {β : Type}

/-- Threads over a server state. -/
structure Pool (V : Server S) (β : Type) where
  /-- The threads. -/
  threads : List (Prog S β)
  /-- The state of the server. -/
  state : V.State

/-- A move: a thread, and what the server would choose at each command. -/
abbrev Move (V : Server S) := Nat × ((c : S.Cmd) → V.Choice c)

namespace Pool

/-- One move, and the event it produces if the thread can move. -/
def step (P : Pool V β) (x : Move V) : List (Nat × Event S) × Pool V β :=
  match P.threads[x.1]? with
  | some (.call c k) =>
      let r := V.serve c (x.2 c) P.state
      ([(x.1, ⟨c, r.1⟩)], ⟨P.threads.set x.1 (k r.1), r.2⟩)
  | _ => ([], P)

/-- A schedule, with the trace it produces. -/
def exec : List (Move V) → Pool V β → List (Nat × Event S) × Pool V β
  | [], P => ([], P)
  | x :: xs, P =>
      let r := P.step x
      let t := exec xs r.2
      (r.1 ++ t.1, t.2)

end Pool

/-- The events of thread `i` in a trace. -/
def threadTrace (i : Nat) (T : List (Nat × Event S)) : List (Event S) :=
  (T.filter fun x => x.1 = i).map Prod.snd

@[simp] theorem threadTrace_nil (i : Nat) : threadTrace i ([] : List (Nat × Event S)) = [] := rfl

theorem threadTrace_append (i : Nat) (T₁ T₂ : List (Nat × Event S)) :
    threadTrace i (T₁ ++ T₂) = threadTrace i T₁ ++ threadTrace i T₂ := by
  simp [threadTrace]

@[simp] theorem threadTrace_cons_self (i : Nat) (e : Event S) (T : List (Nat × Event S)) :
    threadTrace i ((i, e) :: T) = e :: threadTrace i T := by
  simp [threadTrace]

theorem threadTrace_cons_ne {i j : Nat} (h : j ≠ i) (e : Event S) (T : List (Nat × Event S)) :
    threadTrace i ((j, e) :: T) = threadTrace i T := by
  simp [threadTrace, h]

/-- Where the trace of a thread starts with an event, the whole trace has that
event after events of other threads only. -/
theorem threadTrace_eq_cons {i : Nat} {e : Event S} {τ : List (Event S)} :
    ∀ {T : List (Nat × Event S)}, threadTrace i T = e :: τ →
      ∃ T₁ T₂, T = T₁ ++ (i, e) :: T₂ ∧ threadTrace i T₁ = [] ∧ threadTrace i T₂ = τ
  | [], h => by simp at h
  | (j, e') :: T, h => by
      by_cases hj : j = i
      · subst hj
        rw [threadTrace_cons_self] at h
        obtain ⟨rfl, rfl⟩ := List.cons.inj h
        exact ⟨[], T, rfl, rfl, rfl⟩
      · rw [threadTrace_cons_ne hj] at h
        obtain ⟨T₁, T₂, rfl, h₁, h₂⟩ := threadTrace_eq_cons h
        exact ⟨(j, e') :: T₁, T₂, rfl, by rw [threadTrace_cons_ne hj, h₁], h₂⟩

/-- A split of the trace of a thread comes from a split of the whole trace. -/
theorem threadTrace_eq_append {i : Nat} :
    ∀ {τ₁ τ₂ : List (Event S)} {T : List (Nat × Event S)}, threadTrace i T = τ₁ ++ τ₂ →
      ∃ T₁ T₂, T = T₁ ++ T₂ ∧ threadTrace i T₁ = τ₁ ∧ threadTrace i T₂ = τ₂
  | [], τ₂, T, h => ⟨[], T, rfl, rfl, h⟩
  | e :: τ₁, τ₂, T, h => by
      obtain ⟨T₁, T₂, rfl, h₁, h₂⟩ := threadTrace_eq_cons h
      obtain ⟨T₃, T₄, rfl, h₃, h₄⟩ := threadTrace_eq_append h₂
      refine ⟨T₁ ++ (i, e) :: T₃, T₄, by simp, ?_, h₄⟩
      rw [threadTrace_append, threadTrace_cons_self, h₁, h₃, List.nil_append]

namespace Pool

/-- What one move does: nothing, or one command of one thread. -/
theorem step_cases (P : Pool V β) (x : Move V) :
    P.step x = ([], P) ∨ ∃ c k r s, P.threads[x.1]? = some (.call c k) ∧
      V.Serves P.state ⟨c, r⟩ s ∧
      P.step x = ([(x.1, ⟨c, r⟩)], ⟨P.threads.set x.1 (k r), s⟩) := by
  unfold step
  cases h : P.threads[x.1]? with
  | none => exact Or.inl rfl
  | some p =>
      cases p with
      | ret a => exact Or.inl rfl
      | call c k => exact Or.inr ⟨c, k, _, _, rfl, ⟨x.2 c, rfl⟩, rfl⟩

/-- The server answers the trace of a schedule. -/
theorem exec_served : ∀ (xs : List (Move V)) (P : Pool V β),
    Served V P.state ((exec xs P).1.map Prod.snd) (exec xs P).2.state
  | [], P => rfl
  | x :: xs, P => by
      have ih := exec_served xs (P.step x).2
      simp only [exec, List.map_append, served_append]
      refine ⟨(P.step x).2.state, ?_, ih⟩
      rcases step_cases P x with h | ⟨c, k, r, s, _, hs, h⟩
      · rw [h]
        rfl
      · rw [h]
        exact (served_singleton ..).mpr hs

theorem step_threads (P : Pool V β) (x : Move V) (i : Nat) {p : Prog S β}
    (hp : P.threads[i]? = some p) :
    ∃ q, (P.step x).2.threads[i]? = some q ∧ Steps p (threadTrace i (P.step x).1) q := by
  rcases step_cases P x with h | ⟨c, k, r, s, ht, _, h⟩
  · rw [h]
    exact ⟨p, hp, (steps_nil p p).mpr rfl⟩
  · rw [h]
    by_cases hi : x.1 = i
    · subst hi
      rw [hp] at ht
      obtain rfl := Option.some.inj ht
      have hlt : x.1 < P.threads.length := (List.getElem?_eq_some_iff.mp hp).1
      refine ⟨k r, by simp [hlt], ?_⟩
      rw [threadTrace_cons_self]
      exact ⟨r, rfl, (steps_nil _ _).mpr rfl⟩
    · refine ⟨p, by simp [hi, hp], ?_⟩
      rw [threadTrace_cons_ne hi]
      exact (steps_nil p p).mpr rfl

/-- The events of a thread are a path of it. -/
theorem exec_steps : ∀ (xs : List (Move V)) (P : Pool V β) (i : Nat) {p : Prog S β},
    P.threads[i]? = some p →
      ∃ q, (exec xs P).2.threads[i]? = some q ∧ Steps p (threadTrace i (exec xs P).1) q
  | [], P, i, p, hp => ⟨p, hp, (steps_nil p p).mpr rfl⟩
  | x :: xs, P, i, p, hp => by
      obtain ⟨q, hq, h₁⟩ := step_threads P x i hp
      obtain ⟨q', hq', h₂⟩ := exec_steps xs (P.step x).2 i hq
      refine ⟨q', hq', ?_⟩
      simp only [exec, threadTrace_append]
      exact h₁.trans h₂

/-- A thread that has returned went through a path. -/
theorem exec_path {xs : List (Move V)} {P : Pool V β} {i : Nat} {p : Prog S β} {a : β}
    (hp : P.threads[i]? = some p) (ha : (exec xs P).2.threads[i]? = some (.ret a)) :
    Path p (threadTrace i (exec xs P).1) a := by
  obtain ⟨q, hq, hs⟩ := exec_steps xs P i hp
  rw [ha] at hq
  obtain rfl := Option.some.inj hq
  exact (steps_ret_iff ..).mp hs

/-- Every event of a schedule is one its thread can issue. -/
theorem exec_uses {Q : Nat → S.Cmd → Prop} (xs : List (Move V)) (P : Pool V β)
    (hP : ∀ i p, P.threads[i]? = some p → Uses (Q i) p) :
    ∀ x ∈ (exec xs P).1, Q x.1 x.2.cmd := by
  induction xs generalizing P with
  | nil => simp [exec]
  | cons y ys ih =>
      intro x hx
      rcases step_cases P y with h | ⟨c, k, r, s, ht, -, h⟩
      · simp only [exec, h, List.nil_append] at hx
        exact ih P hP x hx
      · have hc := hP y.1 _ ht
        simp only [exec, h, List.singleton_append, List.mem_cons] at hx
        cases hx with
        | inl hx =>
            subst hx
            exact hc.1
        | inr hx =>
            refine ih _ (fun i p hp => ?_) x hx
            by_cases hi : y.1 = i
            · subst hi
              have hlt : y.1 < P.threads.length := (List.getElem?_eq_some_iff.mp ht).1
              simp only [List.getElem?_set_self hlt, Option.some.injEq] at hp
              subst hp
              exact hc.2 r
            · rw [List.getElem?_set_ne hi] at hp
              exact hP i p hp

/-- A thread that is not there has no events. -/
theorem threadTrace_exec_eq_nil (xs : List (Move V)) {P : Pool V β} {i : Nat}
    (hi : P.threads[i]? = none) : threadTrace i (exec xs P).1 = [] := by
  have hsome := exec_uses (Q := fun j _ => (P.threads[j]?).isSome = true) xs P fun j p hp =>
    uses_of_forall (fun _ => by rw [hp]; rfl) p
  rw [threadTrace, List.map_eq_nil_iff, List.filter_eq_nil_iff]
  intro x hx heq
  have h := hsome x hx
  rw [of_decide_eq_true heq, hi] at h
  cases h

end Pool

/-! ## Watching one thread -/

section Watch

variable {R : Protocol S} {J : R.State → V.State → Prop} {P : S.Cmd → Prop} {i : Nat}
  (hown : ∀ m s e s', J m s → R.may m e.cmd → R.admits m e → V.Serves s e s' → J (R.next m e) s')
  (hother : ∀ m s e s', J m s → P e.cmd → V.Serves s e s' → J m s')
include hown hother

/-- Thread `i` is watched by a protocol and the other threads issue commands that satisfy `P`.
What relates the state of the protocol to the state of the server is kept by the whole trace
where the events of thread `i` keep it and the other commands keep it. -/
theorem served_watched {T : List (Nat × Event S)} {m : R.State} {s s' : V.State}
    (h : Served V s (T.map Prod.snd) s') (hmay : R.Allowed m (threadTrace i T))
    (hadm : R.Admitted m (threadTrace i T)) (hP : ∀ x ∈ T, x.1 ≠ i → P x.2.cmd) (hJ : J m s) :
    J (R.after m (threadTrace i T)) s' := by
  induction T generalizing m s with
  | nil =>
      cases h
      exact hJ
  | cons x T ih =>
      obtain ⟨j, e⟩ := x
      obtain ⟨s₁, he, h⟩ := h
      have hP' : ∀ x ∈ T, x.1 ≠ i → P x.2.cmd := fun x hx => hP x (List.mem_cons_of_mem _ hx)
      by_cases hj : j = i
      · subst hj
        rw [threadTrace_cons_self] at hmay hadm ⊢
        exact ih h hmay.2 hadm.2 hP' (hown m s e s₁ hJ hmay.1 hadm.1 he)
      · rw [threadTrace_cons_ne hj] at hmay hadm ⊢
        exact ih h hmay hadm hP' (hother m s e s₁ hJ (hP (j, e) (List.mem_cons_self ..) hj) he)

/-- The same for the schedules of a pool. -/
theorem Pool.exec_watched {Q : β → R.State → Prop} {m : R.State} {p : Prog S β} (xs : List (Move V))
    (P₀ : Pool V β) (hp : P₀.threads[i]? = some p) (hsafe : Safe R p m Q)
    (hothers : ∀ j q, j ≠ i → P₀.threads[j]? = some q → Uses P q)
    (hadm : R.Admitted m (threadTrace i (Pool.exec xs P₀).1)) (hJ : J m P₀.state) :
    J (R.after m (threadTrace i (Pool.exec xs P₀).1)) (Pool.exec xs P₀).2.state := by
  obtain ⟨q, -, hsteps⟩ := Pool.exec_steps xs P₀ i hp
  refine served_watched hown hother (Pool.exec_served xs P₀) (hsafe.allowed hsteps hadm) hadm ?_ hJ
  intro x hx hi
  have huses := Pool.exec_uses (Q := fun j c => j ≠ i → P c) xs P₀ (fun j q hq => ?_) x hx
  · exact huses hi
  · by_cases hj : j = i
    · exact uses_of_forall (fun _ hji => absurd hj hji) q
    · exact (hothers j q hj hq).mono fun _ hc _ => hc

end Watch

/-! ## Watching all threads -/

section WatchAll

variable {R : Nat → Protocol S} {m : ∀ i, (R i).State}
  {J : List (Nat × Event S) → V.State → Prop} {D : List (Nat × Event S) → Nat × Event S → Prop}
  (hstep : ∀ A i e s s', J A s → (R i).may ((R i).after (m i) (threadTrace i A)) e.cmd →
    D A (i, e) → V.Serves s e s' → J (A ++ [(i, e)]) s')
include hstep

/-- Each thread is watched by a protocol of its own.  What relates the trace so far to the state of
the server holds at the end where each event keeps it. -/
theorem served_threads {A T : List (Nat × Event S)} {s s' : V.State}
    (h : Served V s (T.map Prod.snd) s')
    (hmay : ∀ i, (R i).Allowed ((R i).after (m i) (threadTrace i A)) (threadTrace i T))
    (hD : ∀ B x C, T = B ++ x :: C → D (A ++ B) x) (hJ : J A s) : J (A ++ T) s' := by
  induction T generalizing A s with
  | nil =>
      cases h
      rwa [List.append_nil]
  | cons x T ih =>
      obtain ⟨i, e⟩ := x
      obtain ⟨s₁, he, h⟩ := h
      have hi := hmay i
      rw [threadTrace_cons_self] at hi
      have hA : J (A ++ [(i, e)]) s₁ := by
        refine hstep A i e s s₁ hJ hi.1 ?_ he
        simpa using hD [] (i, e) T rfl
      rw [List.append_cons]
      refine ih h (fun j => ?_) (fun B y C hT => ?_) hA
      · rw [threadTrace_append]
        by_cases hj : i = j
        · subst hj
          rw [threadTrace_cons_self, Protocol.after_append]
          exact hi.2
        · have hother := hmay j
          rw [threadTrace_cons_ne hj] at hother
          rw [threadTrace_cons_ne hj, threadTrace_nil, List.append_nil]
          exact hother
      · rw [← List.append_cons]
        exact hD ((i, e) :: B) y C (by rw [hT, List.cons_append])

/-- The same for the schedules of a pool whose threads are safe whatever the answers are. -/
theorem Pool.exec_threads {Q : ∀ i, β → (R i).State → Prop} (xs : List (Move V)) (P : Pool V β)
    (hDits : ∀ i m e, (R i).admits m e)
    (hsafe : ∀ i p, P.threads[i]? = some p → Safe (R i) p (m i) (Q i))
    (hD : ∀ A x B, (Pool.exec xs P).1 = A ++ x :: B → D A x) (hJ : J [] P.state) :
    J (Pool.exec xs P).1 (Pool.exec xs P).2.state := by
  refine served_threads hstep (A := []) (Pool.exec_served xs P) (fun i => ?_) hD hJ
  cases hp : P.threads[i]? with
  | some p =>
      obtain ⟨q, -, hsteps⟩ := Pool.exec_steps xs P i hp
      exact (hsafe i p hp).allowed hsteps (Protocol.admitted_iff.mpr fun _ _ _ _ => hDits ..)
  | none =>
      rw [Pool.threadTrace_exec_eq_nil xs hp]
      trivial

end WatchAll

end Effect
