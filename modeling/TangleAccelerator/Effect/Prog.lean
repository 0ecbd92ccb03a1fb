import Mathlib

/-!
# Programs as command trees

A sequential program that talks to servers is a tree: it has returned, or it
has issued a command and continues with the answer.  `Prog S α` is the type of
such trees over a signature `S` of commands.  A tree says nothing about the
servers, so the same program can be run alone, against servers that fail, or
interleaved with other programs.

A *trace* is a list of events, each a command with the answer it got.

* `Path p τ a`: the program goes through the events `τ` and returns `a`.
* `Steps p τ q`: it goes through `τ` and what is left of it is `q`.
* `Served V s τ s'`: the server `V` can give the answers of `τ` from state `s`
  and is then in state `s'`.
* `Runs V p s τ a s'`: both at once, a complete run of `p` alone against `V`.

Servers are nondeterministic through an explicit *choice*, so a run can also be
computed (`exec`), given the choices.

Programs that can fail are `ExceptT ε (Prog S)`.  The lemmas `path_run_bind` and
`runs_run_bind` invert a sequence of two such programs: the first one failed and
that is the result, or it succeeded and the second one ran on its value.
-/

namespace Effect

/-- The commands a program can issue and the type of the answer to each. -/
structure Sig where
  /-- The commands. -/
  Cmd : Type
  /-- The answers to a command. -/
  Ans : Cmd → Type

/-- A program over a signature. -/
inductive Prog (S : Sig) (α : Type) where
  | ret (a : α) : Prog S α
  | call (c : S.Cmd) (k : S.Ans c → Prog S α) : Prog S α

/-- A command with the answer it got. -/
structure Event (S : Sig) where
  /-- The command. -/
  cmd : S.Cmd
  /-- Its answer. -/
  ans : S.Ans cmd

variable {S : Sig} {α β ε : Type}

/-- Sequencing. -/
def Prog.bind : Prog S α → (α → Prog S β) → Prog S β
  | .ret a, f => f a
  | .call c k, f => .call c fun r => (k r).bind f

instance : Monad (Prog S) where
  pure := .ret
  bind := .bind

/-- Issue one command and return its answer. -/
def command (c : S.Cmd) : Prog S (S.Ans c) := .call c .ret

/-- Go on, or fail with `e`. -/
def ensure (b : Bool) (e : ε) : ExceptT ε (Prog S) Unit :=
  if b then pure () else throw e

/-- Return a value that is already there, or fail as it says. -/
def settle (r : Except ε α) : ExceptT ε (Prog S) α := ExceptT.mk (pure r)

/-- Return the value that is there, or fail with `e`. -/
def demand (o : Option α) (e : ε) : ExceptT ε (Prog S) α :=
  settle (o.elim (.error e) .ok)

theorem bind_ret (a : α) (f : α → Prog S β) : (Prog.ret a >>= f) = f a := rfl

theorem bind_call (c : S.Cmd) (k : S.Ans c → Prog S α) (f : α → Prog S β) :
    (Prog.call c k >>= f) = .call c fun r => k r >>= f := rfl

theorem Prog.bind_pure : ∀ p : Prog S α, (p >>= Prog.ret) = p
  | .ret _ => rfl
  | .call c k => congrArg (Prog.call c) (funext fun r => Prog.bind_pure (k r))

theorem Prog.bind_assoc {γ : Type} : ∀ (p : Prog S α) (f : α → Prog S β) (g : β → Prog S γ),
    (p >>= f >>= g) = (p >>= fun a => f a >>= g)
  | .ret _, _, _ => rfl
  | .call c k, f, g => congrArg (Prog.call c) (funext fun r => Prog.bind_assoc (k r) f g)

instance : LawfulMonad (Prog S) :=
  LawfulMonad.mk' _ Prog.bind_pure bind_ret Prog.bind_assoc

/-! ## Paths -/

/-- `Path p τ a`: the program `p` goes through the events `τ` and returns `a`. -/
def Path : Prog S α → List (Event S) → α → Prop
  | .ret a, τ, b => τ = [] ∧ b = a
  | .call c k, τ, b => ∃ r τ', τ = ⟨c, r⟩ :: τ' ∧ Path (k r) τ' b

/-- `Steps p τ q`: the program `p` goes through the events `τ`, and `q` is left. -/
def Steps : Prog S α → List (Event S) → Prog S α → Prop
  | p, [], q => q = p
  | .ret _, _ :: _, _ => False
  | .call c k, e :: τ, q => ∃ r, e = ⟨c, r⟩ ∧ Steps (k r) τ q

@[simp] theorem steps_nil (p q : Prog S α) : Steps p [] q ↔ q = p := by
  cases p <;> exact Iff.rfl

@[simp] theorem path_ret (a b : α) (τ : List (Event S)) :
    Path (Prog.ret a) τ b ↔ τ = [] ∧ b = a := Iff.rfl

@[simp] theorem path_pure (a b : α) (τ : List (Event S)) :
    Path (pure a : Prog S α) τ b ↔ τ = [] ∧ b = a := Iff.rfl

theorem path_call (c : S.Cmd) (k : S.Ans c → Prog S α) (τ : List (Event S)) (b : α) :
    Path (Prog.call c k) τ b ↔ ∃ r τ', τ = ⟨c, r⟩ :: τ' ∧ Path (k r) τ' b := Iff.rfl

@[simp] theorem path_command (c : S.Cmd) (τ : List (Event S)) (r : S.Ans c) :
    Path (command c) τ r ↔ τ = [⟨c, r⟩] := by
  constructor
  · rintro ⟨r', τ', rfl, rfl, rfl⟩
    rfl
  · rintro rfl
    exact ⟨r, [], rfl, rfl, rfl⟩

/-- A path of a sequence is a path of each part, one after the other. -/
theorem path_bind (f : α → Prog S β) (b : β) : ∀ (p : Prog S α) (τ : List (Event S)),
    Path (p >>= f) τ b ↔ ∃ a τ₁ τ₂, τ = τ₁ ++ τ₂ ∧ Path p τ₁ a ∧ Path (f a) τ₂ b
  | .ret a, τ => by
      rw [bind_ret]
      constructor
      · intro h
        exact ⟨a, [], τ, rfl, ⟨rfl, rfl⟩, h⟩
      · rintro ⟨_, _, _, rfl, ⟨rfl, rfl⟩, h⟩
        exact h
  | .call c k, τ => by
      rw [bind_call, path_call]
      constructor
      · rintro ⟨r, τ', rfl, h⟩
        obtain ⟨a, τ₁, τ₂, rfl, h₁, h₂⟩ := (path_bind f b (k r) τ').mp h
        exact ⟨a, ⟨c, r⟩ :: τ₁, τ₂, rfl, ⟨r, τ₁, rfl, h₁⟩, h₂⟩
      · rintro ⟨a, _, τ₂, rfl, ⟨r, τ', rfl, h₁⟩, h₂⟩
        exact ⟨r, τ' ++ τ₂, rfl, (path_bind f b (k r) (τ' ++ τ₂)).mpr ⟨a, τ', τ₂, rfl, h₁, h₂⟩⟩

/-- A program has returned exactly when it went through a path. -/
theorem steps_ret_iff : ∀ (p : Prog S α) (τ : List (Event S)) (a : α),
    Steps p τ (.ret a) ↔ Path p τ a
  | .ret b, [], a => by
      simp only [Steps, path_ret, true_and, Prog.ret.injEq]
  | .ret b, e :: τ, a => by
      simp [Steps]
  | .call c k, [], a => by
      simp [Steps, path_call]
  | .call c k, e :: τ, a => by
      simp only [Steps, path_call, List.cons.injEq, steps_ret_iff]
      constructor
      · rintro ⟨r, rfl, h⟩
        exact ⟨r, τ, ⟨rfl, rfl⟩, h⟩
      · rintro ⟨r, _, ⟨rfl, rfl⟩, h⟩
        exact ⟨r, rfl, h⟩

/-- The answers decide where a path goes, so two paths of a program along one trace are
the same path. -/
theorem path_unique : ∀ {p : Prog S α} {τ₁ τ₂ ρ₁ ρ₂ : List (Event S)} {a b : α},
    Path p τ₁ a → Path p τ₂ b → τ₁ ++ ρ₁ = τ₂ ++ ρ₂ → τ₁ = τ₂ ∧ ρ₁ = ρ₂ ∧ a = b
  | .ret _, _, _, _, _, _, _, h₁, h₂, h => by
      obtain ⟨rfl, rfl⟩ := h₁
      obtain ⟨rfl, rfl⟩ := h₂
      exact ⟨rfl, h, rfl⟩
  | .call c k, _, _, _, _, _, _, h₁, h₂, h => by
      obtain ⟨r₁, τ₁, rfl, h₁⟩ := h₁
      obtain ⟨r₂, τ₂, rfl, h₂⟩ := h₂
      obtain ⟨he, hrest⟩ := List.cons.inj h
      cases he
      obtain ⟨rfl, hρ, hab⟩ := path_unique h₁ h₂ hrest
      exact ⟨rfl, hρ, hab⟩

/-- A path and one along its start have the same result. -/
theorem path_result {p : Prog S α} {τ ρ : List (Event S)} {a b : α} (h₁ : Path p (τ ++ ρ) a)
    (h₂ : Path p τ b) : a = b := by
  have h : (τ ++ ρ) ++ [] = τ ++ ρ := List.append_nil _
  exact (path_unique h₁ h₂ h).2.2

theorem Steps.trans : ∀ {τ₁ : List (Event S)} {p q r : Prog S α} {τ₂ : List (Event S)},
    Steps p τ₁ q → Steps q τ₂ r → Steps p (τ₁ ++ τ₂) r
  | [], _, _, _, _, h₁, h₂ => by
      rw [steps_nil] at h₁
      subst h₁
      exact h₂
  | _ :: _, .call _ _, _, _, _, ⟨x, he, h₁⟩, h₂ => ⟨x, he, h₁.trans h₂⟩

/-! ## Servers -/

/-- A server of a signature.  What it does at a command depends on its state and
on a choice, which stands for everything the program cannot see. -/
structure Server (S : Sig) where
  /-- The states. -/
  State : Type
  /-- The choices at a command. -/
  Choice : S.Cmd → Type
  /-- The answer and the next state. -/
  serve : (c : S.Cmd) → Choice c → State → S.Ans c × State

/-- `V.Serves s e s'`: in state `s` the server can answer the event `e` and be in
`s'` after it. -/
def Server.Serves (V : Server S) (s : V.State) (e : Event S) (s' : V.State) : Prop :=
  ∃ x, V.serve e.cmd x s = (e.ans, s')

/-- The server answers a whole trace. -/
def Served (V : Server S) : V.State → List (Event S) → V.State → Prop
  | s, [], s' => s' = s
  | s, e :: τ, s' => ∃ s₁, V.Serves s e s₁ ∧ Served V s₁ τ s'

variable {V : Server S}

@[simp] theorem served_nil (s s' : V.State) : Served V s [] s' ↔ s' = s := Iff.rfl

theorem served_cons (s s' : V.State) (e : Event S) (τ : List (Event S)) :
    Served V s (e :: τ) s' ↔ ∃ s₁, V.Serves s e s₁ ∧ Served V s₁ τ s' := Iff.rfl

@[simp] theorem served_singleton (s s' : V.State) (e : Event S) :
    Served V s [e] s' ↔ V.Serves s e s' := by
  simp [served_cons]

theorem served_append : ∀ (τ₁ τ₂ : List (Event S)) (s s' : V.State),
    Served V s (τ₁ ++ τ₂) s' ↔ ∃ s₁, Served V s τ₁ s₁ ∧ Served V s₁ τ₂ s'
  | [], τ₂, s, s' => by simp
  | e :: τ₁, τ₂, s, s' => by
      simp only [List.cons_append, served_cons, served_append τ₁ τ₂]
      constructor
      · rintro ⟨s₁, he, s₂, h₁, h₂⟩
        exact ⟨s₂, ⟨s₁, he, h₁⟩, h₂⟩
      · rintro ⟨s₂, ⟨s₁, he, h₁⟩, h₂⟩
        exact ⟨s₁, he, s₂, h₁, h₂⟩

/-- What every event of a trace keeps, the trace keeps. -/
theorem Served.keeps {I : V.State → Prop} :
    ∀ {τ : List (Event S)} {s s' : V.State}, Served V s τ s' →
      (∀ e ∈ τ, ∀ t t', V.Serves t e t' → I t → I t') → I s → I s'
  | [], _, _, h, _, hI => by cases h; exact hI
  | e :: τ, s, s', ⟨s₁, he, h⟩, hk, hI =>
      h.keeps (fun e' he' => hk e' (List.mem_cons_of_mem _ he'))
        (hk e (List.mem_cons_self ..) s s₁ he hI)

/-- A server that simulates another one step by step simulates it along every trace. -/
theorem Served.simulates {W : Server S} {f : V.State → W.State}
    (hf : ∀ {s e s'}, V.Serves s e s' → W.Serves (f s) e (f s')) :
    ∀ {τ : List (Event S)} {s s' : V.State}, Served V s τ s' → Served W (f s) τ (f s')
  | [], _, _, h => congrArg f h
  | _ :: _, _, _, ⟨s₁, he, h⟩ => ⟨f s₁, hf he, h.simulates hf⟩

/-! ## Runs -/

/-- `Runs V p s τ a s'`: alone against `V` in state `s`, the program `p` has the
trace `τ`, returns `a`, and leaves the server in `s'`. -/
def Runs (V : Server S) (p : Prog S α) (s : V.State) (τ : List (Event S)) (a : α)
    (s' : V.State) : Prop :=
  Path p τ a ∧ Served V s τ s'

@[simp] theorem runs_ret (a b : α) (s s' : V.State) (τ : List (Event S)) :
    Runs V (Prog.ret a) s τ b s' ↔ τ = [] ∧ b = a ∧ s' = s := by
  constructor
  · rintro ⟨⟨rfl, rfl⟩, h⟩
    exact ⟨rfl, rfl, h⟩
  · rintro ⟨rfl, rfl, rfl⟩
    exact ⟨⟨rfl, rfl⟩, rfl⟩

@[simp] theorem runs_pure (a b : α) (s s' : V.State) (τ : List (Event S)) :
    Runs V (pure a : Prog S α) s τ b s' ↔ τ = [] ∧ b = a ∧ s' = s := runs_ret ..

@[simp] theorem runs_command (c : S.Cmd) (s s' : V.State) (τ : List (Event S)) (r : S.Ans c) :
    Runs V (command c) s τ r s' ↔ τ = [⟨c, r⟩] ∧ V.Serves s ⟨c, r⟩ s' := by
  rw [Runs, path_command]
  constructor
  · rintro ⟨rfl, h⟩
    exact ⟨rfl, (served_singleton ..).mp h⟩
  · rintro ⟨rfl, h⟩
    exact ⟨rfl, (served_singleton ..).mpr h⟩

/-- A run of a sequence is a run of each part, one after the other. -/
theorem runs_bind (p : Prog S α) (f : α → Prog S β) (s s' : V.State) (τ : List (Event S))
    (b : β) :
    Runs V (p >>= f) s τ b s' ↔
      ∃ a τ₁ τ₂ s₁, τ = τ₁ ++ τ₂ ∧ Runs V p s τ₁ a s₁ ∧ Runs V (f a) s₁ τ₂ b s' := by
  simp only [Runs, path_bind]
  constructor
  · rintro ⟨⟨a, τ₁, τ₂, rfl, h₁, h₂⟩, h⟩
    obtain ⟨s₁, hs₁, hs₂⟩ := (served_append ..).mp h
    exact ⟨a, τ₁, τ₂, s₁, rfl, ⟨h₁, hs₁⟩, h₂, hs₂⟩
  · rintro ⟨a, τ₁, τ₂, s₁, rfl, ⟨h₁, hs₁⟩, h₂, hs₂⟩
    exact ⟨⟨a, τ₁, τ₂, rfl, h₁, h₂⟩, (served_append ..).mpr ⟨s₁, hs₁, hs₂⟩⟩

/-- Compute a run from the choices of the server: its trace, its result and the
state it ends in. -/
def exec (V : Server S) : Prog S α → (Nat → (c : S.Cmd) → V.Choice c) → V.State →
    List (Event S) × α × V.State
  | .ret a, _, s => ([], a, s)
  | .call c k, o, s =>
      let r := V.serve c (o 0 c) s
      let t := exec V (k r.1) (fun n => o (n + 1)) r.2
      (⟨c, r.1⟩ :: t.1, t.2)

theorem runs_exec : ∀ (p : Prog S α) (o : Nat → (c : S.Cmd) → V.Choice c) (s : V.State),
    Runs V p s (exec V p o s).1 (exec V p o s).2.1 (exec V p o s).2.2
  | .ret _, _, _ => ⟨⟨rfl, rfl⟩, rfl⟩
  | .call c k, o, s => by
      have ih := runs_exec (k (V.serve c (o 0 c) s).1) (fun n => o (n + 1))
        (V.serve c (o 0 c) s).2
      exact ⟨⟨_, _, rfl, ih.1⟩, ⟨_, ⟨o 0 c, rfl⟩, ih.2⟩⟩

theorem path_exec (p : Prog S α) (o : Nat → (c : S.Cmd) → V.Choice c) (s : V.State) :
    Path p (exec V p o s).1 (exec V p o s).2.1 :=
  (runs_exec p o s).1

/-- What holds of every answer the server gives holds of every event of a computed run. -/
theorem forall_mem_exec {P : Event S → Prop} :
    ∀ (p : Prog S α) {o : Nat → (c : S.Cmd) → V.Choice c} (s : V.State),
      (∀ n c s, P ⟨c, (V.serve c (o n c) s).1⟩) → ∀ e ∈ (exec V p o s).1, P e
  | .ret _, _, _, _ => List.forall_mem_nil _
  | .call c k, o, s, h => by
      rw [exec, List.forall_mem_cons]
      exact ⟨h 0 c s, forall_mem_exec _ _ fun n => h (n + 1)⟩

/-- A server without alternatives has no other run than the computed one. -/
theorem runs_eq_exec (hV : ∀ c, Subsingleton (V.Choice c)) :
    ∀ {p : Prog S α} {s s' : V.State} {τ : List (Event S)} {a : α}
      (o : Nat → (c : S.Cmd) → V.Choice c), Runs V p s τ a s' → exec V p o s = (τ, a, s')
  | .ret _, _, _, _, _, _, h => by
      obtain ⟨⟨rfl, rfl⟩, rfl⟩ := h
      rfl
  | .call c k, _, _, _, _, o, h => by
      obtain ⟨⟨r, τ, rfl, hpath⟩, s₁, ⟨x, hserve⟩, hserved⟩ := h
      obtain rfl := (hV c).elim x (o 0 c)
      simp only [exec, hserve]
      rw [runs_eq_exec hV (fun n => o (n + 1)) ⟨hpath, hserved⟩]

/-! ## Programs that can fail -/

section Fallible

variable (x : ExceptT ε (Prog S) α) (f : α → ExceptT ε (Prog S) β)

/-- A path of a sequence of fallible programs: the first fails, or the second
runs on its value. -/
theorem path_run_bind (τ : List (Event S)) (r : Except ε β) :
    Path (x >>= f).run τ r ↔
      (∃ e, r = .error e ∧ Path x.run τ (.error e)) ∨
        ∃ a τ₁ τ₂, τ = τ₁ ++ τ₂ ∧ Path x.run τ₁ (.ok a) ∧ Path (f a).run τ₂ r := by
  rw [ExceptT.run_bind, path_bind]
  constructor
  · rintro ⟨a | a, τ₁, τ₂, rfl, h₁, h₂⟩
    · obtain ⟨rfl, rfl⟩ := h₂
      exact Or.inl ⟨a, rfl, by simpa using h₁⟩
    · exact Or.inr ⟨a, τ₁, τ₂, rfl, h₁, h₂⟩
  · rintro (⟨e, rfl, h⟩ | ⟨a, τ₁, τ₂, rfl, h₁, h₂⟩)
    · exact ⟨.error e, τ, [], by simp, h, rfl, rfl⟩
    · exact ⟨.ok a, τ₁, τ₂, rfl, h₁, h₂⟩

/-- A run of a sequence of fallible programs: the first fails, or the second
runs on its value. -/
theorem runs_run_bind (s s' : V.State) (τ : List (Event S)) (r : Except ε β) :
    Runs V (x >>= f).run s τ r s' ↔
      (∃ e, r = .error e ∧ Runs V x.run s τ (.error e) s') ∨
        ∃ a τ₁ τ₂ s₁, τ = τ₁ ++ τ₂ ∧ Runs V x.run s τ₁ (.ok a) s₁ ∧
          Runs V (f a).run s₁ τ₂ r s' := by
  rw [ExceptT.run_bind, runs_bind]
  constructor
  · rintro ⟨a | a, τ₁, τ₂, s₁, rfl, h₁, h₂⟩
    · obtain ⟨rfl, rfl, rfl⟩ := (runs_pure ..).mp h₂
      exact Or.inl ⟨a, rfl, by simpa using h₁⟩
    · exact Or.inr ⟨a, τ₁, τ₂, s₁, rfl, h₁, h₂⟩
  · rintro (⟨e, rfl, h⟩ | ⟨a, τ₁, τ₂, s₁, rfl, h₁, h₂⟩)
    · exact ⟨.error e, τ, [], s', by simp, h, (runs_pure ..).mpr ⟨rfl, rfl, rfl⟩⟩
    · exact ⟨.ok a, τ₁, τ₂, s₁, rfl, h₁, h₂⟩

/-- A path of a sequence that succeeds is a path of each part that does. -/
theorem path_run_bind_ok (τ : List (Event S)) (b : β) :
    Path (x >>= f).run τ (.ok b) ↔
      ∃ a τ₁ τ₂, τ = τ₁ ++ τ₂ ∧ Path x.run τ₁ (.ok a) ∧ Path (f a).run τ₂ (.ok b) := by
  rw [path_run_bind]
  constructor
  · intro h
    rcases h with ⟨e, h, -⟩ | h
    · cases h
    · exact h
  · exact Or.inr

/-- A run of a sequence that succeeds is a run of each part that does. -/
theorem runs_run_bind_ok (s s' : V.State) (τ : List (Event S)) (b : β) :
    Runs V (x >>= f).run s τ (.ok b) s' ↔
      ∃ a τ₁ τ₂ s₁, τ = τ₁ ++ τ₂ ∧ Runs V x.run s τ₁ (.ok a) s₁ ∧
        Runs V (f a).run s₁ τ₂ (.ok b) s' := by
  rw [runs_run_bind]
  constructor
  · intro h
    rcases h with ⟨e, h, -⟩ | h
    · cases h
    · exact h
  · exact Or.inr

@[simp] theorem path_run_pure (a : α) (τ : List (Event S)) (r : Except ε α) :
    Path (pure a : ExceptT ε (Prog S) α).run τ r ↔ τ = [] ∧ r = .ok a := Iff.rfl

@[simp] theorem path_run_throw (e : ε) (τ : List (Event S)) (r : Except ε α) :
    Path (throw e : ExceptT ε (Prog S) α).run τ r ↔ τ = [] ∧ r = .error e := Iff.rfl

@[simp] theorem runs_run_pure (a : α) (s s' : V.State) (τ : List (Event S)) (r : Except ε α) :
    Runs V (pure a : ExceptT ε (Prog S) α).run s τ r s' ↔ τ = [] ∧ r = .ok a ∧ s' = s :=
  runs_ret ..

@[simp] theorem runs_run_throw (e : ε) (s s' : V.State) (τ : List (Event S))
    (r : Except ε α) :
    Runs V (throw e : ExceptT ε (Prog S) α).run s τ r s' ↔ τ = [] ∧ r = .error e ∧ s' = s :=
  runs_ret ..

/-- A program that cannot fail, used where one may, returns its value. -/
theorem path_run_lift (p : Prog S α) (τ : List (Event S)) (r : Except ε α) :
    Path (liftM p : ExceptT ε (Prog S) α).run τ r ↔ ∃ a, r = .ok a ∧ Path p τ a := by
  change Path (Except.ok <$> p) τ r ↔ _
  rw [map_eq_pure_bind, path_bind]
  constructor
  · rintro ⟨a, τ₁, τ₂, rfl, h, rfl, rfl⟩
    exact ⟨a, rfl, by simpa using h⟩
  · rintro ⟨a, rfl, h⟩
    exact ⟨a, τ, [], by simp, h, rfl, rfl⟩

theorem runs_run_lift (p : Prog S α) (s s' : V.State) (τ : List (Event S)) (r : Except ε α) :
    Runs V (liftM p : ExceptT ε (Prog S) α).run s τ r s' ↔ ∃ a, r = .ok a ∧ Runs V p s τ a s' := by
  simp only [Runs, path_run_lift]
  constructor
  · rintro ⟨⟨a, rfl, h⟩, hs⟩
    exact ⟨a, rfl, h, hs⟩
  · rintro ⟨a, rfl, h, hs⟩
    exact ⟨⟨a, rfl, h⟩, hs⟩

theorem ensure_true_bind (e : ε) (f : Unit → ExceptT ε (Prog S) β) :
    (ensure true e >>= f) = f () := rfl

@[simp] theorem path_run_ensure (b : Bool) (e : ε) (τ : List (Event S)) (r : Except ε Unit) :
    Path (ensure b e : ExceptT ε (Prog S) Unit).run τ r ↔
      τ = [] ∧ r = if b then .ok () else .error e := by
  cases b <;> exact Iff.rfl

@[simp] theorem runs_run_ensure (b : Bool) (e : ε) (s s' : V.State) (τ : List (Event S))
    (r : Except ε Unit) :
    Runs V (ensure b e : ExceptT ε (Prog S) Unit).run s τ r s' ↔
      τ = [] ∧ (r = if b then .ok () else .error e) ∧ s' = s := by
  cases b <;> exact runs_ret ..

@[simp] theorem path_run_settle (q : Except ε α) (τ : List (Event S)) (r : Except ε α) :
    Path (settle q : ExceptT ε (Prog S) α).run τ r ↔ τ = [] ∧ r = q := Iff.rfl

@[simp] theorem runs_run_settle (q : Except ε α) (s s' : V.State) (τ : List (Event S))
    (r : Except ε α) :
    Runs V (settle q : ExceptT ε (Prog S) α).run s τ r s' ↔ τ = [] ∧ r = q ∧ s' = s :=
  runs_ret ..

end Fallible

/-! ## Where programs fail -/

section Blame

variable {F G : Event S → Bool} {x : ExceptT ε (Prog S) α} {f : α → ExceptT ε (Prog S) β}

/-- The program fails only where an event is marked. -/
def FailsOnlyAt (F : Event S → Bool) (x : ExceptT ε (Prog S) α) : Prop :=
  ∀ τ r, Path x.run τ r → (∀ e ∈ τ, F e = false) → ∃ a, r = .ok a

/-- The program fails wherever an event is marked. -/
def FailsAt (F : Event S → Bool) (x : ExceptT ε (Prog S) α) : Prop :=
  ∀ τ a, Path x.run τ (.ok a) → ∀ e ∈ τ, F e = false

theorem failsOnlyAt_pure (a : α) : FailsOnlyAt F (pure a : ExceptT ε (Prog S) α) := by
  intro τ r h _
  exact ⟨a, ((path_run_pure ..).mp h).2⟩

theorem failsAt_pure (a : α) : FailsAt F (pure a : ExceptT ε (Prog S) α) := by
  intro τ b h e he
  rw [((path_run_pure ..).mp h).1] at he
  cases he

theorem failsAt_throw (e : ε) : FailsAt F (throw e : ExceptT ε (Prog S) α) := by
  intro τ b h
  cases ((path_run_throw ..).mp h).2

theorem failsAt_ensure (b : Bool) (e : ε) : FailsAt F (ensure b e : ExceptT ε (Prog S) Unit) := by
  cases b with
  | true => exact failsAt_pure ()
  | false => exact failsAt_throw e

theorem failsAt_demand (o : Option α) (e : ε) :
    FailsAt F (demand o e : ExceptT ε (Prog S) α) := by
  cases o with
  | some a => exact failsAt_pure a
  | none => exact failsAt_throw e

theorem FailsOnlyAt.bind (hx : FailsOnlyAt F x) (hf : ∀ a, FailsOnlyAt F (f a)) :
    FailsOnlyAt F (x >>= f) := by
  intro τ r h hτ
  rw [path_run_bind] at h
  rcases h with ⟨e, rfl, h⟩ | ⟨a, τ₁, τ₂, rfl, -, h⟩
  · obtain ⟨a, ha⟩ := hx τ _ h hτ
    cases ha
  · exact hf a τ₂ r h fun e he => hτ e (List.mem_append_right _ he)

theorem FailsAt.bind (hx : FailsAt F x) (hf : ∀ a, FailsAt F (f a)) : FailsAt F (x >>= f) := by
  intro τ b h
  obtain ⟨a, τ₁, τ₂, rfl, h₁, h₂⟩ := (path_run_bind_ok ..).mp h
  exact List.forall_mem_append.mpr ⟨hx τ₁ a h₁, hf a τ₂ b h₂⟩

/-- Marking more events asks for less. -/
theorem FailsOnlyAt.mono (hx : FailsOnlyAt F x) (hFG : ∀ e, G e = false → F e = false) :
    FailsOnlyAt G x :=
  fun τ r h hτ => hx τ r h fun e he => hFG e (hτ e he)

end Blame

end Effect
