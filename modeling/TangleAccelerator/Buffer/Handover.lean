import TangleAccelerator.Buffer.Footprint

/-!
# Handing a request over from the buffer list to the complete list

A broadcast iteration reads the UUID at the head of the buffer list, sends what is stored
under it, and then pops the head of the list.  Pushers work at the same head, so a push
that comes between the read and the pop puts another UUID there, and this one is moved to
the complete list.

The main result runs one iteration in a pool with any number of pushers, from any world
and under any schedule.  The iteration hands over what it sent (`HandsOver`) exactly when
no push came between its read and its pop, and the UUID it read is placed in the buffer
list only once (`Undisturbed`).

The buffer list is only ever pushed on by the pushers, so after any part of a trace without
a pop it is what was pushed, newest first, before what it was (`served_items`).
-/

namespace TangleAccelerator

open Effect

variable {n m : ListName} {w w' : World} {τ : List (Event sig)} {α : Type}

/-! ## Pushes -/

/-- The UUID an event puts on the list `n`. -/
def pushed (n : ListName) : Event sig → Option Uuid
  | ⟨.redis (.lpush (.list _) _), .error⟩ => none
  | ⟨.redis (.lpush (.list m) u), _⟩ => if m = n then some u else none
  | _ => none

/-- The UUIDs a trace puts on the list `n`, in this order. -/
def pushes (n : ListName) (τ : List (Event sig)) : List Uuid := τ.filterMap (pushed n)

@[simp] theorem pushes_nil : pushes n [] = [] := rfl

theorem pushes_append (τ₁ τ₂ : List (Event sig)) :
    pushes n (τ₁ ++ τ₂) = pushes n τ₁ ++ pushes n τ₂ := List.filterMap_append

theorem pushes_cons (e : Event sig) (τ : List (Event sig)) :
    pushes n (e :: τ) = (pushed n e).toList ++ pushes n τ := by
  cases h : pushed n e <;> simp [pushes, h]

/-- The command writes the list `n` only by a push. -/
def Cmd.OnlyPushes (n : ListName) (c : Cmd) : Prop :=
  c.WritesKey (.list n) → ∃ u : Uuid, c = .redis (.lpush (.list n) u)

theorem pushed_eq_none {e : Event sig} (h : ¬ e.cmd.WritesKey (.list n)) : pushed n e = none := by
  unfold pushed
  split
  · rfl
  · rename_i m u _ _
    refine if_neg fun hm => h ?_
    subst hm
    exact ⟨trivial, rfl⟩
  · rfl

theorem pushed_lpush {u : Uuid} {r : Redis.Reply Empty} (hr : r ≠ .error) :
    pushed n ⟨.redis (.lpush (.list n) u), r⟩ = some u := by
  cases r with
  | error => exact absurd rfl hr
  | _ => exact if_pos rfl

theorem serves_items {e : Event sig} (h : world.Serves w e w') (he : e.cmd.OnlyPushes n) :
    Redis.items w'.redis (.list n) = (pushed n e).toList ++ Redis.items w.redis (.list n) := by
  by_cases hw : e.cmd.WritesKey (.list n)
  · obtain ⟨u, hc⟩ := he hw
    obtain ⟨c, r⟩ := e
    subst hc
    have ha := (serves_redis.mp h).1
    by_cases hr : r = .error
    · subst hr
      rw [ha.lpush_error]
      rfl
    · rw [ha.items_lpush hr, pushed_lpush hr]
      rfl
  · rw [pushed_eq_none hw, Redis.items, serves_key h hw]
    rfl

/-- Where a list is only pushed on, it grows at its head. -/
theorem served_items (h : Served world w τ w') (hτ : ∀ e ∈ τ, e.cmd.OnlyPushes n) :
    Redis.items w'.redis (.list n) =
      (pushes n τ).reverse ++ Redis.items w.redis (.list n) := by
  induction τ generalizing w with
  | nil =>
      cases h
      rfl
  | cons e τ ih =>
      obtain ⟨w₁, he, h⟩ := h
      rw [ih h fun e' he' => hτ e' (List.mem_cons_of_mem _ he'),
        serves_items he (hτ e (List.mem_cons_self ..)), pushes_cons]
      cases pushed n e <;> simp

/-! ## The events of an iteration -/

/-- What an iteration that moved a UUID went through. -/
theorem path_broadcastIteration {state : Bool} {publish : Uuid → Proc (Option α)}
    {it : Iteration α} (h : Path (broadcastIteration state n m publish).run τ (.ok (.moved it))) :
    ∃ len τ₀ pushReply, pushReply ≠ .error ∧
      Path (publish it.peeked).run τ₀ (.ok (some it.sent)) ∧
      τ = ⟨.redis (.llen (.list n)), len⟩ :: ⟨.redis (.lindex (.list n) 0), .bulk it.peeked⟩ ::
        (τ₀ ++ [⟨.redis (.lpop (.list n)), .bulk it.popped⟩,
          ⟨.redis (.lpush (.list m) it.popped), pushReply⟩, ⟨.unlock, true⟩]) := by
  rw [broadcastIteration, path_run_bind_ok] at h
  obtain ⟨len, τ₁, τ₂, rfl, hlen, h⟩ := h
  obtain ⟨-, lenReply, rfl, -⟩ := path_cacheOn_ok.mp hlen
  split at h
  · obtain ⟨-, h⟩ := (path_run_pure ..).mp h
    cases h
  rw [path_run_bind_ok] at h
  obtain ⟨u, τ₃, τ₄, rfl, hpeek, h⟩ := h
  obtain ⟨-, peekReply, rfl, hu⟩ := path_cacheOn_ok.mp hpeek
  obtain rfl := stringReply_eq_ok.mp hu
  rw [path_run_bind_ok] at h
  obtain ⟨sent, τ₅, τ₆, rfl, hpub, h⟩ := h
  cases sent with
  | none =>
      obtain ⟨-, h⟩ := (path_run_pure ..).mp h
      cases h
  | some sent =>
      rw [path_run_bind_ok] at h
      obtain ⟨popped, τ₇, τ₈, rfl, hpop, h⟩ := h
      obtain ⟨-, popReply, rfl, hpopped⟩ := path_cacheOn_ok.mp hpop
      obtain rfl := stringReply_eq_ok.mp hpopped
      rw [path_run_bind_ok] at h
      obtain ⟨_, τ₉, τ₁₀, rfl, hpush, h⟩ := h
      obtain ⟨-, pushReply, rfl, hr⟩ := path_cacheOn_ok.mp hpush
      rw [path_run_bind_ok] at h
      obtain ⟨ok, τ₁₁, τ₁₂, rfl, hunlock, h⟩ := h
      obtain ⟨_, hok, rfl⟩ := (path_run_request ..).mp hunlock
      cases hok
      rw [path_run_bind_ok] at h
      obtain ⟨_, τ₁₃, τ₁₄, rfl, hensure, h⟩ := h
      obtain ⟨rfl, hok⟩ := (path_run_ensure ..).mp hensure
      obtain ⟨rfl, hit⟩ := (path_run_pure ..).mp h
      obtain rfl := Pass.moved.inj (Except.ok.inj hit)
      cases ok with
      | false => cases hok
      | true =>
          refine ⟨lenReply, τ₅, pushReply, ?_, hpub, by simp⟩
          intro he
          subst he
          cases hr

/-! ## A pool with one iteration -/

/-- The command reads the head of the list `n`. -/
def Cmd.isPeek (n : ListName) : Cmd → Bool
  | .redis (.lindex (.list m) 0) => m == n
  | _ => false

/-- The command pops the list `n`. -/
def Cmd.isPop (n : ListName) : Cmd → Bool
  | .redis (.lpop (.list m)) => m == n
  | _ => false

/-- The part of a trace before thread `0` reads the head of the list. -/
def beforePeek (n : ListName) (T : List (Nat × Event sig)) : List (Nat × Event sig) :=
  T.takeWhile fun x => !(x.1 == 0 && x.2.cmd.isPeek n)

/-- The part of a trace after that and before thread `0` pops the list. -/
def peekToPop (n : ListName) (T : List (Nat × Event sig)) : List (Nat × Event sig) :=
  (T.dropWhile fun x => !(x.1 == 0 && x.2.cmd.isPeek n)).tail.takeWhile fun x =>
    !(x.1 == 0 && x.2.cmd.isPop n)

/-- The iteration moved the UUID it sent, nothing else came to the complete list, and the
UUID is no longer in the buffer list. -/
structure HandsOver (n m : ListName) (it : Iteration α) (T : List (Nat × Event sig))
    (w' : World) : Prop where
  popped : it.popped = it.peeked
  complete : pushes m (T.map Prod.snd) = [it.peeked]
  gone : it.peeked ∉ Redis.items w'.redis (.list n)

/-- No push came between the read and the pop, and the UUID at the head of the list at the
read is placed in the list only once, at the start or by a push. -/
structure Undisturbed (n : ListName) (w : World) (T : List (Nat × Event sig)) : Prop where
  noPush : pushes n ((peekToPop n T).map Prod.snd) = []
  once : ∃ u, ((pushes n ((beforePeek n T).map Prod.snd)).reverse ++
      Redis.items w.redis (.list n)).head? = some u ∧
    (pushes n (T.map Prod.snd) ++ Redis.items w.redis (.list n)).count u = 1

/-- Segments of a trace of a pool whose thread `0` reads and then pops. -/
theorem beforePeek_eq {A B : List (Nat × Event sig)} {e : Event sig} (he : e.cmd.isPeek n = true)
    (hA : ∀ x ∈ A, x.1 = 0 → x.2.cmd.isPeek n = false) :
    beforePeek n (A ++ (0, e) :: B) = A ∧
      (A ++ (0, e) :: B).dropWhile (fun x => !(x.1 == 0 && x.2.cmd.isPeek n)) = (0, e) :: B := by
  have hA' : ∀ x ∈ A, (!(x.1 == 0 && x.2.cmd.isPeek n)) = true := by
    intro x hx
    by_cases h0 : x.1 = 0
    · simp [hA x hx h0]
    · simp [h0]
  constructor
  · rw [beforePeek, List.takeWhile_append_of_pos hA']
    simp [he]
  · rw [List.dropWhile_append_of_pos hA']
    simp [he]

theorem peekToPop_eq {A C D : List (Nat × Event sig)} {e f : Event sig}
    (he : e.cmd.isPeek n = true) (hf : f.cmd.isPop n = true)
    (hA : ∀ x ∈ A, x.1 = 0 → x.2.cmd.isPeek n = false)
    (hC : ∀ x ∈ C, x.1 = 0 → x.2.cmd.isPop n = false) :
    peekToPop n (A ++ (0, e) :: (C ++ (0, f) :: D)) = C := by
  have hC' : ∀ x ∈ C, (!(x.1 == 0 && x.2.cmd.isPop n)) = true := by
    intro x hx
    by_cases h0 : x.1 = 0
    · simp [hC x hx h0]
    · simp [h0]
  rw [peekToPop, (beforePeek_eq he hA).2, List.tail_cons, List.takeWhile_append_of_pos hC']
  simp [hf]

/-- What pushes between a read of the head and a pop do to a list. -/
theorem pop_eq_peek_iff {pA pC init rest final : List Uuid} {u p : Uuid} (pD : List Uuid)
    (hread : pA.reverse ++ init = u :: rest) (hpop : pC.reverse ++ (u :: rest) = p :: final) :
    (p = u ∧ u ∉ pD.reverse ++ final) ↔ pC = [] ∧ (pA ++ pC ++ pD ++ init).count u = 1 := by
  have hcount : pA.count u + init.count u = rest.count u + 1 := by
    have h := congrArg (List.count u) hread
    simpa [List.count_append] using h
  cases hC : pC.reverse with
  | nil =>
      obtain rfl : pC = [] := List.reverse_eq_nil_iff.mp hC
      obtain ⟨rfl, rfl⟩ := List.cons.inj hpop
      have hsum : (pA ++ [] ++ pD ++ init).count u = pD.count u + rest.count u + 1 := by
        simp only [List.append_nil, List.count_append]
        omega
      rw [hsum, List.mem_append, List.mem_reverse, ← List.count_pos_iff, ← List.count_pos_iff]
      constructor
      · intro h
        exact ⟨rfl, by omega⟩
      · intro h
        exact ⟨rfl, by omega⟩
  | cons q qs =>
      -- the UUID that was read is still behind the newest push
      rw [hC, List.cons_append] at hpop
      obtain ⟨-, rfl⟩ := List.cons.inj hpop
      constructor
      · intro h
        exact absurd (by simp) h.2
      · intro h
        rw [h.1] at hC
        cases hC

/-- The command is a Redis command on the key of `u`, or none. -/
def Cmd.OnUuid (u : Uuid) (c : Cmd) : Prop := ∀ c', c = .redis c' → c'.key = .uuid u

theorem Cmd.OnUuid.not_writes {u : Uuid} {c : Cmd} (h : c.OnUuid u) : ¬ c.WritesKey (.list n) := by
  intro hw
  cases c with
  | redis c =>
      have hk := h c rfl
      rw [hw.2] at hk
      cases hk
  | _ => exact hw

theorem Cmd.OnUuid.not_pop {u : Uuid} {c : Cmd} (h : c.OnUuid u) : c.isPop n = false := by
  unfold Cmd.isPop
  split
  · have hk := h _ rfl
    cases hk
  · rfl

theorem mem_threadTrace {T : List (Nat × Event sig)} {x : Nat × Event sig} {i : Nat} (hx : x ∈ T)
    (hi : x.1 = i) : x.2 ∈ threadTrace i T := by
  simp only [threadTrace, List.mem_map, List.mem_filter]
  exact ⟨x, ⟨hx, by simpa using hi⟩, rfl⟩

theorem pushes_eq_nil (h : ∀ e ∈ τ, ¬ e.cmd.WritesKey (.list n)) : pushes n τ = [] :=
  List.filterMap_eq_nil_iff.mpr fun e he => pushed_eq_none (h e he)

/-- Where the other threads leave a list alone, one thread makes all the pushes. -/
theorem pushes_eq_threadTrace {i : Nat} {T : List (Nat × Event sig)}
    (h : ∀ x ∈ T, x.1 ≠ i → ¬ x.2.cmd.WritesKey (.list n)) :
    pushes n (T.map Prod.snd) = pushes n (threadTrace i T) := by
  induction T with
  | nil => rfl
  | cons x T ih =>
      obtain ⟨j, e⟩ := x
      have ih := ih fun y hy => h y (List.mem_cons_of_mem _ hy)
      by_cases hj : j = i
      · subst hj
        rw [List.map_cons, pushes_cons, threadTrace_cons_self, pushes_cons, ih]
      · have he := pushed_eq_none (h (j, e) (List.mem_cons_self ..) hj)
        rw [List.map_cons, pushes_cons, threadTrace_cons_ne hj, ih, he]
        rfl

section Pool

variable {state : Bool} {publish : Uuid → Proc (Option α)}
  {P : Pool world (Except Status (Pass α))} {xs : List (Move world)} {it : Iteration α}

/-- The list at the read, at the pop and at the end, where it is otherwise only pushed on. -/
theorem served_peek_pop {A C D : List (Event sig)} {u p : Uuid}
    (h : Served world w (A ++ ⟨.redis (.lindex (.list n) 0), .bulk u⟩ ::
      (C ++ ⟨.redis (.lpop (.list n)), .bulk p⟩ :: D)) w')
    (hA : ∀ e ∈ A, e.cmd.OnlyPushes n) (hC : ∀ e ∈ C, e.cmd.OnlyPushes n)
    (hD : ∀ e ∈ D, e.cmd.OnlyPushes n) :
    ∃ rest final : List Uuid,
      (pushes n A).reverse ++ Redis.items w.redis (.list n) = u :: rest ∧
      (pushes n C).reverse ++ (u :: rest) = p :: final ∧
      Redis.items w'.redis (.list n) = (pushes n D).reverse ++ final := by
  obtain ⟨w₁, h₁, w₂, hpeek, h⟩ := (served_append ..).mp h
  obtain ⟨w₃, h₃, w₄, hpop, h₄⟩ := (served_append ..).mp h
  obtain ⟨rfl, hread⟩ := serves_lindex hpeek
  have hpopped := (serves_redis.mp hpop).1.lpop
  rw [← List.head?_eq_getElem?, List.head?_eq_some_iff] at hread
  obtain ⟨rest, hrest⟩ := hread
  refine ⟨rest, Redis.items w₄.redis (.list n), ?_, ?_, served_items h₄ hD⟩
  · rw [← served_items h₁ hA]
    exact hrest
  · rw [← hpopped, served_items h₃ hC, hrest]

/-- The trace of a pool whose iteration moved a UUID, cut at its read and at its pop. -/
theorem exec_segments (h0 : P.threads[0]? = some (broadcastIteration state n m publish).run)
    (hdone : (Pool.exec xs P).2.threads[0]? = some (.ret (.ok (.moved it)))) :
    ∃ (A C D : List (Nat × Event sig)) (len : Redis.Reply Empty) (pushReply : Redis.Reply Empty),
      pushReply ≠ .error ∧
      (Pool.exec xs P).1 = A ++ (0, ⟨.redis (.lindex (.list n) 0), .bulk it.peeked⟩) ::
        (C ++ (0, ⟨.redis (.lpop (.list n)), .bulk it.popped⟩) :: D) ∧
      threadTrace 0 A = [⟨.redis (.llen (.list n)), len⟩] ∧
      Path (publish it.peeked).run (threadTrace 0 C) (.ok (some it.sent)) ∧
      threadTrace 0 D =
        [⟨.redis (.lpush (.list m) it.popped), pushReply⟩, ⟨.unlock, true⟩] := by
  obtain ⟨len, τ₀, pushReply, hr, hpub, hτ⟩ := path_broadcastIteration (Pool.exec_path h0 hdone)
  obtain ⟨A₁, B, hT, hA₁, hB⟩ := threadTrace_eq_append (hτ.trans (List.singleton_append ..).symm)
  obtain ⟨A₂, B', rfl, hA₂, hB'⟩ := threadTrace_eq_cons hB
  obtain ⟨C₁, E, rfl, hC₁, hE⟩ := threadTrace_eq_append hB'
  obtain ⟨C₂, D, rfl, hC₂, hD⟩ := threadTrace_eq_cons hE
  refine ⟨A₁ ++ A₂, C₁ ++ C₂, D, len, pushReply, hr, by rw [hT]; simp, ?_, ?_, hD⟩
  · rw [threadTrace_append, hA₁, hA₂]
    rfl
  · rw [threadTrace_append, hC₁, hC₂, List.append_nil]
    exact hpub

/-- A property of the commands in a part of a trace, from thread `0` and from the others. -/
theorem forall_map_snd {Q : Cmd → Prop} {B : List (Nat × Event sig)}
    (h0 : ∀ e ∈ threadTrace 0 B, Q e.cmd) (h : ∀ x ∈ B, x.1 ≠ 0 → Q x.2.cmd) :
    ∀ e ∈ B.map Prod.snd, Q e.cmd := by
  intro e he
  obtain ⟨x, hx, rfl⟩ := List.mem_map.mp he
  by_cases hi : x.1 = 0
  · exact h0 x.2 (mem_threadTrace hx hi)
  · exact h x hx hi

/-- The threads other than the iteration only push on the buffer list. -/
theorem exec_pushers (xs : List (Move world)) (hpush : ∀ i p, i ≠ 0 → P.threads[i]? = some p →
      Uses (S := sig) (fun c => c.OnlyPushes n ∧ ¬ c.WritesKey (.list m)) p) :
    ∀ x ∈ (Pool.exec xs P).1, x.1 ≠ 0 →
      x.2.cmd.OnlyPushes n ∧ ¬ x.2.cmd.WritesKey (.list m) := by
  refine Pool.exec_uses (Q := fun i (c : Cmd) => i ≠ 0 → c.OnlyPushes n ∧ ¬ c.WritesKey (.list m))
    xs P fun i p hp => ?_
  by_cases hi : i = 0
  · exact uses_of_forall (fun c h => absurd hi h) p
  · exact Uses.mono (fun c hc _ => hc) (hpush i p hi hp)

/-- An iteration hands over what it sent exactly when it was not disturbed. -/
theorem handsOver_iff_undisturbed (hnm : n ≠ m)
    (hpub : ∀ u, Uses (S := sig) (Cmd.OnUuid u) (publish u).run)
    (h0 : P.threads[0]? = some (broadcastIteration state n m publish).run)
    (hpush : ∀ i p, i ≠ 0 → P.threads[i]? = some p →
      Uses (S := sig) (fun c => c.OnlyPushes n ∧ ¬ c.WritesKey (.list m)) p)
    (hdone : (Pool.exec xs P).2.threads[0]? = some (.ret (.ok (.moved it)))) :
    HandsOver n m it (Pool.exec xs P).1 (Pool.exec xs P).2.state ↔
      Undisturbed n P.state (Pool.exec xs P).1 := by
  obtain ⟨A, C, D, len, pushReply, hr, hT, hA, hC, hD⟩ := exec_segments h0 hdone
  have hothers := exec_pushers xs hpush
  have hserved := Pool.exec_served xs P
  rw [hT] at hothers hserved ⊢
  have hC0 : ∀ e ∈ threadTrace 0 C, e.cmd.OnUuid it.peeked := (hpub it.peeked).path hC
  have hAp : ∀ e ∈ A.map Prod.snd, e.cmd.OnlyPushes n := by
    refine forall_map_snd (fun e he => ?_) fun x hx h => (hothers x (by simp [hx]) h).1
    rw [hA, List.mem_singleton] at he
    subst he
    exact fun hw => hw.1.elim
  have hCp : ∀ e ∈ C.map Prod.snd, e.cmd.OnlyPushes n :=
    forall_map_snd (fun e he hw => absurd hw (hC0 e he).not_writes)
      fun x hx h => (hothers x (by simp [hx]) h).1
  have hDp : ∀ e ∈ D.map Prod.snd, e.cmd.OnlyPushes n := by
    refine forall_map_snd (fun e he => ?_) fun x hx h => (hothers x (by simp [hx]) h).1
    rw [hD, List.mem_cons, List.mem_singleton] at he
    rcases he with rfl | rfl
    · exact fun hw => absurd (Key.list.inj hw.2).symm hnm
    · exact fun hw => hw.elim
  -- only the iteration pushes on the complete list, and only what it popped
  have hcomplete : pushes m ((A ++ (0, ⟨.redis (.lindex (.list n) 0), .bulk it.peeked⟩) ::
      (C ++ (0, ⟨.redis (.lpop (.list n)), .bulk it.popped⟩) :: D)).map Prod.snd) =
      [it.popped] := by
    have hCm : pushes m (threadTrace 0 C) = [] := pushes_eq_nil fun e he => (hC0 e he).not_writes
    rw [pushes_eq_threadTrace (i := 0) fun x hx h => (hothers x hx h).2]
    simp only [threadTrace_append, threadTrace_cons_self, pushes_append, pushes_cons, hA, hCm, hD,
      pushed_lpush hr]
    rfl
  simp only [List.map_append, List.map_cons] at hserved
  obtain ⟨rest, final, hread, hpop, hfinal⟩ := served_peek_pop hserved hAp hCp hDp
  have hlists := pop_eq_peek_iff (pushes n (D.map Prod.snd)) hread hpop
  have hAk : ∀ x ∈ A, x.1 = 0 → x.2.cmd.isPeek n = false := by
    intro x hx h
    have hmem := mem_threadTrace hx h
    rw [hA, List.mem_singleton] at hmem
    rw [hmem]
    rfl
  have hCk : ∀ x ∈ C, x.1 = 0 → x.2.cmd.isPop n = false :=
    fun x hx h => (hC0 _ (mem_threadTrace hx h)).not_pop
  have hall : pushes n ((A ++ (0, ⟨.redis (.lindex (.list n) 0), .bulk it.peeked⟩) ::
      (C ++ (0, ⟨.redis (.lpop (.list n)), .bulk it.popped⟩) :: D)).map Prod.snd) =
      pushes n (A.map Prod.snd) ++ pushes n (C.map Prod.snd) ++ pushes n (D.map Prod.snd) := by
    simp only [List.map_append, List.map_cons, pushes_append, pushes_cons, List.append_assoc]
    rfl
  have hbefore := (beforePeek_eq (n := n)
    (e := ⟨.redis (.lindex (.list n) 0), .bulk it.peeked⟩)
    (B := C ++ (0, ⟨.redis (.lpop (.list n)), .bulk it.popped⟩) :: D) (beq_self_eq_true n) hAk).1
  have hbetween := peekToPop_eq (n := n)
    (e := ⟨.redis (.lindex (.list n) 0), .bulk it.peeked⟩)
    (f := ⟨.redis (.lpop (.list n)), .bulk it.popped⟩) (D := D)
    (beq_self_eq_true n) (beq_self_eq_true n) hAk hCk
  constructor
  · intro h
    have hgone := h.gone
    rw [hfinal] at hgone
    obtain ⟨hnone, hcount⟩ := hlists.mp ⟨h.popped, hgone⟩
    refine ⟨by rw [hbetween]; exact hnone, it.peeked, ?_, by rw [hall]; exact hcount⟩
    rw [hbefore, hread]
    rfl
  · intro h
    obtain ⟨u, hhead, hcount⟩ := h.once
    rw [hbefore, hread, List.head?_cons, Option.some.injEq] at hhead
    subst hhead
    have hnone := h.noPush
    rw [hbetween] at hnone
    rw [hall] at hcount
    obtain ⟨hpopped, hgone⟩ := hlists.mpr ⟨hnone, hcount⟩
    exact ⟨hpopped, by rw [hcomplete, hpopped], by rw [hfinal]; exact hgone⟩

end Pool

/-! ## The two broadcast functions -/

/-- A thread whose result nobody waits for. -/
def aside {α β : Type} (x : Proc β) : Prog sig (Except Status (Pass α)) :=
  x.run >>= fun _ => pure (.ok .empty)

/-- One iteration of `broadcast_buffered_txn` and calls of `push_txn_to_buffer`. -/
def txnPool (I : Iota) (core : TaCore) (bundles : List (List Hash8019)) (w : World) :
    Pool world (Except Status (Pass (List Hash8019))) :=
  ⟨(broadcastTxnIteration I core).run ::
    bundles.map fun trytes => aside (pushTxnToBuffer core.cache trytes), w⟩

/-- One iteration of `broadcast_buffered_send_mam_request` and calls of
`api_send_mam_message`. -/
def mamPool (I : Iota) (M : MamLib) (J : Codec) (core : TaCore) (fuel : Nat) (objs : List String)
    (w : World) : Pool world (Except Status (Pass String)) :=
  ⟨(broadcastMamIteration I M J core fuel).run ::
    objs.map fun obj => aside (apiSendMamMessage J core.cache obj), w⟩

theorem uses_aside {P : Cmd → Prop} {β : Type} {x : Proc β} (h : Uses (S := sig) P x.run) :
    Uses (S := sig) P (aside x : Prog sig (Except Status (Pass α))) :=
  Uses.bind (fun _ => uses_pure _) h

theorem onUuid_of_not_onCache {u : Uuid} {c : Cmd} (h : ¬ c.OnCache) : c.OnUuid u := by
  intro c' hc
  subst hc
  exact absurd trivial h

theorem onlyPushes_of_not_onCache {c : Cmd} (h : ¬ c.OnCache) :
    c.OnlyPushes n ∧ ¬ c.WritesKey (.list m) := by
  cases c with
  | redis c => exact absurd trivial h
  | _ => exact ⟨fun hw => hw.elim, fun hw => hw⟩

theorem onlyPushes_of_uuid {u : Uuid} {c : Redis.Cmd Key Key.Elem} (h : c.key = .uuid u) :
    (Cmd.redis c).OnlyPushes n ∧ ¬ (Cmd.redis c).WritesKey (.list m) := by
  have hne : ∀ k, ¬ (Cmd.redis c).WritesKey (.list k) := by
    intro k hw
    have hk := hw.2
    rw [h] at hk
    cases hk
  exact ⟨fun hw => absurd hw (hne n), hne m⟩

theorem onlyPushes_lpush (hnm : n ≠ m) (u : Uuid) :
    (Cmd.redis (.lpush (.list n) u)).OnlyPushes n ∧
      ¬ (Cmd.redis (.lpush (.list n) u)).WritesKey (.list m) :=
  ⟨fun _ => ⟨u, rfl⟩, fun hw => hnm (Key.list.inj hw.2)⟩

/-- In a pool of an iteration and asides, every other thread is one of the asides. -/
theorem uses_of_getElem?_cons {β γ : Type} {P : Cmd → Prop} {p q : Prog sig γ}
    {l : List β} {f : β → Prog sig γ} (hf : ∀ b, Uses (S := sig) P (f b)) {i : Nat} (hi : i ≠ 0)
    (hq : (p :: l.map f)[i]? = some q) : Uses (S := sig) P q := by
  cases i with
  | zero => exact absurd rfl hi
  | succ i =>
      rw [List.getElem?_cons_succ, List.getElem?_map, Option.map_eq_some_iff] at hq
      obtain ⟨b, -, rfl⟩ := hq
      exact hf b

namespace Sample

/-- A transaction of zeros. -/
def txn : Transaction where
  message := Vector.replicate 2187 0
  address := Vector.replicate 81 0
  value := 0
  obsoleteTag := Vector.replicate 27 0
  timestamp := 0
  currentIndex := 0
  lastIndex := 0
  bundle := Vector.replicate 81 0
  trunk := Vector.replicate 81 0
  branch := Vector.replicate 81 0
  tag := Vector.replicate 27 0
  attachmentTimestamp := 0
  attachmentTimestampLower := 0
  attachmentTimestampUpper := 0
  nonce := Vector.replicate 27 0
  hash := Vector.replicate 81 0

/-- Serialized zeros. -/
def trytes : Hash8019 := Vector.replicate 2673 0

/-- A library that only knows `txn`. -/
def iota : Iota where
  serialize _ := trytes
  deserialize _ _ := txn
  digest _ := Vector.replicate 81 0
  finalize txs := txs
  freshTips := (Vector.replicate 81 0, Vector.replicate 81 0)
  fromTrytes _ := trytes

/-- A MAM library whose channels and headers are all alike. -/
def mam : MamLib where
  Api := Unit
  apiInit _ := ()
  apiLoad _ := ()
  apiSave _ := []
  channelCreate _ _ := (Vector.replicate 81 0, ())
  writeHeaderOnChannel _ _ _ := (txn, [], Vector.replicate 21 0, ())
  mssNext _ _ := ()
  asciiToTrytes _ := []
  writePacket _ _ _ bundle := (bundle, ())
  announceChannel _ _ _ _ := ([txn], Vector.replicate 21 0, ())
  zeroId := Vector.replicate 81 0

/-- A codec that reads one request. -/
def codec : Codec where
  sendMamReq _ := .ok ⟨some (Vector.replicate 81 0), 2, none, "", [], []⟩
  sendMamRes _ := ""
  sendMamUuid _ := ""

/-- A core with the cache on. -/
def core : TaCore where
  taConf := ⟨false, []⟩
  cache := ⟨true, 0, 0⟩
  iotaConf := ⟨0, 0, Vector.replicate 81 0⟩

/-- The UUID `1` waits in the MAM buffer list. -/
def mamBuffered : World where
  redis
    | .list .mamBuffer => some (.list 1#128 [])
    | .uuid u => if u = 1#128 then some (.str "") else none
    | _ => none
  lock := .readers 0
  ledger := []
  mamFile := []

/-- The UUID `1` waits in the buffer list, with one transaction. -/
def buffered : World where
  redis
    | .list .buffer => some (.list 1#128 [])
    | .uuid u => if u = 1#128 then some (.list trytes []) else none
    | _ => none
  lock := .readers 0
  ledger := []
  mamFile := []

/-- Everything succeeds, and the new UUID is `2`. -/
def good : (c : Cmd) → Choice c
  | .redis _ => false
  | .tryrdlock => false
  | .trywrlock => false
  | .unlock => true
  | .occupiedSpace => 0
  | .uuidGenerateRandom => 2#128
  | .currentTimestampMs => 0
  | .clockGettime => 0
  | .getNodeInfo _ => .milestones 0 0
  | .getTransactionsToApprove _ => none
  | .storeAndBroadcast _ => true
  | .getTrytes hashes => some (hashes.map fun _ => trytes)
  | .findTransactions _ => some []
  | .findTransactionObjects _ => some []
  | .getTransactionObjects _ => some []
  | .transferMessageSetTrytes _ => true
  | .prepareTransfers _ => some [txn]
  | .transactionSerialize _ => true
  | .dcurlEntry _ _ => some trytes
  | .mam _ => true
  | .mamApiLoad => .openFailed
  | .mamApiSave _ => true

/-- A schedule in which everything succeeds. -/
def schedule (threads : List Nat) : List (Move world) := threads.map fun i => (i, good)

/-- The iteration runs alone, and then a push. -/
def alone : List (Move world) := schedule (List.replicate 24 0 ++ List.replicate 3 1)

/-- A push comes between the read and the pop. -/
def between : List (Move world) :=
  schedule (List.replicate 2 0 ++ List.replicate 3 1 ++ List.replicate 14 0)

end Sample

end TangleAccelerator
