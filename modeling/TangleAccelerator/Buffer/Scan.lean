import TangleAccelerator.Buffer.Fetch
import TangleAccelerator.Buffer.Report

/-!
# Scanning a list that grows

`redis_list_exist` asks for the length of a list and then for its elements, one index after the
other.  The lists grow at their heads, so a push between two of these commands moves every element
one index further.  An element that is moved ahead of the index at each step is never seen.

`caughtUp` reads off an interleaving whether the scan has caught up: some index it asks for is not
before the position of the element at that moment.  The main result says that this is exactly when
the element is found.  One direction is a discrete intermediate value argument.  The index starts
at or before the position and grows by one, so if it gets past the position, it meets it.
-/

namespace TangleAccelerator

open Effect

variable {n : ListName} {u : Uuid} {w w' : World}

/-! ## Positions -/

/-- The event asks, for thread `0`, for an index of the list `n` that is not before `p`. -/
def reaches (n : ListName) (p : Nat) : Nat × Event sig → Bool
  | (0, ⟨.redis (.lindex (.list m) i), _⟩) => m = n && p ≤ i
  | _ => false

/-- Some index that thread `0` asks for is not before the position of an element at that moment.
The position is `p` at the start, and every push moves it by one. -/
def caughtUp (n : ListName) : Nat → List (Nat × Event sig) → Bool
  | _, [] => false
  | p, x :: T => reaches n p x || caughtUp n (p + (pushed n x.2).toList.length) T

theorem caughtUp_append (p : Nat) (A B : List (Nat × Event sig)) :
    caughtUp n p (A ++ B) =
      (caughtUp n p A || caughtUp n (p + (pushes n (A.map Prod.snd)).length) B) := by
  induction A generalizing p with
  | nil => rfl
  | cons x A ih =>
      rw [List.cons_append, caughtUp, caughtUp, ih, List.map_cons, pushes_cons, List.length_append,
        Nat.add_assoc, Bool.or_assoc]

/-- Only thread `0` can catch up. -/
theorem reaches_eq_false {p : Nat} {x : Nat × Event sig} (h : x.1 ≠ 0) : reaches n p x = false := by
  obtain ⟨i, e⟩ := x
  cases i with
  | zero => exact absurd rfl h
  | succ i => rfl

theorem caughtUp_eq_false {p : Nat} {A : List (Nat × Event sig)}
    (h : ∀ p, ∀ x ∈ A, reaches n p x = false) : caughtUp n p A = false := by
  induction A generalizing p with
  | nil => rfl
  | cons x A ih =>
      rw [caughtUp, h p x (List.mem_cons_self ..), Bool.false_or]
      exact ih fun p y hy => h p y (List.mem_cons_of_mem _ hy)

theorem ne_of_threadTrace_nil {A : List (Nat × Event sig)} (h : threadTrace 0 A = []) :
    ∀ x ∈ A, x.1 ≠ 0 := by
  intro x hx h0
  rw [threadTrace, List.map_eq_nil_iff, List.filter_eq_nil_iff] at h
  exact h x hx (by simpa using h0)

theorem caughtUp_of_threadTrace_nil {p : Nat} {A : List (Nat × Event sig)}
    (h : threadTrace 0 A = []) : caughtUp n p A = false :=
  caughtUp_eq_false fun _ x hx => reaches_eq_false (ne_of_threadTrace_nil h x hx)

/-! ## The loop -/

/-- The other threads only push on the list `n`, and never `u`. -/
structure Grows (n : ListName) (u : Uuid) (T : List (Nat × Event sig)) : Prop where
  only : ∀ x ∈ T, x.2.cmd.OnlyPushes n
  others : u ∉ pushes n (T.map Prod.snd)

theorem Grows.left {A B : List (Nat × Event sig)} (h : Grows n u (A ++ B)) : Grows n u A := by
  refine ⟨fun x hx => h.only x (List.mem_append_left _ hx), fun hu => h.others ?_⟩
  rw [List.map_append, pushes_append]
  exact List.mem_append_left _ hu

theorem Grows.right {A B : List (Nat × Event sig)} (h : Grows n u (A ++ B)) : Grows n u B := by
  refine ⟨fun x hx => h.only x (List.mem_append_right _ hx), fun hu => h.others ?_⟩
  rw [List.map_append, pushes_append]
  exact List.mem_append_right _ hu

theorem Grows.tail {x : Nat × Event sig} {B : List (Nat × Event sig)} (h : Grows n u (x :: B)) :
    Grows n u B :=
  Grows.right (A := [x]) h

/-- The position moves by the pushes. -/
theorem Grows.idxOf {A : List (Nat × Event sig)} (h : Grows n u A)
    (hs : Served steady w (A.map Prod.snd) w') :
    Redis.items w'.redis (.list n) =
        (pushes n (A.map Prod.snd)).reverse ++ Redis.items w.redis (.list n) ∧
      (Redis.items w'.redis (.list n)).idxOf u =
        (Redis.items w.redis (.list n)).idxOf u + (pushes n (A.map Prod.snd)).length := by
  have honly : ∀ e ∈ A.map Prod.snd, e.cmd.OnlyPushes n := by
    intro e he
    obtain ⟨x, hx, rfl⟩ := List.mem_map.mp he
    exact h.only x hx
  have hitems := served_items (Served.of_steady hs) honly
  refine ⟨hitems, ?_⟩
  rw [hitems, List.idxOf_append_of_notMem (by simpa using h.others), List.length_reverse,
    Nat.add_comm]

theorem idxOf_le_of_get {L : List Uuid} {i : Nat} (hi : i < L.length) (h : u = L.get ⟨i, hi⟩) :
    L.idxOf u ≤ i := by
  by_contra hlt
  have hne := List.not_of_lt_findIdx (p := (· == u)) (Nat.lt_of_not_le hlt)
  exact absurd h.symm (by simpa using hne)

theorem get_of_idxOf_eq {L : List Uuid} {i : Nat} (hi : i < L.length) (h : L.idxOf u = i) :
    u = L.get ⟨i, hi⟩ := by
  subst h
  exact (List.getElem_idxOf hi).symm

/-- An index in a steady world is answered with the element. -/
theorem steady_lindex {i : Nat} {reply : Redis.Reply Uuid}
    (h : steady.Serves w ⟨.redis (.lindex (.list n) i), reply⟩ w')
    (hi : i < (Redis.items w.redis (.list n)).length) :
    w' = w ∧ reply = .bulk ((Redis.items w.redis (.list n)).get ⟨i, hi⟩) := by
  have hget := List.getElem?_eq_getElem hi
  obtain ⟨hreply, -⟩ := steady_redis.mp h
  rw [Redis.exec_lindex hget] at hreply
  subst hreply
  exact ⟨(serves_lindex (Serves.of_steady h)).1, rfl⟩

/-- A scan that has not passed the element finds it exactly where it catches up. -/
theorem path_existLoop {m i : Nat} {exist : Bool} {T : List (Nat × Event sig)}
    {r : Except Status Bool}
    (h : Path (redisListExistLoop n u (List.range' i m) exist (.ok ())).run (threadTrace 0 T) r)
    (hs : Served steady w (T.map Prod.snd) w') (hT : Grows n u T)
    (hmem : u ∈ Redis.items w.redis (.list n))
    (hlen : i + m ≤ (Redis.items w.redis (.list n)).length)
    (hahead : exist = false → i ≤ (Redis.items w.redis (.list n)).idxOf u) :
    r = .ok (exist || caughtUp n ((Redis.items w.redis (.list n)).idxOf u) T) := by
  induction m generalizing i exist T w with
  | zero =>
      rw [List.range'_zero, redisListExistLoop, path_run_bind] at h
      rcases h with ⟨e, rfl, h⟩ | ⟨_, τ₁, τ₂, hτ, h₁, h₂⟩
      · cases ((path_run_settle ..).mp h).2
      · obtain ⟨rfl, -⟩ := (path_run_settle ..).mp h₁
        obtain ⟨rfl, rfl⟩ := (path_run_pure ..).mp h₂
        rw [caughtUp_of_threadTrace_nil hτ, Bool.or_false]
  | succ m ih =>
      rw [List.range'_succ, redisListExistLoop, path_run_attempt_bind] at h
      obtain ⟨a, τ₁, τ₂, hτ, h₁, h₂⟩ := h
      obtain ⟨reply, rfl, rfl⟩ := path_redisCommand.mp h₁
      obtain ⟨A, B, rfl, hA, rfl⟩ := threadTrace_eq_cons hτ
      rw [List.map_append, served_append] at hs
      obtain ⟨w₁, hsA, hs⟩ := hs
      obtain ⟨w₂, hread, hsB⟩ := hs
      obtain ⟨hitems, hidx⟩ := hT.left.idxOf hsA
      have hmem₁ : u ∈ Redis.items w₁.redis (.list n) := by
        rw [hitems]
        exact List.mem_append_right _ hmem
      have hlen₁ : i + (m + 1) ≤ (Redis.items w₁.redis (.list n)).length := by
        rw [hitems, List.length_append]
        omega
      have hi : i < (Redis.items w₁.redis (.list n)).length := by omega
      obtain ⟨rfl, rfl⟩ := steady_lindex hread hi
      generalize hv : (Redis.items w₂.redis (.list n)).get ⟨i, hi⟩ = v at h₂
      have hahead₁ : (exist || u == v) = false →
          i + 1 ≤ (Redis.items w₂.redis (.list n)).idxOf u := by
        intro hfalse
        obtain ⟨hexist, hne⟩ := Bool.or_eq_false_iff.mp hfalse
        have hle := hahead hexist
        have hpos : (Redis.items w₂.redis (.list n)).idxOf u ≠ i := by
          intro heq
          exact absurd ((get_of_idxOf_eq hi heq).trans hv) (by simpa using hne)
        omega
      have hr := ih h₂ hsB hT.right.tail hmem₁ (by omega) hahead₁
      -- the step at which the scan meets the element is the one at which it catches up
      have hstep : (exist || u == v) =
          (exist || decide ((Redis.items w₂.redis (.list n)).idxOf u ≤ i)) := by
        cases exist with
        | true => rfl
        | false =>
            have hle := hahead rfl
            rw [Bool.false_or, Bool.false_or, Bool.eq_iff_iff, beq_iff_eq, decide_eq_true_iff]
            constructor
            · intro huv
              exact idxOf_le_of_get hi (huv.trans hv.symm)
            · intro hge
              exact (get_of_idxOf_eq hi (by omega)).trans hv
      rw [hr, hstep, caughtUp_append, caughtUp_of_threadTrace_nil hA, Bool.false_or, caughtUp,
        ← hidx, Bool.or_assoc]
      congr 2
      simp [reaches, pushed]

/-- A scan of a list that holds the UUID, while others push. -/
theorem path_cacheListExist_grows {state : Bool} {T : List (Nat × Event sig)}
    {r : Except Status Bool} (h : Path (cacheListExist state n u).run (threadTrace 0 T) r)
    (hs : Served steady w (T.map Prod.snd) w') (hT : Grows n u T)
    (hmem : u ∈ Redis.items w.redis (.list n)) :
    r = .ok true ↔ caughtUp n ((Redis.items w.redis (.list n)).idxOf u) T = true := by
  rcases path_cacheOn.mp h with ⟨-, h⟩ | ⟨-, hτ, rfl⟩
  · rw [redisListExist, path_run_attempt_bind] at h
    obtain ⟨a, τ₁, τ₂, hτ, h₁, h₂⟩ := h
    obtain ⟨reply, rfl, rfl⟩ := path_redisCommand.mp h₁
    obtain ⟨A, B, rfl, hA, rfl⟩ := threadTrace_eq_cons hτ
    rw [List.map_append, served_append] at hs
    obtain ⟨w₁, hsA, w₂, hlen, hsB⟩ := hs
    obtain ⟨hitems, hidx⟩ := hT.left.idxOf hsA
    have hmem₁ : u ∈ Redis.items w₁.redis (.list n) := by
      rw [hitems]
      exact List.mem_append_right _ hmem
    have hreply : reply ≠ .error := by
      intro he
      obtain ⟨hexec, -⟩ := steady_redis.mp hlen
      rw [he] at hexec
      have hstr := isStr_of_mem hmem₁
      rw [Redis.exec_llen hexec.symm] at hstr
      cases hstr
    obtain ⟨rfl, rfl, -⟩ := serves_llen (Serves.of_steady hlen) hreply
    have hscan : Path (redisListExistLoop n u
        (List.range' 0 (Redis.items w₂.redis (.list n)).length) false (.ok ())).run
        (threadTrace 0 B) r := by
      rw [← List.range_eq_range']
      exact h₂
    have hr := path_existLoop hscan hsB hT.right.tail hmem₁ (by omega) fun _ => Nat.zero_le _
    rw [hr, Except.ok.injEq, Bool.false_or, caughtUp_append, caughtUp_of_threadTrace_nil hA,
      Bool.false_or, caughtUp, ← hidx]
    exact Iff.rfl
  · rw [caughtUp_of_threadTrace_nil hτ]
    exact iff_of_false (fun h => by cases h) Bool.false_ne_true

/-! ## The fetch -/

theorem path_unlockLogged {τ : List (Event sig)} {r : Except Status Unit}
    (h : Path unlockLogged.run τ r) : r = .ok () := by
  rw [unlockLogged, path_run_request_bind] at h
  obtain ⟨ok, τ₁, -, h⟩ := h
  exact ((path_run_pure ..).mp h).2

theorem path_unlock_pure {τ : List (Event sig)} {res : FetchRes} {r : Except Status FetchRes}
    (h : Path (do unlockLogged; pure res : Proc FetchRes).run τ r) : r = .ok res := by
  rw [path_run_bind] at h
  rcases h with ⟨e, -, h⟩ | ⟨_, τ₁, τ₂, -, -, h⟩
  · cases path_unlockLogged h
  · exact ((path_run_pure ..).mp h).2

/-- The part of `ta_fetch_txn_with_uuid` for a UUID that was not found in the buffer list. -/
def fetchCompleted (I : Iota) (cache : TaCache) (uuid : Uuid) : Proc FetchRes := do
  match ← cacheListExist cache.state .complete uuid with
  | true => do
      let len ← cacheListSize cache.state (.uuid uuid)
      unlockLogged
      let trytes ← cacheListRead cache.state (.uuid uuid) (List.range len)
      cacheDel cache.state (.uuid uuid)
      let _ ← cacheListPop cache.state (.list .complete)
      pure { status := .sent, bundle := trytes.map (I.deserialize · false) }
  | false => do
      unlockLogged
      pure { status := .notExist }

variable {I : Iota} {cache : TaCache}

theorem path_fetchCompleted {τ : List (Event sig)} {res : FetchRes}
    (h : Path (fetchCompleted I cache u).run τ (.ok res)) : res.status ≠ .unsent := by
  rw [fetchCompleted, path_run_bind_ok] at h
  obtain ⟨b, τ₁, τ₂, -, -, h⟩ := h
  cases b with
  | false =>
      rw [Except.ok.inj (path_unlock_pure h)]
      nofun
  | true =>
      rw [path_run_bind_ok] at h
      obtain ⟨len, τ₃, τ₄, -, -, h⟩ := h
      rw [path_run_bind_ok] at h
      obtain ⟨_, τ₅, τ₆, -, -, h⟩ := h
      rw [path_run_bind_ok] at h
      obtain ⟨trytes, τ₇, τ₈, -, -, h⟩ := h
      rw [path_run_bind_ok] at h
      obtain ⟨_, τ₉, τ₁₀, -, -, h⟩ := h
      rw [path_run_bind_ok] at h
      obtain ⟨_, τ₁₁, τ₁₂, -, -, h⟩ := h
      rw [Except.ok.inj ((path_run_pure ..).mp h).2]
      nofun

/-- It does not look at the buffer list. -/
theorem uses_fetchCompleted : Uses (S := sig) (fun c => ∀ i, c ≠ .redis (.lindex (.list .buffer) i))
    (fetchCompleted I cache u).run := by
  have hunlock : Uses (S := sig) (fun c => ∀ i, c ≠ .redis (.lindex (.list .buffer) i))
      unlockLogged.run := uses_unlockLogged nofun
  refine Uses.run_bind (uses_cacheListExist (by nofun) (by nofun) u) fun b => ?_
  cases b with
  | false => exact Uses.run_bind hunlock fun _ => trivial
  | true =>
      refine Uses.run_bind (Uses.cacheOn (uses_redisCommand.mpr nofun)) fun len => ?_
      refine Uses.run_bind hunlock fun _ => ?_
      refine Uses.run_bind (uses_cacheListRead (by nofun) _) fun trytes => ?_
      refine Uses.run_bind (Uses.cacheOn (uses_redisCommand.mpr nofun)) fun _ => ?_
      exact Uses.run_bind (Uses.cacheOn (uses_redisCommand.mpr nofun)) fun _ => trivial

/-- A fetch that has not found the UUID in the buffer list does not report it as unsent. -/
theorem path_fetch_missed {τ : List (Event sig)} {a : Except Status Bool}
    {r : Except Status FetchRes}
    (h : Path (match a with
      | .error e => do unlockLogged; throw e
      | .ok true => do unlockLogged; pure { status := .unsent }
      | .ok false => fetchCompleted I cache u : Proc FetchRes).run τ r) (ha : a ≠ .ok true) :
    r ≠ .ok { status := .unsent } ∧ ∀ e ∈ τ, ∀ i, e.cmd ≠ .redis (.lindex (.list .buffer) i) := by
  rcases a with e | _ | _
  · have huses : Uses (S := sig) (fun c => ∀ i, c ≠ .redis (.lindex (.list .buffer) i))
        (do unlockLogged; throw e : Proc FetchRes).run :=
      Uses.run_bind (uses_unlockLogged nofun) fun _ => trivial
    refine ⟨?_, huses.path h⟩
    rintro rfl
    rw [path_run_bind_ok] at h
    obtain ⟨_, τ₁, τ₂, -, -, h⟩ := h
    cases ((path_run_throw ..).mp h).2
  · refine ⟨?_, uses_fetchCompleted.path h⟩
    rintro rfl
    exact path_fetchCompleted h rfl
  · exact absurd rfl ha

/-- The fetch of a buffered UUID, while others push. -/
theorem path_fetch_grows {T : List (Nat × Event sig)} {r : Except Status FetchRes}
    (h : Path (taFetchTxnWithUuid I cache u).run (threadTrace 0 T) r)
    (hs : Served steady w (T.map Prod.snd) w') (hT : Grows .buffer u T)
    (hmem : u ∈ Redis.items w.redis (.list .buffer)) :
    r = .ok { status := .unsent } ↔
      caughtUp .buffer ((Redis.items w.redis (.list .buffer)).idxOf u) T = true := by
  rw [taFetchTxnWithUuid, path_run_request_bind] at h
  obtain ⟨ok, τ₁, hτ, h⟩ := h
  obtain ⟨A, B, rfl, hA, rfl⟩ := threadTrace_eq_cons hτ
  rw [List.map_append, served_append] at hs
  obtain ⟨w₁, hsA, w₂, hrd, hsB⟩ := hs
  obtain ⟨hitems, hidx⟩ := hT.left.idxOf hsA
  have hw₂ : w₂.redis = w₁.redis := serves_redis_eq (Serves.of_steady hrd) fun c hc => by cases hc
  -- up to the answer of the lock nothing is read
  rw [caughtUp_append, caughtUp_of_threadTrace_nil hA, Bool.false_or, caughtUp, ← hidx, ← hw₂]
  change _ ↔ caughtUp .buffer ((Redis.items w₂.redis (.list .buffer)).idxOf u) B = true
  have hmem₂ : u ∈ Redis.items w₂.redis (.list .buffer) := by
    rw [hw₂, hitems]
    exact List.mem_append_right _ hmem
  rw [path_run_bind] at h
  rcases h with ⟨e, rfl, h⟩ | ⟨_, τ₂, τ₃, hτB, hensure, h⟩
  · rw [caughtUp_of_threadTrace_nil ((path_run_ensure ..).mp h).1]
    exact iff_of_false (fun h => by cases h) Bool.false_ne_true
  obtain ⟨rfl, -⟩ := (path_run_ensure ..).mp hensure
  rw [List.nil_append] at hτB
  subst hτB
  rw [path_run_attempt_bind] at h
  obtain ⟨a, τ₄, τ₅, hτB, hscan, h⟩ := h
  obtain ⟨B₁, B₂, rfl, rfl, rfl⟩ := threadTrace_eq_append hτB
  rw [List.map_append, served_append] at hsB
  obtain ⟨w₃, hsB₁, -⟩ := hsB
  have hfound := path_cacheListExist_grows hscan hsB₁ hT.right.tail.left hmem₂
  rw [caughtUp_append]
  cases hb : caughtUp .buffer ((Redis.items w₂.redis (.list .buffer)).idxOf u) B₁ with
  | true =>
      obtain rfl := hfound.mpr hb
      exact iff_of_true (path_unlock_pure h) rfl
  | false =>
      obtain ⟨hr, hread⟩ := path_fetch_missed h fun ha => by rw [hfound.mp ha] at hb; cases hb
      refine iff_of_false hr ?_
      rw [Bool.false_or, caughtUp_eq_false fun p x hx => ?_]
      · exact Bool.false_ne_true
      obtain ⟨i, e⟩ := x
      by_cases hi : i = 0
      · subst hi
        have he := hread e (mem_threadTrace hx rfl)
        unfold reaches
        split
        · rename_i m j reply heq
          cases heq
          have hm : m ≠ .buffer := fun hm => he j (by rw [hm])
          simp [hm]
        · rfl
      · exact reaches_eq_false hi

/-! ## Every interleaving -/

/-- A thread that scans, and calls of `push_txn_to_buffer`, whose results do not matter. -/
def scanPool {α : Type} (p : Prog sig α) (a : α) (cache : TaCache)
    (bundles : List (List Hash8019)) (w : World) : Pool steady α :=
  ⟨p :: bundles.map fun trytes => (pushTxnToBuffer cache trytes).run >>= fun _ => pure a, w⟩

/-- Nobody takes UUIDs off the buffer list. -/
theorem scanPool_commands {α : Type} {p : Prog sig α} {a : α} {bundles : List (List Hash8019)}
    (hp : Uses (S := sig) (Cmd.OnlyPushes .buffer) p) (xs : List (Move steady)) :
    ∀ x ∈ (Pool.exec xs (scanPool p a cache bundles w)).1, x.2.cmd.OnlyPushes .buffer := by
  refine Pool.exec_uses (Q := fun _ (c : Cmd) => c.OnlyPushes .buffer) xs _ ?_
  intro i q hq
  by_cases hi : i = 0
  · subst hi
    cases hq
    exact hp
  · refine uses_of_getElem?_cons (fun trytes => ?_) hi hq
    refine Uses.bind (fun _ => uses_pure _) (uses_pushTxnToBuffer (fun c hc => ?_) cache trytes
      (fun v c hc => ?_) fun v => ?_)
    · exact (onlyPushes_of_not_onCache (m := .complete) hc).1
    · exact (onlyPushes_of_uuid (m := .complete) hc).1
    · exact fun _ => ⟨v, rfl⟩

/-- What a run of the pool says about the scan once it has returned. -/
theorem scanPool_returned {α : Type} {p : Prog sig α} {a r : α} {bundles : List (List Hash8019)}
    {xs : List (Move steady)} (hp : Uses (S := sig) (Cmd.OnlyPushes .buffer) p)
    {T : List (Nat × Event sig)} {P : Pool steady α}
    (hexec : Pool.exec xs (scanPool p a cache bundles w) = (T, P))
    (hret : P.threads[0]? = some (.ret r)) (hothers : u ∉ pushes .buffer (T.map Prod.snd)) :
    Path p (threadTrace 0 T) r ∧ Served steady w (T.map Prod.snd) P.state ∧
      Grows .buffer u T := by
  have hpath : (Pool.exec xs (scanPool p a cache bundles w)).2.threads[0]? = some (.ret r) →
      Path p (threadTrace 0 (Pool.exec xs (scanPool p a cache bundles w)).1) r :=
    Pool.exec_path rfl
  have hserved := Pool.exec_served xs (scanPool p a cache bundles w)
  have hcommands : ∀ x ∈ (Pool.exec xs (scanPool p a cache bundles w)).1,
      x.2.cmd.OnlyPushes .buffer := scanPool_commands hp xs
  rw [hexec] at hpath hserved hcommands
  exact ⟨hpath hret, hserved, hcommands, hothers⟩

/-- For every interleaving of a scan with pushes of other UUIDs, where the UUID is in the buffer
list and Redis refuses nothing: a fetch reports it as unsent, and `redis_list_exist` that it
exists, exactly when the scan catches up with it. -/
theorem fetch_unsent_iff (I : Iota) (cache : TaCache) (u : Uuid) (bundles : List (List Hash8019))
    (w : World) (hmem : u ∈ Redis.items w.redis (.list .buffer)) (xs : List (Move steady)) :
    (∀ T P r a,
      Pool.exec xs (scanPool (taFetchTxnWithUuid I cache u).run a cache bundles w) = (T, P) →
      P.threads[0]? = some (.ret r) → u ∉ pushes .buffer (T.map Prod.snd) →
      (r = .ok { status := .unsent } ↔
        caughtUp .buffer ((Redis.items w.redis (.list .buffer)).idxOf u) T = true)) ∧
    (∀ T P r a,
      Pool.exec xs (scanPool (cacheListExist cache.state .buffer u).run a cache bundles w) =
        (T, P) →
      P.threads[0]? = some (.ret r) → u ∉ pushes .buffer (T.map Prod.snd) →
      (r = .ok true ↔
        caughtUp .buffer ((Redis.items w.redis (.list .buffer)).idxOf u) T = true)) := by
  have hread : ∀ c : Redis.Cmd Key Key.Elem, ¬ c.Writes → (Cmd.redis c).OnlyPushes .buffer :=
    fun c hc hw => absurd hw.1 hc
  constructor
  · intro T P r a hexec hret hothers
    have huses : Uses (S := sig) (Cmd.OnlyPushes .buffer) (taFetchTxnWithUuid I cache u).run := by
      refine uses_taFetchTxnWithUuid I cache u (fun c hc hw => ?_) hread ?_ ?_
      · cases c with
        | redis c => exact hc.elim
        | _ => exact hw.elim
      · exact fun hw => by cases hw.2
      · exact fun hw => by cases hw.2
    obtain ⟨hpath, hserved, hgrows⟩ := scanPool_returned huses hexec hret hothers
    exact path_fetch_grows hpath hserved hgrows hmem
  · intro T P r a hexec hret hothers
    have huses : Uses (S := sig) (Cmd.OnlyPushes .buffer)
        (cacheListExist cache.state .buffer u).run :=
      uses_cacheListExist (hread _ id) (fun i => hread _ id) u
    obtain ⟨hpath, hserved, hgrows⟩ := scanPool_returned huses hexec hret hothers
    exact path_cacheListExist_grows hpath hserved hgrows hmem

/-! ## A concrete pool -/

namespace Sample

/-- A schedule in a steady world. -/
def steadySchedule (threads : List Nat) : List (Move steady) :=
  threads.map fun i => (i, SteadyChoice.any)

/-- A push before the length is read, and none after it. -/
def pushFirst : List (Move steady) := steadySchedule [0, 1, 1, 1, 0, 0, 0, 0]

/-- A push after the length is read. -/
def overtaken : List (Move steady) := steadySchedule [0, 0, 1, 1, 1, 0, 0, 0]

/-- A fetch of UUID `1`, which waits in the buffer list, and one push. -/
def fetchPool : Pool steady (Except Status FetchRes) :=
  scanPool (taFetchTxnWithUuid iota core.cache 1#128).run (.ok { status := .notExist }) core.cache
    [[trytes]] buffered

end Sample

/-- A push before the scan moves the UUID to index `1`, where the scan finds it. -/
theorem fetch_unsent_pushFirst :
    (Pool.exec Sample.pushFirst Sample.fetchPool).2.threads[0]? =
      some (.ret (.ok { status := .unsent })) := by
  obtain ⟨r, hret⟩ : ∃ r, (Pool.exec Sample.pushFirst Sample.fetchPool).2.threads[0]? =
      some (.ret r) := ⟨_, rfl⟩
  have hmem : 1#128 ∈ Redis.items Sample.buffered.redis (.list .buffer) := by decide
  have hothers : 1#128 ∉ pushes .buffer
      ((Pool.exec Sample.pushFirst Sample.fetchPool).1.map Prod.snd) := by decide
  have hcaught : caughtUp .buffer ((Redis.items Sample.buffered.redis (.list .buffer)).idxOf 1#128)
      (Pool.exec Sample.pushFirst Sample.fetchPool).1 = true := by decide
  have hiff := (fetch_unsent_iff Sample.iota Sample.core.cache 1#128 [[Sample.trytes]]
    Sample.buffered hmem Sample.pushFirst).1 _ _ r (.ok { status := .notExist }) rfl
    hret hothers
  rw [hret, hiff.mpr hcaught]

/-- A push between the length and the first index moves the UUID out of the reach of the scan: the
fetch says that the buffered UUID does not exist. -/
theorem fetch_overtaken :
    1#128 ∈ Redis.items Sample.buffered.redis (.list .buffer) ∧
      1#128 ∈ Redis.items (Pool.exec Sample.overtaken Sample.fetchPool).2.state.redis
        (.list .buffer) ∧
      (Pool.exec Sample.overtaken Sample.fetchPool).2.threads[0]? =
        some (.ret (.ok { status := .notExist })) :=
  ⟨by decide, by decide, rfl⟩

end TangleAccelerator
