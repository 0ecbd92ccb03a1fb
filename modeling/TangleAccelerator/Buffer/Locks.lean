import TangleAccelerator.Buffer.Once

/-!
# Locks that are not released

The fetch functions take the read lock and the broadcast functions the write lock, and both
release it on the way they usually go.  Some early exits leave the lock taken.

`locking` is a protocol for one call.  It remembers whether the call holds the lock, and
whether a Redis command has failed at a point where the call then returns at once and still
holds it (`Quits`).  `safe_call` says that every call ends either with no lock and no such
failure, or with the lock and such a failure.

The main result is about every sequence of calls.  The lock is free after each call exactly
when no Redis command fails at such a point.  A fetch of a MAM result has no such point.
-/

namespace TangleAccelerator

open Effect

variable {w w' : World} {n : ListName} {u : Uuid} {α : Type}

/-! ## Watching a call -/

/-- What a call holds. -/
structure Hold where
  held : Bool := false
  leaked : Bool := false
deriving DecidableEq

/-- The Redis answers on which a function that holds the lock returns at once: in the second
scan of `ta_fetch_txn_with_uuid` and at the size after it, and in the broadcast functions
between `trywrlock` and `unlock`. -/
def Quits : Event sig → Bool
  | ⟨.redis (.llen (.list .complete)), .error⟩ => true
  | ⟨.redis (.lindex (.list .complete) _), .bulk _⟩ => false
  | ⟨.redis (.lindex (.list .complete) _), _⟩ => true
  | ⟨.redis (.llen (.uuid _)), .error⟩ => true
  | ⟨.redis (.del (.uuid _)), reply⟩ => integerField reply == 0
  | ⟨.redis (.lpop (.list _)), .bulk _⟩ => false
  | ⟨.redis (.lpop (.list _)), _⟩ => true
  | ⟨.redis (.lpush (.list _) _), .error⟩ => true
  | _ => false

/-- What a call holds after an event. -/
def Hold.next (m : Hold) : Event sig → Hold
  | ⟨.tryrdlock, true⟩ => { m with held := true }
  | ⟨.trywrlock, true⟩ => { m with held := true }
  | ⟨.unlock, true⟩ => { m with held := false }
  | e => { m with leaked := m.leaked || (m.held && Quits e) }

/-- A call takes the lock where it does not hold it and releases it where it does. -/
def Hold.may (m : Hold) : Cmd → Prop
  | .tryrdlock => m.held = false
  | .trywrlock => m.held = false
  | .unlock => m.held = true
  | _ => True

/-- Unlocking succeeds. -/
def Unlocks : Event sig → Bool
  | ⟨.unlock, ok⟩ => ok
  | _ => true

/-- The protocol of a call. -/
@[reducible] def locking : Protocol sig where
  State := Hold
  next := Hold.next
  may := Hold.may
  admits _ e := Unlocks e

/-! ## The lock -/

/-- `l` is `l₀` after one lock was granted. -/
inductive Acquired : RwLock → RwLock → Prop
  | read (k : Nat) : Acquired (.readers k) (.readers (k + 1))
  | write : Acquired (.readers 0) .writer

theorem Acquired.ne {l₀ l : RwLock} (h : Acquired l₀ l) : l ≠ l₀ := by
  cases h with
  | read k => simp
  | write => nofun

theorem Acquired.unlock {l₀ l : RwLock} (h : Acquired l₀ l) : l.unlock = l₀ := by
  cases h with
  | read k => rfl
  | write => rfl

/-- The lock is as the call found it, up to what the call holds. -/
structure Holds (l₀ : RwLock) (m : Hold) (w : World) : Prop where
  free : m.held = false → w.lock = l₀
  taken : m.held = true → Acquired l₀ w.lock

theorem Holds.next {l₀ : RwLock} {m : Hold} {e : Event sig} (h : Holds l₀ m w)
    (hmay : m.may e.cmd) (hadm : Unlocks e) (hs : world.Serves w e w') :
    Holds l₀ (m.next e) w' := by
  obtain ⟨c, r⟩ := e
  have hother : ¬ c.OnLock → ∀ m' : Hold, m'.held = m.held → Holds l₀ m' w' := by
    intro hc m' hm'
    have hlock : w'.lock = w.lock := serves_lock_eq hs hc
    exact ⟨fun hf => hlock ▸ h.free (hm' ▸ hf), fun hf => hlock ▸ h.taken (hm' ▸ hf)⟩
  cases c with
  | tryrdlock =>
      obtain ⟨refuse, hs⟩ := hs
      have hfree : w.lock = l₀ := h.free hmay
      simp only [serve] at hs
      split at hs
      · rename_i l hl
        cases hs
        refine ⟨fun hf => (by cases hf), fun _ => ?_⟩
        rw [hfree] at hl
        cases l₀ with
        | readers k =>
            cases hl
            exact .read k
        | writer => cases hl
      · cases hs
        exact ⟨fun _ => hfree, fun hf => absurd (Eq.trans (Eq.symm hmay) hf) Bool.false_ne_true⟩
  | trywrlock =>
      obtain ⟨refuse, hs⟩ := hs
      have hfree : w.lock = l₀ := h.free hmay
      simp only [serve] at hs
      split at hs
      · rename_i l hl
        cases hs
        refine ⟨fun hf => (by cases hf), fun _ => ?_⟩
        rw [hfree] at hl
        rcases l₀ with ⟨_ | k⟩ | _
        · cases hl
          exact .write
        · cases hl
        · cases hl
      · cases hs
        exact ⟨fun _ => hfree, fun hf => absurd (Eq.trans (Eq.symm hmay) hf) Bool.false_ne_true⟩
  | unlock =>
      obtain ⟨ok, hs⟩ := hs
      cases hs
      cases hadm
      exact ⟨fun _ => (h.taken hmay).unlock, fun hf => by cases hf⟩
  | _ => exact hother id _ rfl

/-! ## The calls -/

/-- A call that holds nothing. -/
abbrev idle : Hold := ⟨false, false⟩

/-- A call that holds the lock. -/
abbrev holding : Hold := ⟨true, false⟩

/-- A call that will return with the lock. -/
abbrev lost : Hold := ⟨true, true⟩

/-- How a call ends: without the lock, or with a failure that left it taken. -/
def Released (r : Except Status α) (m : Hold) : Prop :=
  m = idle ∨ m = lost ∧ ∃ e, r = .error e

/-- Where the call holds nothing, only locks matter. -/
theorem safe_idle {p : Prog sig α} (h : Uses (S := sig) (fun c => ¬ c.OnLock) p) :
    Safe locking p idle fun _ m => m = idle := by
  refine Safe.of_uses (R := locking) (J := fun m => m = idle) ?_ ?_ h rfl
  · intro m c _ hc
    cases c with
    | tryrdlock => exact absurd trivial hc
    | trywrlock => exact absurd trivial hc
    | unlock => exact absurd trivial hc
    | _ => trivial
  · intro m c r hm hc
    subst hm
    cases c with
    | tryrdlock => exact absurd trivial hc
    | trywrlock => exact absurd trivial hc
    | unlock => exact absurd trivial hc
    | _ => rfl

/-- Commands that do not end a call that holds the lock. -/
def Cmd.Harmless (c : Cmd) : Prop := ¬ c.OnLock ∧ ∀ r, Quits ⟨c, r⟩ = false

theorem safe_holding {p : Prog sig α} (h : Uses (S := sig) Cmd.Harmless p) :
    Safe locking p holding fun _ m => m = holding := by
  refine Safe.of_uses (R := locking) (J := fun m => m = holding) ?_ ?_ h rfl
  · intro m c _ hc
    cases c with
    | tryrdlock => exact absurd trivial hc.1
    | trywrlock => exact absurd trivial hc.1
    | unlock => exact absurd trivial hc.1
    | _ => trivial
  · intro m c r hm hc
    subst hm
    cases c with
    | tryrdlock => exact absurd trivial hc.1
    | trywrlock => exact absurd trivial hc.1
    | unlock => exact absurd trivial hc.1
    | _ => exact congrArg (Hold.mk true) (hc.2 r)

/-- A part of a call that holds the lock: it goes on holding it, or fails and loses it. -/
def Kept (r : Except Status α) (m : Hold) : Prop :=
  (∃ a, r = .ok a) ∧ m = holding ∨ (∃ e, r = .error e) ∧ m = lost

/-- A Redis command whose failures make the call return. -/
theorem safe_kept {c : Redis.Cmd Key Key.Elem} {f : Redis.Reply c.Bulk → Except Status α}
    (hf : ∀ reply, Quits ⟨.redis c, reply⟩ = true ↔ ∃ e, f reply = .error e) :
    Safe locking (redisCommand c f).run holding Kept := by
  rw [safe_redisCommand]
  refine ⟨trivial, fun reply _ => ?_⟩
  have hnext : locking.next holding ⟨.redis c, reply⟩ = ⟨true, Quits ⟨.redis c, reply⟩⟩ := rfl
  rw [hnext]
  cases hr : f reply with
  | ok a =>
      have hq : Quits ⟨.redis c, reply⟩ = false := by
        rw [← Bool.not_eq_true, hf, hr]
        nofun
      rw [hq]
      exact Or.inl ⟨⟨a, rfl⟩, rfl⟩
  | error e =>
      rw [(hf reply).mpr ⟨e, hr⟩]
      exact Or.inr ⟨⟨e, rfl⟩, rfl⟩

/-- After a part that keeps the lock comes a part that releases it. -/
theorem safe_kept_bind {β : Type} {y : Proc α} {f : α → Proc β}
    {Q : Except Status β → Hold → Prop} (hy : Safe locking y.run holding Kept)
    (hlost : ∀ e, Q (.error e) lost) (hf : ∀ a, Safe locking (f a).run holding Q) :
    Safe locking (y >>= f).run holding Q := by
  rw [safe_run_bind]
  refine hy.mono fun r m hr => ?_
  rcases hr with ⟨⟨a, rfl⟩, rfl⟩ | ⟨⟨e, rfl⟩, rfl⟩
  · exact hf a
  · exact hlost e

/-- Releasing the lock, and then a part that takes none. -/
theorem safe_unlock_bind {f : Unit → Proc α}
    (hf : Uses (S := sig) (fun c => ¬ c.OnLock) (f ()).run) :
    Safe locking (unlockLogged >>= f).run holding fun _ m => m = idle := by
  rw [safe_run_bind, unlockLogged, safe_run_request_bind]
  refine ⟨rfl, fun ok hok => ?_⟩
  cases hok
  exact safe_idle hf

theorem safe_unlock_released {f : Unit → Proc α}
    (hf : Uses (S := sig) (fun c => ¬ c.OnLock) (f ()).run) :
    Safe locking (unlockLogged >>= f).run holding Released :=
  (safe_unlock_bind hf).mono fun _ _ => Or.inl

/-- Taking the lock, and then a part that holds it. -/
theorem safe_lock_bind {c : Cmd} {k : c.Ans → Proc α} {Q : Except Status α → Hold → Prop}
    {b : c.Ans → Bool} (hmay : idle.may c)
    (hnext : ∀ a, idle.next ⟨c, a⟩ = ⟨b a, false⟩) {e : Status} (hfail : Q (.error e) idle)
    (hk : ∀ a, b a = true → Safe locking (k a).run holding Q) :
    Safe locking (request c >>= fun a => ensure (b a) e >>= fun _ => k a).run idle Q := by
  rw [safe_run_request_bind]
  refine ⟨hmay, fun a _ => ?_⟩
  have hnext' : locking.next idle ⟨c, a⟩ = ⟨b a, false⟩ := hnext a
  rw [hnext']
  cases hb : b a with
  | true => exact hk a hb
  | false => exact hfail

/-! ### Fetches -/

theorem harmless_llen (hn : n ≠ .complete) : (Cmd.redis (.llen (.list n))).Harmless := by
  refine ⟨id, fun r => ?_⟩
  cases n with
  | complete => exact absurd rfl hn
  | _ => rfl

theorem harmless_lindex (hn : n ≠ .complete) (i : Nat) :
    (Cmd.redis (.lindex (.list n) i)).Harmless := by
  refine ⟨id, fun r => ?_⟩
  cases n with
  | complete => exact absurd rfl hn
  | _ => rfl

theorem tryrdlock_next (ok : Bool) : idle.next ⟨.tryrdlock, ok⟩ = ⟨ok, false⟩ := by
  cases ok <;> rfl

theorem trywrlock_next (ok : Bool) : idle.next ⟨.trywrlock, ok⟩ = ⟨ok, false⟩ := by
  cases ok <;> rfl

/-- The second scan of `ta_fetch_txn_with_uuid` goes on after a failure, and then fails. -/
theorem safe_existLoop (is : List Nat) (exist : Bool) (ret : Except Status Unit) (m : Hold)
    (hm : Kept ret m) :
    Safe locking (redisListExistLoop .complete u is exist ret).run m Kept := by
  induction is generalizing exist ret m with
  | nil =>
      rcases hm with ⟨⟨_, rfl⟩, rfl⟩ | ⟨⟨e, rfl⟩, rfl⟩
      · exact Or.inl ⟨⟨exist, rfl⟩, rfl⟩
      · exact Or.inr ⟨⟨e, rfl⟩, rfl⟩
  | cons i is ih =>
      rw [redisListExistLoop, safe_run_bind, safe_run_attempt, redisListAt, safe_redisCommand]
      refine ⟨trivial, fun reply _ => ?_⟩
      have hfail : Quits ⟨.redis (.lindex (.list .complete) i), reply⟩ = true →
          locking.next m ⟨.redis (.lindex (.list .complete) i), reply⟩ = lost := by
        intro hq
        rcases hm with ⟨-, rfl⟩ | ⟨-, rfl⟩
        · exact congrArg (Hold.mk true) hq
        · rfl
      cases reply with
      | bulk v =>
          refine ih _ ret _ ?_
          rcases hm with ⟨hret, rfl⟩ | ⟨hret, rfl⟩
          · exact Or.inl ⟨hret, rfl⟩
          · exact Or.inr ⟨hret, rfl⟩
      | status => exact ih _ _ _ (Or.inr ⟨⟨_, rfl⟩, hfail rfl⟩)
      | error => exact ih _ _ _ (Or.inr ⟨⟨_, rfl⟩, hfail rfl⟩)
      | integer k => exact ih _ _ _ (Or.inr ⟨⟨_, rfl⟩, hfail rfl⟩)
      | nil => exact ih _ _ _ (Or.inr ⟨⟨_, rfl⟩, hfail rfl⟩)

theorem quits_llen {k : Key} (hk : k = .list .complete ∨ ∃ u, k = .uuid u)
    (reply : Redis.Reply (Redis.Cmd.llen k : Redis.Cmd Key Key.Elem).Bulk) :
    Quits ⟨.redis (.llen k), reply⟩ = true ↔ ∃ e, (match reply with
      | .error => .error .cacheFailedResponse
      | reply => .ok (integerField reply) : Except Status Nat) = .error e := by
  rcases hk with rfl | ⟨u, rfl⟩
  · cases reply <;> simp [Quits]
  · cases reply <;> simp [Quits]

theorem safe_exist_complete :
    Safe locking (cacheListExist true .complete u).run holding Kept := by
  rw [cacheListExist, safe_cacheOn_true, redisListExist, safe_run_bind, safe_run_attempt]
  refine (safe_kept (quits_llen (Or.inl rfl))).mono fun r m hr => ?_
  rcases hr with ⟨⟨len, rfl⟩, rfl⟩ | ⟨⟨e, rfl⟩, rfl⟩
  · exact safe_existLoop _ _ _ _ (Or.inl ⟨⟨_, rfl⟩, rfl⟩)
  · exact safe_existLoop _ _ _ _ (Or.inr ⟨⟨_, rfl⟩, rfl⟩)

theorem safe_taFetchTxnWithUuid (I : Iota) (cache : TaCache) :
    Safe locking (taFetchTxnWithUuid I cache u).run idle Released := by
  refine safe_lock_bind (c := .tryrdlock) rfl tryrdlock_next (Or.inl rfl) fun _ _ => ?_
  rw [safe_run_bind, safe_run_attempt]
  cases hstate : cache.state with
  | false => exact safe_unlock_released trivial
  | true =>
      have hscan : Uses (S := sig) Cmd.Harmless (cacheListExist true .buffer u).run :=
        uses_cacheListExist (n := .buffer) (harmless_llen nofun) (harmless_lindex nofun) u
      refine (safe_holding hscan).mono fun r m hm => ?_
      subst hm
      rcases r with e | _ | _
      · exact safe_unlock_released trivial
      · refine safe_kept_bind safe_exist_complete (fun e => Or.inr ⟨rfl, e, rfl⟩) fun b => ?_
        cases b with
        | false => exact safe_unlock_released trivial
        | true =>
            refine safe_kept_bind (y := cacheListSize true (.uuid u))
              (safe_kept (quits_llen (Or.inr ⟨u, rfl⟩))) (fun e => Or.inr ⟨rfl, e, rfl⟩)
              fun len => safe_unlock_released ?_
            refine Uses.run_bind (uses_cacheListRead (fun i => id) _) fun trytes => ?_
            refine Uses.run_bind (Uses.cacheOn (uses_redisCommand.mpr id)) fun _ => ?_
            exact Uses.run_bind (Uses.cacheOn (uses_redisCommand.mpr id)) fun _ => trivial
      · exact safe_unlock_released trivial

/-- A fetch of a MAM result always releases the lock. -/
theorem safe_taFetchMamWithUuid (cache : TaCache) :
    Safe locking (taFetchMamWithUuid cache u).run idle fun _ m => m = idle := by
  have hscan : ∀ n : ListName, n ≠ .complete →
      Uses (S := sig) Cmd.Harmless (cacheListExist cache.state n u).run := fun n hn =>
    uses_cacheListExist (harmless_llen hn) (harmless_lindex hn) u
  refine safe_lock_bind (c := .tryrdlock) rfl tryrdlock_next rfl fun _ _ => ?_
  rw [safe_run_bind, safe_run_attempt]
  refine (safe_holding (hscan .mamBuffer nofun)).mono fun r m hm => ?_
  subst hm
  rcases r with e | _ | _
  · exact safe_unlock_bind trivial
  · dsimp only
    rw [safe_run_bind, safe_run_attempt]
    refine (safe_holding (hscan .mamComplete nofun)).mono fun r m hm => ?_
    subst hm
    rcases r with e | _ | _
    · exact safe_unlock_bind trivial
    · exact safe_unlock_bind trivial
    · refine safe_unlock_bind ?_
      refine Uses.run_bind (Uses.cacheOn (uses_redisCommand.mpr id)) fun res => ?_
      refine Uses.run_bind (Uses.cacheOn (uses_redisCommand.mpr id)) fun _ => ?_
      exact Uses.run_bind (Uses.cacheOn (uses_redisCommand.mpr id)) fun _ => trivial
  · exact safe_unlock_bind trivial

/-! ### Broadcasts -/

/-- How `publish` ends: a success holds the lock. -/
def Published (r : Except Status (Option α)) (m : Hold) : Prop :=
  match r with
  | .ok (some _) => m = holding
  | .ok none => m = idle
  | .error e => Released (.error e : Except Status Unit) m

theorem Cmd.Quiet.not_onLock {c : Cmd} (h : c.Quiet) : ¬ c.OnLock := by
  cases c with
  | tryrdlock => exact h.elim
  | trywrlock => exact h.elim
  | unlock => exact h.elim
  | _ => exact id

/-- A part that takes no lock comes before a part that starts without one. -/
theorem safe_idle_bind {β : Type} {y : Proc α} {f : α → Proc β}
    {Q : Except Status β → Hold → Prop} (hy : Uses (S := sig) (fun c => ¬ c.OnLock) y.run)
    (herr : ∀ e, Q (.error e) idle) (hf : ∀ a, Safe locking (f a).run idle Q) :
    Safe locking (y >>= f).run idle Q := by
  rw [safe_run_bind]
  refine (safe_idle hy).mono fun r m hm => ?_
  subst hm
  cases r with
  | ok a => exact hf a
  | error e => exact herr e

theorem safe_publishTxn_locking (I : Iota) (core : TaCore) :
    Safe locking (publishTxn I core u).run idle Published := by
  have herr : ∀ e, Published (.error e : Except Status (Option (List Hash8019))) idle :=
    fun e => Or.inl rfl
  have hP : ∀ c : Cmd, c.Quiet → ¬ c.OnLock := fun _ => Cmd.Quiet.not_onLock
  refine safe_idle_bind (Uses.cacheOn (uses_redisCommand.mpr id)) herr fun len => ?_
  refine safe_idle_bind (uses_cacheListRead (fun i => id) _) herr fun trytes => ?_
  refine safe_idle_bind (uses_taSendTrytes (fun c hc => hP c hc.quiet) (fun _ => id) ..) herr
    fun attached => ?_
  refine safe_idle_bind (uses_request hP trivial) herr fun stored => ?_
  refine safe_idle_bind (uses_run_demand _ _) herr fun stored => ?_
  refine safe_idle_bind (Uses.cacheOn (uses_redisCommand.mpr id)) herr fun _ => ?_
  refine safe_idle_bind (uses_cacheListPushAll (fun e => id) _) herr fun _ => ?_
  exact safe_lock_bind (c := .trywrlock) rfl trywrlock_next (herr _) fun _ _ => rfl

theorem quits_del (reply : Redis.Reply (Redis.Cmd.del (.uuid u) : Redis.Cmd Key Key.Elem).Bulk) :
    Quits ⟨.redis (.del (.uuid u)), reply⟩ = true ↔
      ∃ e, (if integerField reply = 0 then .error .cacheFailedResponse else .ok () :
        Except Status Unit) = .error e := by
  simp only [Quits, beq_iff_eq]
  split <;> simp [*]

theorem safe_publishMam_locking (I : Iota) (M : MamLib) (J : Codec) {core : TaCore}
    (hstate : core.cache.state = true) (fuel : Nat) :
    Safe locking (publishMam I M J core fuel u).run idle Published := by
  have herr : ∀ e, Published (.error e : Except Status (Option String)) idle := fun e => Or.inl rfl
  have hP : ∀ c : Cmd, c.Quiet → ¬ c.OnLock := fun _ => Cmd.Quiet.not_onLock
  refine safe_idle_bind (Uses.cacheOn (uses_redisCommand.mpr id)) herr fun json => ?_
  refine safe_idle_bind (uses_run_settle _) herr fun req => ?_
  refine safe_idle_bind (uses_taSendMamMessage M hP (fun _ => id) id ..) herr fun res => ?_
  cases res with
  | none => rfl
  | some res =>
      refine safe_lock_bind (c := .trywrlock) rfl trywrlock_next (herr _) fun _ _ => ?_
      rw [hstate]
      refine safe_kept_bind (y := cacheDel true (.uuid u)) (safe_kept quits_del)
        (fun e => Or.inr ⟨rfl, e, rfl⟩) fun _ => ?_
      rw [safe_run_bind, cacheSet, safe_cacheOn_true]
      exact ⟨trivial, fun reply _ => rfl⟩

theorem quits_lpop (reply : Redis.Reply (Redis.Cmd.lpop (.list n) : Redis.Cmd Key Key.Elem).Bulk) :
    Quits ⟨.redis (.lpop (.list n)), reply⟩ = true ↔ ∃ e, stringReply reply = .error e := by
  cases reply <;> simp [Quits, stringReply]

theorem safe_cacheListPush_locking :
    Safe locking (cacheListPush true (.list n) u).run holding Kept := by
  rw [cacheListPush, safe_cacheOn_true]
  refine safe_kept fun reply => ?_
  cases reply <;> simp [Quits]

/-- One iteration: after it goes on, the lock is released. -/
theorem safe_iteration_locking {bufferList completeList : ListName}
    {publish : Uuid → Proc (Option α)}
    (hpublish : ∀ u, Safe locking (publish u).run idle Published) :
    Safe locking (broadcastIteration true bufferList completeList publish).run idle Released := by
  have herr : ∀ e, Released (.error e : Except Status (Pass α)) idle := fun e => Or.inl rfl
  have hlost : ∀ e, Released (.error e : Except Status (Pass α)) lost :=
    fun e => Or.inr ⟨rfl, e, rfl⟩
  refine safe_idle_bind (Uses.cacheOn (uses_redisCommand.mpr id)) herr fun len => ?_
  split
  · exact Or.inl rfl
  refine safe_idle_bind (Uses.cacheOn (uses_redisCommand.mpr id)) herr fun u => ?_
  rw [safe_run_bind]
  refine (hpublish u).mono fun r m hr => ?_
  rcases r with e | _ | sent
  · rcases hr with rfl | ⟨rfl, -⟩
    · exact herr e
    · exact hlost e
  · exact Or.inl hr
  · obtain rfl := (hr : m = holding)
    refine safe_kept_bind (y := cacheListPop true (.list bufferList)) (safe_kept quits_lpop) hlost
      fun popped => ?_
    refine safe_kept_bind (y := cacheListPush true (.list completeList) popped)
      safe_cacheListPush_locking hlost fun _ => ?_
    rw [safe_run_request_bind]
    refine ⟨rfl, fun ok hok => ?_⟩
    cases hok
    exact Or.inl rfl

theorem safe_loop_locking {iteration : Proc (Pass α)}
    (hit : Safe locking iteration.run idle Released) (fuel : Nat) :
    Safe locking (broadcastLoop iteration fuel).run idle Released := by
  induction fuel with
  | zero => exact Or.inl rfl
  | succ fuel ih =>
      rw [broadcastLoop, safe_run_bind]
      refine hit.mono fun r m hr => ?_
      rcases r with e | _ | it | _
      · rcases hr with rfl | ⟨rfl, -⟩
        · exact Or.inl rfl
        · exact Or.inr ⟨rfl, e, rfl⟩
      · exact Or.inl (hr.resolve_right fun h => by obtain ⟨-, e, he⟩ := h; cases he)
      · obtain rfl := hr.resolve_right fun h => by obtain ⟨-, e, he⟩ := h; cases he
        exact ih
      · exact Or.inl (hr.resolve_right fun h => by obtain ⟨-, e, he⟩ := h; cases he)

/-! ## Sequences of calls -/

/-- A call of one of the four functions. -/
inductive Call where
  | fetch (f : Fetch)
  | broadcastTxn (fuel : Nat)
  | broadcastMam (fuel : Nat)

/-- The call, without its result. -/
def Call.program (I : Iota) (M : MamLib) (J : Codec) (core : TaCore) : Call → Prog sig Unit
  | .fetch f => (f.call I core.cache).run >>= fun _ => pure ()
  | .broadcastTxn fuel => (broadcastBufferedTxn I core fuel).run >>= fun _ => pure ()
  | .broadcastMam fuel => (broadcastBufferedSendMamRequest I M J core fuel).run >>= fun _ => pure ()

/-- A call ends without the lock, or it has failed where that leaves the lock taken. -/
theorem safe_call (I : Iota) (M : MamLib) (J : Codec) (core : TaCore) (c : Call) :
    Safe locking (c.program I M J core) idle fun _ m => m = idle ∨ m = lost := by
  have hdrop : ∀ {β : Type} {y : Proc β}, Safe locking y.run idle Released →
      Safe locking (y.run >>= fun _ => pure ()) idle fun _ m => m = idle ∨ m = lost := by
    intro β y hy
    rw [safe_bind]
    exact hy.mono fun r m hm => hm.imp_right And.left
  cases c with
  | fetch f =>
      cases f with
      | txn u => exact hdrop (safe_taFetchTxnWithUuid I core.cache)
      | mam u => exact hdrop ((safe_taFetchMamWithUuid core.cache).mono fun _ _ => Or.inl)
  | broadcastTxn fuel =>
      refine hdrop (safe_loop_locking ?_ fuel)
      rw [broadcastTxnIteration]
      cases hstate : core.cache.state with
      | false => exact Or.inl rfl
      | true => exact safe_iteration_locking fun u => safe_publishTxn_locking I core
  | broadcastMam fuel =>
      refine hdrop (safe_loop_locking ?_ fuel)
      rw [broadcastMamIteration]
      cases hstate : core.cache.state with
      | false => exact Or.inl rfl
      | true => exact safe_iteration_locking fun u => safe_publishMam_locking I M J hstate fuel

/-- No Redis command fails at a point where the call then returns with the lock. -/
def NoLeak (τ : List (Event sig)) : Prop :=
  ∀ τ₁ e τ₂, τ = τ₁ ++ e :: τ₂ → (locking.after idle τ₁).held = true → Quits e = false

theorem Hold.next_leaked (m : Hold) (e : Event sig) :
    (m.next e).leaked = (m.leaked || (m.held && Quits e)) := by
  unfold Hold.next
  split
  · simp [Quits]
  · simp [Quits]
  · simp [Quits]
  · rfl

theorem leaked_iff : ∀ (τ : List (Event sig)) (m : Hold),
    (locking.after m τ).leaked = false ↔ m.leaked = false ∧
      ∀ τ₁ e τ₂, τ = τ₁ ++ e :: τ₂ → (locking.after m τ₁).held = true → Quits e = false
  | [], m => by simp
  | e :: τ, m => by
      rw [Protocol.after_cons, leaked_iff τ, Hold.next_leaked, Bool.or_eq_false_iff, and_assoc]
      refine and_congr_right fun _ => ?_
      constructor
      · intro h τ₁ e' τ₂ hτ hheld
        cases τ₁ with
        | nil =>
            cases hτ
            have hm : m.held = true := hheld
            simpa [hm] using h.1
        | cons e₁ τ₁ =>
            cases hτ
            exact h.2 τ₁ e' τ₂ rfl hheld
      · intro h
        refine ⟨?_, fun τ₁ e' τ₂ hτ => h (e :: τ₁) e' τ₂ (by rw [hτ, List.cons_append])⟩
        cases hm : m.held with
        | false => rfl
        | true => exact h [] e τ rfl hm

theorem noLeak_iff {τ : List (Event sig)} :
    NoLeak τ ↔ (locking.after idle τ).leaked = false := by
  rw [leaked_iff τ idle]
  exact (and_iff_right rfl).symm

instance : DecidablePred NoLeak := fun _ => decidable_of_iff _ noLeak_iff.symm

/-- After a call the lock is as before exactly when no Redis command failed at such a point. -/
theorem call_lock_iff {I : Iota} {M : MamLib} {J : Codec} {core : TaCore} {c : Call}
    {τ : List (Event sig)} (h : Runs world (c.program I M J core) w τ () w')
    (hunlock : τ.all Unlocks = true) : w'.lock = w.lock ↔ NoLeak τ := by
  have hsafe := safe_call I M J core c
  have hadm : locking.Admitted idle τ := by
    rw [Protocol.admitted_iff]
    intro τ₁ e τ₂ hτ
    exact List.all_eq_true.mp hunlock e (hτ ▸ List.mem_append_right _ (List.mem_cons_self ..))
  have hsteps := (steps_ret_iff _ _ _).mpr h.1
  have hend := hsafe.path h.1 hadm
  have hholds : Holds w.lock (locking.after idle τ) w' :=
    Protocol.served (fun m s e s' hJ hmay he hs => hJ.next hmay he hs) h.2
      (hsafe.allowed hsteps hadm) hadm ⟨fun _ => rfl, nofun⟩
  rw [noLeak_iff]
  rcases hend with hm | hm
  · rw [hm] at hholds ⊢
    exact iff_of_true (hholds.free rfl) rfl
  · rw [hm] at hholds ⊢
    exact iff_of_false (hholds.taken rfl).ne nofun

/-- Calls one after the other, each with its trace and the world it returns in. -/
def CallChain (I : Iota) (M : MamLib) (J : Codec) (core : TaCore) :
    World → List (Call × List (Event sig) × World) → Prop
  | _, [] => True
  | w, (c, τ, w') :: rest => Runs world (c.program I M J core) w τ () w' ∧
      CallChain I M J core w' rest

/-- For every sequence of calls from a free lock in which unlocking succeeds: the lock is free
after each call exactly when in no call a Redis command fails at a point where the call then
returns with the lock. -/
theorem calls_lock_free_iff (I : Iota) (M : MamLib) (J : Codec) (core : TaCore) (w : World)
    (calls : List (Call × List (Event sig) × World)) (hw : w.lock = .readers 0)
    (h : CallChain I M J core w calls)
    (hunlock : ∀ x ∈ calls, x.2.1.all Unlocks = true) :
    (∀ x ∈ calls, x.2.2.lock = .readers 0) ↔ ∀ x ∈ calls, NoLeak x.2.1 := by
  induction calls generalizing w with
  | nil => simp
  | cons x calls ih =>
      obtain ⟨c, τ, w₁⟩ := x
      obtain ⟨hrun, hchain⟩ := h
      rw [List.forall_mem_cons] at hunlock
      have hfirst : w₁.lock = .readers 0 ↔ NoLeak τ := by
        rw [← hw]
        exact call_lock_iff hrun hunlock.1
      rw [List.forall_mem_cons, List.forall_mem_cons, ← hfirst]
      exact and_congr_right fun hfree => ih w₁ hfree hchain hunlock.2

namespace Sample

/-- Redis refuses to say how long the complete list is, and to pop. -/
def stubborn : (c : Cmd) → Choice c
  | .redis (.llen (.list .complete)) => true
  | .redis (.lpop _) => true
  | c => good c

/-- A call with these choices: the call, its trace and the world it returns in. -/
def call (choices : (c : Cmd) → Choice c) (c : Call) (w : World) :
    Call × List (Event sig) × World :=
  let t := Effect.exec world (c.program iota mam codec core) (fun _ => choices) w
  (c, t.1, t.2.2)

theorem runs_call (choices : (c : Cmd) → Choice c) (c : Call) (w : World) :
    Runs world (c.program iota mam codec core) w (call choices c w).2.1 () (call choices c w).2.2 :=
  runs_exec ..

end Sample

/-- A broadcast and a fetch in which nothing fails leave the lock free. -/
theorem calls_lock_free_good :
    CallChain Sample.iota Sample.mam Sample.codec Sample.core Sample.buffered
      [Sample.call Sample.good (.broadcastTxn 2) Sample.buffered,
        Sample.call Sample.good (.fetch (.txn 1#128))
          (Sample.call Sample.good (.broadcastTxn 2) Sample.buffered).2.2] ∧
    ∀ x ∈ [Sample.call Sample.good (.broadcastTxn 2) Sample.buffered,
        Sample.call Sample.good (.fetch (.txn 1#128))
          (Sample.call Sample.good (.broadcastTxn 2) Sample.buffered).2.2],
      x.2.2.lock = .readers 0 := by
  have hchain : CallChain Sample.iota Sample.mam Sample.codec Sample.core Sample.buffered
      [Sample.call Sample.good (.broadcastTxn 2) Sample.buffered,
        Sample.call Sample.good (.fetch (.txn 1#128))
          (Sample.call Sample.good (.broadcastTxn 2) Sample.buffered).2.2] :=
    ⟨Sample.runs_call .., Sample.runs_call .., trivial⟩
  refine ⟨hchain, (calls_lock_free_iff Sample.iota Sample.mam Sample.codec Sample.core
    Sample.buffered _ rfl hchain ?_).mpr ?_⟩
  · rw [List.forall_mem_cons, List.forall_mem_singleton]
    exact ⟨by decide, by decide⟩
  · rw [List.forall_mem_cons, List.forall_mem_singleton]
    exact ⟨by decide, by decide⟩

/-- A fetch whose second scan fails returns with the read lock, and a broadcast whose pop fails
returns with the write lock. -/
theorem calls_keep_lock :
    (Runs world (Call.program Sample.iota Sample.mam Sample.codec Sample.core (.fetch (.txn 1#128)))
        (Sample.sent (.list Sample.trytes []) 1#128 [])
        (Sample.call Sample.stubborn (.fetch (.txn 1#128))
          (Sample.sent (.list Sample.trytes []) 1#128 [])).2.1 ()
        (Sample.call Sample.stubborn (.fetch (.txn 1#128))
          (Sample.sent (.list Sample.trytes []) 1#128 [])).2.2 ∧
      (Sample.call Sample.stubborn (.fetch (.txn 1#128))
        (Sample.sent (.list Sample.trytes []) 1#128 [])).2.2.lock = .readers 1) ∧
    Runs world (Call.program Sample.iota Sample.mam Sample.codec Sample.core (.broadcastTxn 2))
        Sample.buffered (Sample.call Sample.stubborn (.broadcastTxn 2) Sample.buffered).2.1 ()
        (Sample.call Sample.stubborn (.broadcastTxn 2) Sample.buffered).2.2 ∧
      (Sample.call Sample.stubborn (.broadcastTxn 2) Sample.buffered).2.2.lock = .writer :=
  ⟨⟨Sample.runs_call .., rfl⟩, Sample.runs_call .., rfl⟩

end TangleAccelerator
