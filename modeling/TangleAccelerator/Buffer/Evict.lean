import TangleAccelerator.Buffer.Fetch

/-!
# Eviction

While Redis reports more memory than the capacity, `health_track` pops a UUID from the complete list
and deletes what is stored under the UUID in its buffer.  It goes on when the pop fails, with the
UUID of an earlier pop, and it does not stop when there is nothing left to pop.

Here Redis reports the memory its database needs, which may be any function of it (`metered`), and
the lock is free.  The loop does what it is for, which is to remove the first completed requests as
wholes (`evicted`), exactly when the database fits after some of them have been removed.
-/

namespace TangleAccelerator

open Effect

/-! ## A server that reports its usage -/

/-- The report of the memory is what the database needs. -/
def reported (usage : Cache → Int) : (c : Cmd) → SteadyChoice c → World → SteadyChoice c
  | .occupiedSpace, _, w => usage w.redis
  | _, x, _ => x

/-- A steady world that reports the memory its database needs. -/
@[reducible] def metered (usage : Cache → Int) : Server sig :=
  ⟨World, SteadyChoice, fun c x w => steady.serve c (reported usage c x w) w⟩

/-- The database without its first completed request. -/
def evictFirst (s : Cache) : Cache :=
  match Redis.items s (.list .complete) with
  | [] => s
  | u :: us =>
      Function.update (Function.update s (.list .complete) (Redis.ofList us)) (.uuid u) none

/-- The database without its first completed requests. -/
def evicted : Nat → Cache → Cache
  | 0, s => s
  | n + 1, s => evicted n (evictFirst s)

/-- The events of a pass that removes one request. -/
def passEvents (used : Int) (u : Uuid) (count : Nat) : List (Event sig) :=
  [⟨.occupiedSpace, used⟩, ⟨.trywrlock, true⟩, ⟨.redis (.lpop (.list .complete)), .bulk u⟩,
    ⟨.redis (.del (.uuid u)), .integer count⟩, ⟨.unlock, true⟩]

/-- The trace is one of passes that removed these requests. -/
inductive Evictions : List Uuid → List (Event sig) → Prop
  | nil : Evictions [] []
  | cons {u : Uuid} {us : List Uuid} {τ : List (Event sig)} (used : Int) (count : Nat)
      (h : Evictions us τ) : Evictions (u :: us) (passEvents used u count ++ τ)

/-- What the loop is for.  It ends.  However far it comes, each of its passes pops a completed
request and deletes what is stored under it, and nothing else is deleted. -/
structure Evicts (usage : Cache → Int) (core : TaCore) (uuid : Key) (w : World) : Prop where
  ends : ∃ fuel, ∀ τ r w', Runs (metered usage) (evict core fuel uuid).run w τ r w' →
    ∃ key, r = .ok (some key)
  passes : ∀ fuel τ r w', Runs (metered usage) (evict core fuel uuid).run w τ r w' →
    ∃ n τ₁ τ₂, n ≤ (Redis.items w.redis (.list .complete)).length ∧
      Evictions ((Redis.items w.redis (.list .complete)).take n) τ₁ ∧ τ = τ₁ ++ τ₂ ∧
      (∀ e ∈ τ₂, e.cmd = .occupiedSpace) ∧ w'.redis = evicted n w.redis
  others : ∀ fuel τ r w', Runs (metered usage) (evict core fuel uuid).run w τ r w' →
    ∀ u, u ∉ Redis.items w.redis (.list .complete) →
      w'.redis (.uuid u) = w.redis (.uuid u)

/-! ## Databases -/

section Databases

variable {s : Cache} {u : Uuid} {us : List Uuid}

theorem evictFirst_cons (h : Redis.items s (.list .complete) = u :: us) :
    evictFirst s =
      Function.update (Function.update s (.list .complete) (Redis.ofList us)) (.uuid u) none := by
  rw [evictFirst, h]

theorem items_evictFirst (h : Redis.items s (.list .complete) = u :: us) :
    Redis.items (evictFirst s) (.list .complete) = us := by
  rw [evictFirst_cons h, Redis.items, Function.update_of_ne (by simp), Function.update_self,
    Redis.items_ofList]

/-- Nothing happens to the value of another UUID. -/
theorem evictFirst_uuid (h : Redis.items s (.list .complete) = u :: us) {v : Uuid} (hv : v ≠ u) :
    evictFirst s (.uuid v) = s (.uuid v) := by
  rw [evictFirst_cons h, Function.update_of_ne (by simpa using hv), Function.update_of_ne (by simp)]

theorem evicted_uuid {n : Nat} (hn : n ≤ (Redis.items s (.list .complete)).length) {v : Uuid}
    (hv : v ∉ Redis.items s (.list .complete)) : evicted n s (.uuid v) = s (.uuid v) := by
  induction n generalizing s with
  | zero => rfl
  | succ n ih =>
      cases hitems : Redis.items s (.list .complete) with
      | nil =>
          rw [hitems] at hn
          exact absurd hn (Nat.not_succ_le_zero n)
      | cons u us =>
          rw [hitems, List.mem_cons, not_or] at hv
          rw [hitems, List.length_cons] at hn
          rw [evicted, ih, evictFirst_uuid hitems hv.1]
          · rw [items_evictFirst hitems]
            exact Nat.le_of_succ_le_succ hn
          · rw [items_evictFirst hitems]
            exact hv.2

end Databases

/-! ## One pass -/

section Pass

variable {usage : Cache → Int} {core : TaCore} {uuid : Key} {w w' : World} {τ : List (Event sig)}

theorem Serves.of_metered {e : Event sig} (h : (metered usage).Serves w e w') :
    steady.Serves w e w' := by
  obtain ⟨x, h⟩ := h
  exact ⟨reported usage e.cmd x w, h⟩

theorem serves_occupiedSpace {used : Int}
    (h : (metered usage).Serves w ⟨.occupiedSpace, used⟩ w') : used = usage w.redis ∧ w' = w := by
  obtain ⟨x, h⟩ := h
  exact ⟨(congrArg Prod.fst h).symm, (congrArg Prod.snd h).symm⟩

/-- The database after a pass that deletes what is stored under this key. -/
def passed (key : Key) (s : Cache) : Cache :=
  (Redis.exec (.del key) (Redis.exec (.lpop (.list .complete)) s).2).2

/-- One turn of the loop: it ends where the database fits, and else it pops and deletes. -/
theorem runs_evict_succ {fuel : Nat} {r : Except Status (Option Key)}
    (hstate : core.cache.state = true) (hlock : w.lock = .readers 0)
    (h : Runs (metered usage) (evict core (fuel + 1) uuid).run w τ r w') :
    (usage w.redis ≤ core.cache.capacity ∧ τ = [⟨.occupiedSpace, usage w.redis⟩] ∧
        r = .ok (some uuid) ∧ w' = w) ∨
      (core.cache.capacity < usage w.redis ∧ ∃ key reply count τ',
        key = afterPop uuid (stringReply reply) ∧
        reply = (Redis.exec (.lpop (.list .complete)) w.redis).1 ∧
        τ = ⟨.occupiedSpace, usage w.redis⟩ :: ⟨.trywrlock, true⟩ ::
          ⟨.redis (.lpop (.list .complete)), reply⟩ :: ⟨.redis (.del key), .integer count⟩ ::
          ⟨.unlock, true⟩ :: τ' ∧
        Runs (metered usage) (evict core fuel key).run { w with redis := passed key w.redis }
          τ' r w') := by
  rw [evict, runs_run_request_bind] at h
  obtain ⟨used, τ₁, w₁, rfl, hused, h⟩ := h
  obtain ⟨rfl, rfl⟩ := serves_occupiedSpace hused
  split at h
  case isFalse hfits =>
    obtain ⟨rfl, rfl, rfl⟩ := (runs_run_pure ..).mp h
    exact Or.inl ⟨not_lt.mp hfits, rfl, rfl, rfl⟩
  case isTrue hfull =>
    refine Or.inr ⟨hfull, ?_⟩
    rw [runs_run_request_bind] at h
    obtain ⟨ok, τ₂, w₂, rfl, hgrant, h⟩ := h
    obtain ⟨rfl, rfl⟩ := steady_trywrlock hlock (Serves.of_metered hgrant)
    rw [hstate, runs_run_attempt_bind] at h
    obtain ⟨popped, τ₃, τ₄, w₃, rfl, hpop, h⟩ := h
    obtain ⟨reply, rfl, rfl, hpopped⟩ := runs_redisCommand.mp hpop
    obtain ⟨hreply, rfl⟩ := steady_redis.mp (Serves.of_metered hpopped)
    rw [runs_run_attempt_bind] at h
    obtain ⟨deleted, τ₅, τ₆, w₄, rfl, hdel, h⟩ := h
    obtain ⟨delReply, rfl, -, hdeleted⟩ := runs_redisCommand.mp hdel
    obtain ⟨hdelReply, rfl⟩ := steady_redis.mp (Serves.of_metered hdeleted)
    rw [unlockLogged, bind_assoc, runs_run_request_bind] at h
    obtain ⟨ok, τ₇, w₅, rfl, hrelease, h⟩ := h
    obtain ⟨rfl, rfl⟩ := steady_unlock (Serves.of_metered hrelease)
    rw [Redis.exec_del] at hdelReply
    subst hdelReply
    refine ⟨_, reply, _, τ₇, rfl, hreply, rfl, ?_⟩
    rw [hlock]
    exact h

/-- A pass over a list that is not empty removes its first request. -/
theorem passed_cons {s : Cache} {u : Uuid} {us : List Uuid}
    (h : Redis.items s (.list .complete) = u :: us) : passed (.uuid u) s = evictFirst s := by
  rw [passed, Redis.exec_lpop_eq h, evictFirst_cons h]
  simp only [Redis.exec]
  cases (Function.update s (.list .complete) (Redis.ofList us)) (.uuid u) <;> rfl

/-- A loop that ends leaves a database that fits. -/
theorem runs_evict_some {fuel : Nat} {key : Key} (hstate : core.cache.state = true)
    (hlock : w.lock = .readers 0)
    (h : Runs (metered usage) (evict core fuel uuid).run w τ (.ok (some key)) w') :
    usage w'.redis ≤ core.cache.capacity := by
  induction fuel generalizing uuid w τ with
  | zero => cases ((runs_run_pure ..).mp h).2.1
  | succ fuel ih =>
      rcases runs_evict_succ hstate hlock h with
        ⟨hfits, -, -, rfl⟩ | ⟨-, _, _, _, _, -, -, -, hrest⟩
      · exact hfits
      · exact ih (w := { w with redis := passed _ w.redis }) hlock hrest

/-- Where the database fits after some passes, the loop stops there. -/
theorem runs_evict_fits {fuel : Nat} {r : Except Status (Option Key)}
    (hstate : core.cache.state = true) (hlock : w.lock = .readers 0)
    (hfits : ∃ n ≤ (Redis.items w.redis (.list .complete)).length,
      usage (evicted n w.redis) ≤ core.cache.capacity)
    (h : Runs (metered usage) (evict core fuel uuid).run w τ r w') :
    (∃ n τ₁ τ₂, n ≤ (Redis.items w.redis (.list .complete)).length ∧
      Evictions ((Redis.items w.redis (.list .complete)).take n) τ₁ ∧ τ = τ₁ ++ τ₂ ∧
      (∀ e ∈ τ₂, e.cmd = .occupiedSpace) ∧ w'.redis = evicted n w.redis) ∧
    ((Redis.items w.redis (.list .complete)).length < fuel → ∃ key, r = .ok (some key)) := by
  induction fuel generalizing uuid w τ with
  | zero =>
      obtain ⟨rfl, -, rfl⟩ := (runs_run_pure ..).mp h
      exact ⟨⟨0, [], [], Nat.zero_le _, .nil, rfl, fun e he => absurd he List.not_mem_nil, rfl⟩,
        fun hlt => absurd hlt (Nat.not_lt_zero _)⟩
  | succ fuel ih =>
      rcases runs_evict_succ hstate hlock h with ⟨-, rfl, rfl, rfl⟩ |
        ⟨hfull, key, reply, count, τ', hkey, hreply, rfl, hrest⟩
      · refine ⟨⟨0, [], _, Nat.zero_le _, .nil, rfl, fun e he => ?_, rfl⟩, fun _ => ⟨uuid, rfl⟩⟩
        cases List.mem_singleton.mp he
        rfl
      · -- the database does not fit yet, so there is a request to remove
        obtain ⟨n, hn, husage⟩ := hfits
        cases n with
        | zero => exact absurd husage (not_le.mpr hfull)
        | succ n =>
            cases hitems : Redis.items w.redis (.list .complete) with
            | nil =>
                rw [hitems] at hn
                exact absurd hn (Nat.not_succ_le_zero n)
            | cons u us =>
                rw [Redis.exec_lpop hitems] at hreply
                subst hreply
                subst hkey
                rw [stringReply, afterPop, passed_cons hitems] at hrest
                have hlength : (Redis.items (evictFirst w.redis) (.list .complete)).length =
                    us.length := by rw [items_evictFirst hitems]
                rw [hitems, List.length_cons] at hn
                obtain ⟨⟨m, τ₁, τ₂, hm, hpasses, rfl, hend, hw'⟩, hdone⟩ :=
                  ih (w := { w with redis := evictFirst w.redis }) hlock
                    ⟨n, by rw [hlength]; exact Nat.le_of_succ_le_succ hn, husage⟩ hrest
                rw [items_evictFirst hitems] at hm hpasses hdone
                refine ⟨⟨m + 1, _, τ₂, Nat.succ_le_succ hm,
                  .cons (usage w.redis) count hpasses, rfl, hend, hw'⟩, fun hlt => ?_⟩
                exact hdone (Nat.lt_of_succ_lt_succ hlt)

/-- Without a completed request, and with nothing under the key in the buffer, a database that does
not fit stays as it is, and the loop goes on. -/
theorem runs_evict_stuck {fuel : Nat} {r : Except Status (Option Key)}
    (hstate : core.cache.state = true) (hlock : w.lock = .readers 0)
    (hlist : w.redis (.list .complete) = none) (hkey : w.redis uuid = none)
    (hfull : core.cache.capacity < usage w.redis)
    (h : Runs (metered usage) (evict core fuel uuid).run w τ r w') : r = .ok none := by
  induction fuel generalizing τ with
  | zero => exact ((runs_run_pure ..).mp h).2.1
  | succ fuel ih =>
      rcases runs_evict_succ hstate hlock h with ⟨hfits, -⟩ |
        ⟨-, key, reply, count, τ', hafter, hreply, -, hrest⟩
      · exact absurd hfull (not_lt.mpr hfits)
      · have hpop : Redis.exec (.lpop (.list .complete)) w.redis = (.nil, w.redis) := by
          simp only [Redis.exec, hlist, Redis.Cmd.act]
          rw [← hlist, Function.update_eq_self]
        have hsame : passed uuid w.redis = w.redis := by
          rw [passed, hpop]
          simp only [Redis.exec, hkey, Redis.Cmd.act]
          rw [← hkey, Function.update_eq_self]
        rw [hpop] at hreply
        subst hreply
        have hkept : afterPop uuid (stringReply (.nil : Redis.Reply Uuid)) = uuid := rfl
        rw [hkept] at hafter
        subst hafter
        rw [hsame] at hrest
        exact ih hrest

end Pass

/-- For every database, every usage of memory and every content of the buffer, with the lock free
and the cache on: the loop does what it is for exactly when the database fits after some of the
completed requests, or all of them, have been removed. -/
theorem evict_iff (usage : Cache → Int) (core : TaCore) (uuid : Key) (w : World)
    (hstate : core.cache.state = true) (hlock : w.lock = .readers 0) :
    Evicts usage core uuid w ↔
      ∃ n ≤ (Redis.items w.redis (.list .complete)).length,
        usage (evicted n w.redis) ≤ core.cache.capacity := by
  constructor
  · intro h
    obtain ⟨fuel, hends⟩ := h.ends
    have hrun := runs_exec (V := metered usage) (evict core fuel uuid).run
      (fun _ => SteadyChoice.any) w
    obtain ⟨key, hkey⟩ := hends _ _ _ hrun
    obtain ⟨n, -, -, hn, -, -, -, hw'⟩ := h.passes _ _ _ _ hrun
    rw [hkey] at hrun
    refine ⟨n, hn, ?_⟩
    rw [← hw']
    exact runs_evict_some hstate hlock hrun
  · intro hfits
    refine ⟨⟨(Redis.items w.redis (.list .complete)).length + 1, fun τ r w' h => ?_⟩,
      fun fuel τ r w' h => (runs_evict_fits hstate hlock hfits h).1, fun fuel τ r w' h u hu => ?_⟩
    · exact (runs_evict_fits hstate hlock hfits h).2 (Nat.lt_succ_self _)
    · obtain ⟨⟨n, -, -, hn, -, -, -, hw'⟩, -⟩ := runs_evict_fits hstate hlock hfits h
      rw [hw', evicted_uuid hn hu]

namespace Sample

/-- The memory is what the completed requests need. -/
def usedByCompleted (s : Cache) : Int := (Redis.items s (.list .complete)).length

/-- The memory is what the buffered requests need. -/
def usedByBuffered (s : Cache) : Int := (Redis.items s (.list .buffer)).length

end Sample

/-- One completed request, which is too much. -/
theorem evict_one : Evicts Sample.usedByCompleted Sample.core .empty
    (Sample.sent (.list Sample.trytes []) 1#128 []) := by
  refine (evict_iff _ _ _ _ rfl rfl).mpr ⟨1, le_refl 1, ?_⟩
  have hitems := items_evictFirst (s := (Sample.sent (.list Sample.trytes []) 1#128 []).redis) rfl
  rw [evicted, evicted, Sample.usedByCompleted, hitems]
  exact le_refl 0

/-- Only a buffered request is stored.  Deleting never increases the usage, and the loop goes on
whatever the fuel is. -/
theorem evict_never_ends :
    (∀ s key, Sample.usedByBuffered (Function.update s key none) ≤ Sample.usedByBuffered s) ∧
    Redis.items Sample.buffered.redis (.list .complete) = [] ∧
    ∀ fuel τ r w', Runs (metered Sample.usedByBuffered) (evict Sample.core fuel .empty).run
      Sample.buffered τ r w' → r = .ok none := by
  refine ⟨fun s key => ?_, rfl, fun fuel τ r w' h => ?_⟩
  · rw [Sample.usedByBuffered, Sample.usedByBuffered, Int.ofNat_le]
    by_cases hkey : key = .list .buffer
    · subst hkey
      rw [Redis.items, Function.update_self]
      exact Nat.zero_le _
    · rw [Redis.items, Function.update_of_ne (Ne.symm hkey)]
      exact le_refl _
  · exact runs_evict_stuck rfl rfl rfl rfl (by decide) h

end TangleAccelerator
