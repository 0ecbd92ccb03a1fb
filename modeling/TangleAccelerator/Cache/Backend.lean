import TangleAccelerator.Common.World

/-!
# The cache backend

`utils/cache/backend_redis.c`.  Each function issues one Redis command and reads a
status off the type of the reply (`redisCommand`), except `redisListExist`, which asks
for the length of a list and then for every element.  The public functions first check
the flag `state` of the file (`cacheOn`).

Three readings of a reply differ from what its documentation suggests.  `redisDel`
fails on a missing key, `redisSet` succeeds whatever the reply is, also when the key
was taken, and `redisListExist` goes on after a failed read and reports it at the end.

`runs_cacheListExist` says what the scan decides in a run of its own.
-/

namespace TangleAccelerator

open Effect

variable {α : Type}

/-! ## Replies -/

/-- `reply->integer`, which is zero in a reply of another type. -/
def integerField : Redis.Reply α → Nat
  | .integer n => n
  | _ => 0

/-- The string of a reply, where any other type is a failure. -/
def stringReply : Redis.Reply α → Except Status α
  | .bulk a => .ok a
  | _ => .error .cacheFailedResponse

@[simp] theorem stringReply_eq_ok {r : Redis.Reply α} {a : α} :
    stringReply r = .ok a ↔ r = .bulk a := by
  cases r <;> simp [stringReply]

/-- Issue a Redis command and read a status off the reply. -/
def redisCommand (c : Redis.Cmd Key Key.Elem) (f : Redis.Reply c.Bulk → Except Status α) :
    Proc α := do
  let reply ← request (.redis c)
  settle (f reply)

/-! ## Private functions -/

/-- `redis_del`. -/
def redisDel (key : Key) : Proc Unit :=
  redisCommand (.del key) fun reply =>
    if integerField reply = 0 then .error .cacheFailedResponse else .ok ()

/-- `redis_get`. -/
def redisGet (key : Key) : Proc String :=
  redisCommand (.get key) stringReply

/-- `redis_set`.  The reply is only logged. -/
def redisSet (key : Key) (value : String) (timeout : Nat) : Proc Unit :=
  redisCommand (.set key value (if timeout > 0 then some timeout else none)) fun _ => .ok ()

/-- `redis_list_push`. -/
def redisListPush (key : Key) (value : key.Elem) : Proc Unit :=
  redisCommand (.lpush key value) fun
    | .error => .error .cacheFailedResponse
    | _ => .ok ()

/-- `redis_list_at`. -/
def redisListAt (key : Key) (index : Nat) : Proc key.Elem :=
  redisCommand (.lindex key index) stringReply

/-- `redis_list_peek`. -/
def redisListPeek (key : Key) : Proc key.Elem :=
  redisCommand (.lindex key 0) stringReply

/-- `redis_list_size`. -/
def redisListSize (key : Key) : Proc Nat :=
  redisCommand (.llen key) fun
    | .error => .error .cacheFailedResponse
    | reply => .ok (integerField reply)

/-- The loop of `redis_list_exist` over the indices that are left. -/
def redisListExistLoop (n : ListName) (value : Uuid) :
    List Nat → Bool → Except Status Unit → Proc Bool
  | [], exist, ret => do
      settle ret
      pure exist
  | i :: is, exist, ret => do
      match ← attempt (redisListAt (.list n) i) with
      | .ok res => redisListExistLoop n value is (exist || value == res) ret
      | .error _ => redisListExistLoop n value is exist (.error .cacheFailedResponse)

/-- `redis_list_exist`. -/
def redisListExist (n : ListName) (value : Uuid) : Proc Bool := do
  match ← attempt (redisListSize (.list n)) with
  | .ok len => redisListExistLoop n value (List.range len) false (.ok ())
  | .error _ => redisListExistLoop n value [] false (.error .cacheFailedResponse)

/-- `redis_list_pop`. -/
def redisListPop (key : Key) : Proc key.Elem :=
  redisCommand (.lpop key) stringReply

/-! ## Public functions -/

section Public

variable (state : Bool)

/-- The check of `state` every public function starts with. -/
def cacheOn (x : Proc α) : Proc α := do
  ensure state .cacheOff
  x

/-- `cache_del`. -/
def cacheDel (key : Key) : Proc Unit := cacheOn state (redisDel key)

/-- `cache_get`. -/
def cacheGet (key : Key) : Proc String := cacheOn state (redisGet key)

/-- `cache_set`. -/
def cacheSet (key : Key) (value : String) (timeout : Nat) : Proc Unit :=
  cacheOn state (redisSet key value timeout)

/-- `cache_list_push`. -/
def cacheListPush (key : Key) (value : key.Elem) : Proc Unit :=
  cacheOn state (redisListPush key value)

/-- `cache_list_at`. -/
def cacheListAt (key : Key) (index : Nat) : Proc key.Elem :=
  cacheOn state (redisListAt key index)

/-- `cache_list_peek`. -/
def cacheListPeek (key : Key) : Proc key.Elem := cacheOn state (redisListPeek key)

/-- `cache_list_size`. -/
def cacheListSize (key : Key) : Proc Nat := cacheOn state (redisListSize key)

/-- `cache_list_exist`. -/
def cacheListExist (n : ListName) (value : Uuid) : Proc Bool :=
  cacheOn state (redisListExist n value)

/-- `cache_list_pop`. -/
def cacheListPop (key : Key) : Proc key.Elem := cacheOn state (redisListPop key)

end Public

/-! ## Paths and runs -/

section Paths

variable {state : Bool} {τ : List (Event sig)} {V : Server sig} {w w' : V.State}

@[simp] theorem path_redisCommand {c : Redis.Cmd Key Key.Elem}
    {f : Redis.Reply c.Bulk → Except Status α} {r : Except Status α} :
    Path (redisCommand c f).run τ r ↔
      ∃ reply : Redis.Reply c.Bulk, τ = [⟨.redis c, reply⟩] ∧ r = f reply := by
  rw [redisCommand, path_run_bind]
  constructor
  · intro h
    rcases h with ⟨e, -, h⟩ | ⟨reply, τ₁, τ₂, rfl, h₁, h₂⟩
    · obtain ⟨a, h, -⟩ := (path_run_request ..).mp h
      cases h
    · obtain ⟨a, ha, rfl⟩ := (path_run_request ..).mp h₁
      obtain ⟨rfl, rfl⟩ := (path_run_settle ..).mp h₂
      cases ha
      exact ⟨reply, rfl, rfl⟩
  · intro h
    obtain ⟨reply, rfl, rfl⟩ := h
    exact Or.inr ⟨reply, _, [], rfl, (path_run_request ..).mpr ⟨reply, rfl, rfl⟩,
      (path_run_settle ..).mpr ⟨rfl, rfl⟩⟩

@[simp] theorem runs_redisCommand {c : Redis.Cmd Key Key.Elem}
    {f : Redis.Reply c.Bulk → Except Status α} {r : Except Status α} :
    Runs V (redisCommand c f).run w τ r w' ↔
      ∃ reply : Redis.Reply c.Bulk,
        τ = [⟨.redis c, reply⟩] ∧ r = f reply ∧ V.Serves w ⟨.redis c, reply⟩ w' := by
  rw [Runs, path_redisCommand]
  constructor
  · intro h
    obtain ⟨⟨reply, rfl, rfl⟩, hs⟩ := h
    exact ⟨reply, rfl, rfl, (served_singleton ..).mp hs⟩
  · intro h
    obtain ⟨reply, rfl, rfl, hs⟩ := h
    exact ⟨⟨reply, rfl, rfl⟩, (served_singleton ..).mpr hs⟩

@[simp] theorem uses_redisCommand {P : Cmd → Prop} {c : Redis.Cmd Key Key.Elem}
    {f : Redis.Reply c.Bulk → Except Status α} :
    Uses (S := sig) P (redisCommand c f).run ↔ P (.redis c) :=
  ⟨fun h => h.1, fun h => Uses.run_bind ((uses_run_request _).mpr h) fun _ => uses_run_settle _⟩

@[simp] theorem path_cacheOn {x : Proc α} {r : Except Status α} :
    Path (cacheOn state x).run τ r ↔
      (state = true ∧ Path x.run τ r) ∨ (state = false ∧ τ = [] ∧ r = .error .cacheOff) := by
  cases state <;> simp [cacheOn, ensure]

@[simp] theorem runs_cacheOn {x : Proc α} {r : Except Status α} :
    Runs V (cacheOn state x).run w τ r w' ↔
      (state = true ∧ Runs V x.run w τ r w') ∨
        (state = false ∧ τ = [] ∧ r = .error .cacheOff ∧ w' = w) := by
  cases state <;> simp [cacheOn, ensure]

/-- A cache function that succeeds issued its command and liked the reply. -/
theorem path_cacheOn_ok {c : Redis.Cmd Key Key.Elem} {f : Redis.Reply c.Bulk → Except Status α}
    {a : α} :
    Path (cacheOn state (redisCommand c f)).run τ (.ok a) ↔
      state = true ∧ ∃ reply : Redis.Reply c.Bulk, τ = [⟨.redis c, reply⟩] ∧ f reply = .ok a := by
  simp [eq_comm]

theorem runs_cacheOn_ok {c : Redis.Cmd Key Key.Elem} {f : Redis.Reply c.Bulk → Except Status α}
    {a : α} :
    Runs V (cacheOn state (redisCommand c f)).run w τ (.ok a) w' ↔
      state = true ∧ ∃ reply : Redis.Reply c.Bulk,
        τ = [⟨.redis c, reply⟩] ∧ f reply = .ok a ∧ V.Serves w ⟨.redis c, reply⟩ w' := by
  simp [eq_comm]

@[simp] theorem safe_redisCommand {R : Protocol sig} {m : R.State} {c : Redis.Cmd Key Key.Elem}
    {f : Redis.Reply c.Bulk → Except Status α} {Q : Except Status α → R.State → Prop} :
    Safe R (redisCommand c f).run m Q ↔ R.may m (.redis c) ∧
      ∀ reply, R.admits m ⟨.redis c, reply⟩ → Q (f reply) (R.next m ⟨.redis c, reply⟩) := Iff.rfl

@[simp] theorem safe_cacheOn_true {R : Protocol sig} {m : R.State} {x : Proc α}
    {Q : Except Status α → R.State → Prop} :
    Safe R (cacheOn true x).run m Q ↔ Safe R x.run m Q := Iff.rfl

theorem Uses.cacheOn {P : Cmd → Prop} {x : Proc α} (h : Uses (S := sig) P x.run) :
    Uses (S := sig) P (cacheOn state x).run :=
  Uses.run_bind (uses_run_ensure ..) fun _ => h

end Paths

/-! ## What a success says about the world -/

section Success

variable {state : Bool} {τ : List (Event sig)} {w w' : World} {key : Key}

/-- A command that only reads leaves the world alone. -/
theorem serves_read {c : Redis.Cmd Key Key.Elem} {r : Redis.Reply c.Bulk}
    (h : world.Serves w ⟨.redis c, r⟩ w') (hc : ¬ c.Writes) : w' = w := by
  obtain ⟨ha, hw⟩ := serves_redis.mp h
  rw [hw, ha.not_writes hc]

theorem runs_cacheDel (h : Runs world (cacheDel state key).run w τ (.ok ()) w') :
    w'.redis key = none ∧ w.redis key ≠ none ∧ ∀ k, k ≠ key → w'.redis k = w.redis k := by
  obtain ⟨-, reply, -, hr, hs⟩ := runs_cacheOn_ok.mp h
  have hk : ∀ k, k ≠ key → w'.redis k = w.redis k := fun k hk => (serves_redis.mp hs).1.ne hk
  cases reply with
  | integer n =>
      have hn : n ≠ 0 := by
        intro hn
        subst hn
        cases hr
      obtain ⟨hnone, hsome⟩ := (serves_redis.mp hs).1.del
      exact ⟨hnone, hsome hn, hk⟩
  | _ => cases hr

theorem runs_cacheGet {v : String} (h : Runs world (cacheGet state key).run w τ (.ok v) w') :
    w' = w ∧ w.redis key = some (.str v) := by
  obtain ⟨-, reply, -, hr, hs⟩ := runs_cacheOn_ok.mp h
  obtain rfl := stringReply_eq_ok.mp hr
  exact ⟨serves_read hs fun h => h, (serves_redis.mp hs).1.get⟩

theorem runs_cacheListPop {e : key.Elem}
    (h : Runs world (cacheListPop state key).run w τ (.ok e) w') :
    Redis.items w.redis key = e :: Redis.items w'.redis key ∧ Redis.isStr w'.redis key = false ∧
      ∀ k, k ≠ key → w'.redis k = w.redis k := by
  obtain ⟨-, reply, -, hr, hs⟩ := runs_cacheOn_ok.mp h
  obtain rfl := stringReply_eq_ok.mp hr
  have ha := (serves_redis.mp hs).1
  exact ⟨ha.lpop, ha.lpop_isStr, fun k hk => ha.ne hk⟩

end Success

/-! ## The scan of a list -/

section Scan

variable {state : Bool} {τ : List (Event sig)} {w w' : World} {n : ListName} {u : Uuid} {b : Bool}

theorem serves_lindex {k : Key} {i : Nat} {e : k.Elem}
    (h : world.Serves w ⟨.redis (.lindex k i), .bulk e⟩ w') :
    w' = w ∧ (Redis.items w.redis k)[i]? = some e := by
  obtain ⟨ha, hw⟩ := serves_redis.mp h
  refine ⟨?_, ha.lindex⟩
  rw [hw, ha.not_writes fun h => h]

theorem serves_llen {k : Key} {reply : Redis.Reply (Redis.Cmd.llen k : Redis.Cmd Key Key.Elem).Bulk}
    (h : world.Serves w ⟨.redis (.llen k), reply⟩ w') (hr : reply ≠ .error) :
    w' = w ∧ reply = .integer (Redis.items w.redis k).length ∧ Redis.isStr w.redis k = false := by
  obtain ⟨ha, hw⟩ := serves_redis.mp h
  refine ⟨?_, ha.llen hr⟩
  rw [hw, ha.not_writes fun h => h]

/-- Looking at every index finds exactly the elements. -/
theorem any_range_eq_mem (l : List Uuid) (u : Uuid) :
    ((List.range l.length).any fun i => l[i]? == some u) = decide (u ∈ l) := by
  rw [Bool.eq_iff_iff, List.any_eq_true, decide_eq_true_iff, List.mem_iff_getElem?]
  constructor
  · intro h
    obtain ⟨i, -, hi⟩ := h
    exact ⟨i, eq_of_beq hi⟩
  · intro h
    obtain ⟨i, hi⟩ := h
    have hlt : i < l.length := (List.getElem?_eq_some_iff.mp hi).1
    exact ⟨i, List.mem_range.mpr hlt, beq_iff_eq.mpr hi⟩

theorem runs_redisListExistLoop {is : List Nat} {exist : Bool} {ret : Except Status Unit}
    (h : Runs world (redisListExistLoop n u is exist ret).run w τ (.ok b) w') :
    w' = w ∧ ret = .ok () ∧
      b = (exist || is.any fun i => (Redis.items w.redis (.list n))[i]? == some u) := by
  induction is generalizing exist ret τ w with
  | nil =>
      rw [redisListExistLoop, runs_run_bind_ok] at h
      obtain ⟨a, τ₁, τ₂, w₁, -, h₁, h₂⟩ := h
      obtain ⟨-, hret, rfl⟩ := (runs_run_settle ..).mp h₁
      obtain ⟨-, hb, rfl⟩ := (runs_run_pure ..).mp h₂
      cases hb
      exact ⟨rfl, hret.symm, by simp⟩
  | cons i is ih =>
      rw [redisListExistLoop, runs_run_bind_ok] at h
      obtain ⟨a, τ₁, τ₂, w₁, -, h₁, h₂⟩ := h
      obtain ⟨a', ha, h₁⟩ := (runs_run_attempt ..).mp h₁
      cases ha
      obtain ⟨reply, -, rfl, hs⟩ := runs_redisCommand.mp h₁
      cases hr : stringReply reply with
      | error e =>
          -- a failed read is remembered to the end, where the scan fails
          rw [hr] at h₂
          obtain ⟨-, hret, -⟩ := ih h₂
          cases hret
      | ok v =>
          rw [hr] at h₂
          obtain rfl := stringReply_eq_ok.mp hr
          obtain ⟨rfl, hi⟩ := serves_lindex hs
          obtain ⟨rfl, hret, rfl⟩ := ih h₂
          refine ⟨rfl, hret, ?_⟩
          have huv : (some v == some u) = (u == v) := by
            rw [Option.some_beq_some, Bool.beq_comm]
          rw [List.any_cons, hi, huv, Bool.or_assoc]

/-- A scan that succeeds decides whether the UUID is in the list, and changes nothing. -/
theorem runs_cacheListExist (h : Runs world (cacheListExist state n u).run w τ (.ok b) w') :
    state = true ∧ w' = w ∧ Redis.isStr w.redis (.list n) = false ∧
      b = decide (u ∈ Redis.items w.redis (.list n)) := by
  rcases runs_cacheOn.mp h with ⟨hst, h⟩ | ⟨-, -, h, -⟩
  · refine ⟨hst, ?_⟩
    rw [redisListExist, runs_run_bind_ok] at h
    obtain ⟨a, τ₁, τ₂, w₁, -, h₁, h₂⟩ := h
    obtain ⟨a', ha, h₁⟩ := (runs_run_attempt ..).mp h₁
    cases ha
    obtain ⟨reply, -, rfl, hs⟩ := runs_redisCommand.mp h₁
    by_cases hr : reply = .error
    · subst hr
      obtain ⟨-, hret, -⟩ := runs_redisListExistLoop h₂
      cases hret
    · obtain ⟨rfl, rfl, hstr⟩ := serves_llen hs hr
      obtain ⟨rfl, -, rfl⟩ := runs_redisListExistLoop h₂
      exact ⟨rfl, hstr, by rw [Bool.false_or]; exact any_range_eq_mem ..⟩
  · cases h

/-- A size that is returned is that of the list, and nothing changes. -/
theorem runs_cacheListSize {key : Key} {len : Nat}
    (h : Runs world (cacheListSize state key).run w τ (.ok len) w') :
    w' = w ∧ len = (Redis.items w.redis key).length ∧ Redis.isStr w.redis key = false := by
  obtain ⟨-, reply, -, hr, hs⟩ := runs_cacheOn_ok.mp h
  have hreply : reply ≠ .error := by
    rintro rfl
    cases hr
  obtain ⟨rfl, rfl, hstr⟩ := serves_llen hs hreply
  exact ⟨rfl, (Except.ok.inj hr).symm, hstr⟩

/-- In a steady world the loop of the scan only fails where it was told to. -/
theorem steady_redisListExistLoop {is : List Nat} {exist : Bool} {ret : Except Status Unit}
    {r : Except Status Bool}
    (h : Runs steady (redisListExistLoop n u is exist ret).run w τ r w')
    (his : ∀ i ∈ is, i < (Redis.items w.redis (.list n)).length) :
    w' = w ∧ ∀ e, r = .error e → ret = .error e := by
  induction is generalizing exist ret τ w with
  | nil =>
      rw [redisListExistLoop, runs_run_bind] at h
      rcases h with ⟨e, rfl, h⟩ | ⟨a, τ₁, τ₂, w₁, -, h₁, h₂⟩
      · obtain ⟨-, hret, rfl⟩ := (runs_run_settle ..).mp h
        exact ⟨rfl, fun e' he => by rw [← hret]; cases he; rfl⟩
      · obtain ⟨-, -, rfl⟩ := (runs_run_settle ..).mp h₁
        obtain ⟨-, rfl, rfl⟩ := (runs_run_pure ..).mp h₂
        exact ⟨rfl, fun e he => by cases he⟩
  | cons i is ih =>
      rw [redisListExistLoop, runs_run_bind] at h
      rcases h with ⟨e, rfl, h⟩ | ⟨a, τ₁, τ₂, w₁, -, h₁, h₂⟩
      · obtain ⟨a, h, -⟩ := (runs_run_attempt ..).mp h
        cases h
      · obtain ⟨a', ha, h₁⟩ := (runs_run_attempt ..).mp h₁
        cases ha
        obtain ⟨reply, -, rfl, hs⟩ := runs_redisCommand.mp h₁
        have hi := List.getElem?_eq_getElem (his i (List.mem_cons_self ..))
        obtain ⟨hreply, -⟩ := steady_redis.mp hs
        rw [Redis.exec_lindex hi] at hreply
        subst hreply
        obtain ⟨rfl, -⟩ := serves_lindex (Serves.of_steady hs)
        exact ih h₂ fun j hj => his j (List.mem_cons_of_mem _ hj)

/-- In a steady world a scan only fails on a key that holds a string. -/
theorem steady_cacheListExist {r : Except Status Bool}
    (h : Runs steady (cacheListExist true n u).run w τ r w') :
    w' = w ∧ r = if Redis.isStr w.redis (.list n) then .error .cacheFailedResponse
      else .ok (decide (u ∈ Redis.items w.redis (.list n))) := by
  cases r with
  | ok b =>
      obtain ⟨-, rfl, hstr, rfl⟩ := runs_cacheListExist ⟨h.1, Served.of_steady h.2⟩
      exact ⟨rfl, by rw [hstr]; rfl⟩
  | error e =>
      rcases runs_cacheOn.mp h with ⟨-, h⟩ | ⟨hst, -⟩
      · rw [redisListExist, runs_run_bind] at h
        rcases h with ⟨e', he, h⟩ | ⟨a, τ₁, τ₂, w₁, -, h₁, h₂⟩
        · obtain ⟨a, h, -⟩ := (runs_run_attempt ..).mp h
          cases h
        · obtain ⟨a', ha, h₁⟩ := (runs_run_attempt ..).mp h₁
          cases ha
          obtain ⟨reply, -, rfl, hs⟩ := runs_redisCommand.mp h₁
          by_cases hr : reply = .error
          · subst hr
            obtain ⟨hreply, -⟩ := steady_redis.mp hs
            have hw : w₁ = w := by
              obtain ⟨ha, hw⟩ := serves_redis.mp (Serves.of_steady hs)
              rw [hw, ha.not_writes fun h => h]
            subst hw
            obtain ⟨rfl, he⟩ := steady_redisListExistLoop h₂ fun i hi => by cases hi
            obtain rfl := Except.error.inj (he e rfl)
            exact ⟨rfl, by rw [Redis.exec_llen hreply.symm]; rfl⟩
          · obtain ⟨rfl, rfl, -⟩ := serves_llen (Serves.of_steady hs) hr
            obtain ⟨-, he⟩ := steady_redisListExistLoop h₂ fun i hi => List.mem_range.mp hi
            cases he e rfl
      · cases hst

end Scan

end TangleAccelerator
