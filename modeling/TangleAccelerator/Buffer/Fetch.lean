import TangleAccelerator.Buffer.Handover

/-!
# Fetching a sent request

A fetch looks a UUID up by its value and takes an entry off the complete list by its
position.  What it deletes under the UUID is right, but the entry it takes is the head.

`runs_taFetchTxn_sent` and `runs_taFetchMam_sent` say what a fetch of a sent request does to
the database (`Removes`).  The main result compares that with taking away the UUID and nothing
else (`RemovesOnly`): the two agree exactly when the UUID stands at the head of the complete
list and nowhere else in it.

`RemovesOnly` also speaks of later fetches.  What a fetch reports, when the cache refuses
nothing, is a function of the database (`fetchTxnReport`, `fetchMamReport`), and
`reports_txn_iff` and `reports_mam_iff` connect that to runs.
-/

namespace TangleAccelerator

open Effect

variable {w w' : World} {τ : List (Event sig)} {I : Iota} {cache : TaCache} {u v : Uuid}

/-! ## What a fetch does -/

/-- The head of the list `n` is taken, the value of `u` is deleted, and nothing else. -/
structure Removes (n : ListName) (u : Uuid) (w w' : World) : Prop where
  popped : ∃ p, Redis.items w.redis (.list n) = p :: Redis.items w'.redis (.list n)
  isList : Redis.isStr w'.redis (.list n) = false
  deleted : w'.redis (.uuid u) = none
  frame : ∀ k, k ≠ .uuid u → k ≠ .list n → w'.redis k = w.redis k

theorem runs_unlockLogged {r : Except Status Unit}
    (h : Runs world unlockLogged.run w τ r w') : w'.redis = w.redis := by
  rw [unlockLogged, runs_run_bind] at h
  rcases h with ⟨e, -, h⟩ | ⟨ok, τ₁, τ₂, w₁, -, h₁, h₂⟩
  · obtain ⟨a, -, -, hs⟩ := (runs_run_request ..).mp h
    exact serves_redis_eq hs fun c hc => by cases hc
  · obtain ⟨a, -, -, hs⟩ := (runs_run_request ..).mp h₁
    obtain ⟨-, -, rfl⟩ := (runs_run_pure ..).mp h₂
    exact serves_redis_eq hs fun c hc => by cases hc

theorem runs_cacheListRead {state : Bool} {key : Key} {is : List Nat} {es : List key.Elem}
    (h : Runs world (cacheListRead state key is).run w τ (.ok es) w') :
    w' = w ∧ is.map (fun i => (Redis.items w.redis key)[i]?) = es.map some := by
  induction is generalizing es τ w with
  | nil =>
      obtain ⟨-, hes, rfl⟩ := (runs_run_pure ..).mp h
      cases hes
      exact ⟨rfl, rfl⟩
  | cons i is ih =>
      rw [cacheListRead, runs_run_bind_ok] at h
      obtain ⟨e, τ₁, τ₂, w₁, -, h₁, h⟩ := h
      obtain ⟨-, reply, -, hr, hs⟩ := runs_cacheOn_ok.mp h₁
      obtain rfl := stringReply_eq_ok.mp hr
      obtain ⟨rfl, hi⟩ := serves_lindex hs
      rw [runs_run_bind_ok] at h
      obtain ⟨es', τ₃, τ₄, w₂, -, h₂, h₃⟩ := h
      obtain ⟨-, hes, rfl⟩ := (runs_run_pure ..).mp h₃
      cases hes
      obtain ⟨rfl, hmap⟩ := ih h₂
      refine ⟨rfl, ?_⟩
      rw [List.map_cons, List.map_cons, hi, hmap]

/-- Reading a list at every index gives the list. -/
theorem eq_of_map_range {ε : Type} {l es : List ε}
    (h : (List.range l.length).map (fun i => l[i]?) = es.map some) : es = l := by
  refine (List.map_injective_iff.mpr fun a b hab => Option.some.inj hab) (h.symm.trans ?_)
  refine List.ext_getElem (by simp) fun i h₁ h₂ => ?_
  simp only [List.getElem_map, List.getElem_range]
  exact List.getElem?_eq_getElem (by simpa using h₁)

/-- A branch that releases the lock and fails does not succeed. -/
theorem not_runs_unlock_throw {e : Status} {res : FetchRes} :
    ¬ Runs world (do unlockLogged; throw e : Proc FetchRes).run w τ (.ok res) w' := by
  intro h
  rw [runs_run_bind_ok] at h
  obtain ⟨_, τ₁, τ₂, w₁, -, -, h⟩ := h
  obtain ⟨-, h, -⟩ := (runs_run_throw ..).mp h
  cases h

/-- A branch that releases the lock and reports another status does not report a sent
request. -/
theorem runs_unlock_pure {res res' : FetchRes}
    (h : Runs world (do unlockLogged; pure res' : Proc FetchRes).run w τ (.ok res) w') :
    res = res' := by
  rw [runs_run_bind_ok] at h
  obtain ⟨_, τ₁, τ₂, w₁, -, -, h⟩ := h
  obtain ⟨-, h, -⟩ := (runs_run_pure ..).mp h
  exact Except.ok.inj h

/-- The end of both functions: delete the value and pop the list. -/
theorem runs_del_pop {n : ListName} {state : Bool} {res res' : FetchRes}
    (h : Runs world (do
      cacheDel state (.uuid u)
      let _ ← cacheListPop state (.list n)
      pure res' : Proc FetchRes).run w τ (.ok res) w') : res = res' ∧ Removes n u w w' := by
  rw [runs_run_bind_ok] at h
  obtain ⟨_, τ₁, τ₂, w₁, -, hdel, h⟩ := h
  rw [runs_run_bind_ok] at h
  obtain ⟨p, τ₃, τ₄, w₂, -, hpop, h⟩ := h
  obtain ⟨-, hres, rfl⟩ := (runs_run_pure ..).mp h
  obtain ⟨hnone, -, hdel⟩ := runs_cacheDel hdel
  obtain ⟨hitems, hstr, hpop⟩ := runs_cacheListPop hpop
  refine ⟨Except.ok.inj hres, ⟨p, ?_⟩, hstr, ?_, ?_⟩
  · rw [← hitems, Redis.items, Redis.items, hdel (.list n) (by simp)]
  · rw [hpop (.uuid u) (by simp), hnone]
  · intro k hu hn
    rw [hpop k hn, hdel k hu]

/-- `Removes` only looks at the database the call started from. -/
theorem Removes.of_redis_eq {n : ListName} {w₁ : World} (hw : w₁.redis = w.redis)
    (h : Removes n u w₁ w') : Removes n u w w' := by
  obtain ⟨hp, hl, hd, hf⟩ := h
  rw [hw] at hp
  exact ⟨hp, hl, hd, fun k hu hn => by rw [hf k hu hn, hw]⟩

/-- What a fetch that reports a sent request found and did. -/
structure FoundSent (cache : TaCache) (nb nc : ListName) (u : Uuid) (w w' : World) : Prop where
  state : cache.state = true
  isList : Redis.isStr w.redis (.list nb) = false
  notBuffered : u ∉ Redis.items w.redis (.list nb)
  completed : u ∈ Redis.items w.redis (.list nc)
  removes : Removes nc u w w'

/-- The start of both functions: under the lock the first list is looked through. -/
theorem runs_locked_scan {α : Type} {n : ListName} {f : Except Status Bool → Proc α} {a : α}
    (h : Runs world (do
      ensure (← request .tryrdlock) .cacheLockFailure
      f (← attempt (cacheListExist cache.state n u)) : Proc α).run w τ (.ok a) w') :
    ∃ r τ' w₁, Runs world (f r).run w₁ τ' (.ok a) w' ∧ ∀ b, r = .ok b →
      w₁.redis = w.redis ∧ cache.state = true ∧ Redis.isStr w.redis (.list n) = false ∧
        b = decide (u ∈ Redis.items w.redis (.list n)) := by
  rw [runs_run_request_bind] at h
  obtain ⟨ok, τ₁, w₁, -, hlock, h⟩ := h
  have hw₁ : w₁.redis = w.redis := serves_redis_eq hlock fun c hc => by cases hc
  rw [runs_run_bind_ok] at h
  obtain ⟨_, τ₂, τ₃, w₂, -, hensure, h⟩ := h
  obtain ⟨-, -, rfl⟩ := (runs_run_ensure ..).mp hensure
  rw [runs_run_attempt_bind] at h
  obtain ⟨r, τ₄, τ₅, w₃, -, hscan, h⟩ := h
  refine ⟨r, τ₅, w₃, h, ?_⟩
  rintro b rfl
  obtain ⟨hstate, rfl, hstr, hb⟩ := runs_cacheListExist hscan
  rw [hw₁] at hstr hb
  exact ⟨hw₁, hstate, hstr, hb⟩

theorem runs_taFetchTxn_sent {res : FetchRes}
    (h : Runs world (taFetchTxnWithUuid I cache u).run w τ (.ok res) w')
    (hres : res.status = .sent) : FoundSent cache .buffer .complete u w w' ∧
      res = { status := .sent
              bundle := (Redis.items w.redis (.uuid u)).map (I.deserialize · false) } := by
  rw [taFetchTxnWithUuid] at h
  obtain ⟨r, τ₁, w₁, h, hscan⟩ := runs_locked_scan h
  rcases r with e | _ | _
  · exact absurd h not_runs_unlock_throw
  · obtain ⟨hw₁, hstate, hstr, hb⟩ := hscan false rfl
    rw [runs_run_bind_ok] at h
    obtain ⟨b', τ₂, τ₃, w₂, -, hscan', h⟩ := h
    obtain ⟨-, rfl, -, hb'⟩ := runs_cacheListExist hscan'
    cases b' with
    | false =>
        rw [runs_unlock_pure h] at hres
        cases hres
    | true =>
        rw [runs_run_bind_ok] at h
        obtain ⟨len, τ₄, τ₅, w₃, -, hlen, h⟩ := h
        obtain ⟨rfl, rfl, -⟩ := runs_cacheListSize hlen
        rw [runs_run_bind_ok] at h
        obtain ⟨_, τ₆, τ₇, w₄, -, hunlock, h⟩ := h
        have hw₄ := runs_unlockLogged hunlock
        rw [runs_run_bind_ok] at h
        obtain ⟨trytes, τ₈, τ₉, w₅, -, hread, h⟩ := h
        obtain ⟨rfl, hmap⟩ := runs_cacheListRead hread
        rw [hw₄] at hmap
        obtain rfl := eq_of_map_range hmap
        obtain ⟨rfl, hrem⟩ := runs_del_pop h
        rw [hw₁] at hb' ⊢
        exact ⟨⟨hstate, hstr, by simpa using hb.symm, by simpa using hb'.symm,
          hrem.of_redis_eq (hw₄.trans hw₁)⟩, rfl⟩
  · rw [runs_unlock_pure h] at hres
    cases hres

theorem runs_taFetchMam_sent {res : FetchRes}
    (h : Runs world (taFetchMamWithUuid cache u).run w τ (.ok res) w')
    (hres : res.status = .sent) : FoundSent cache .mamBuffer .mamComplete u w w' := by
  rw [taFetchMamWithUuid] at h
  obtain ⟨r, τ₁, w₁, h, hscan⟩ := runs_locked_scan h
  rcases r with e | _ | _
  · exact absurd h not_runs_unlock_throw
  · obtain ⟨hw₁, hstate, hstr, hb⟩ := hscan false rfl
    rw [runs_run_attempt_bind] at h
    obtain ⟨r, τ₂, τ₃, w₂, -, hscan', h⟩ := h
    rcases r with e | b'
    · exact absurd h not_runs_unlock_throw
    obtain ⟨-, rfl, -, hb'⟩ := runs_cacheListExist hscan'
    cases b' with
    | false =>
        rw [runs_unlock_pure h] at hres
        cases hres
    | true =>
        rw [runs_run_bind_ok] at h
        obtain ⟨_, τ₄, τ₅, w₃, -, hunlock, h⟩ := h
        have hw₃ := runs_unlockLogged hunlock
        rw [runs_run_bind_ok] at h
        obtain ⟨text, τ₆, τ₇, w₄, -, hget, h⟩ := h
        obtain ⟨rfl, -⟩ := runs_cacheGet hget
        obtain ⟨-, hrem⟩ := runs_del_pop h
        rw [hw₁] at hb'
        exact ⟨hstate, hstr, by simpa using hb.symm, by simpa using hb'.symm,
          hrem.of_redis_eq (hw₃.trans hw₁)⟩
  · rw [runs_unlock_pure h] at hres
    cases hres

/-! ## What a fetch reports -/

/-- What `ta_fetch_txn_with_uuid` reports of a database, when the cache refuses nothing. -/
def fetchTxnReport (I : Iota) (s : Cache) (v : Uuid) : Except Status FetchRes :=
  if Redis.isStr s (.list .buffer) then .error .cacheFailedResponse
  else if v ∈ Redis.items s (.list .buffer) then .ok { status := .unsent }
  else if Redis.isStr s (.list .complete) then .error .cacheFailedResponse
  else if v ∈ Redis.items s (.list .complete) then
    match s (.uuid v) with
    | some (.list hd tl) =>
        .ok { status := .sent, bundle := (hd :: tl).map (I.deserialize · false) }
    | _ => .error .cacheFailedResponse
  else .ok { status := .notExist }

/-- What `ta_fetch_mam_with_uuid` reports of a database, when the cache refuses nothing. -/
def fetchMamReport (s : Cache) (v : Uuid) : Except Status FetchRes :=
  if Redis.isStr s (.list .mamBuffer) then .error .cacheFailedResponse
  else if v ∈ Redis.items s (.list .mamBuffer) then .ok { status := .unsent }
  else if Redis.isStr s (.list .mamComplete) then .error .cacheFailedResponse
  else if v ∈ Redis.items s (.list .mamComplete) then
    match s (.uuid v) with
    | some (.str text) => .ok { status := .sent, mamResult := some text }
    | _ => .error .cacheFailedResponse
  else .ok { status := .notExist }

/-- A call, made when the lock is free and refused nothing by the cache, ends with `r`. -/
def Reports (x : Proc FetchRes) (w : World) (r : Except Status FetchRes) : Prop :=
  ∃ τ w', Runs steady x.run { w with lock := .readers 0 } τ r w'

theorem steady_cacheOn {α : Type} {c : Redis.Cmd Key Key.Elem}
    {f : Redis.Reply c.Bulk → Except Status α} {r : Except Status α}
    (h : Runs steady (cacheOn true (redisCommand c f)).run w τ r w') :
    r = f (Redis.exec c w.redis).1 ∧ w' = { w with redis := (Redis.exec c w.redis).2 } := by
  rcases runs_cacheOn.mp h with ⟨-, h⟩ | ⟨h, -⟩
  · obtain ⟨reply, -, rfl, hs⟩ := runs_redisCommand.mp h
    obtain ⟨rfl, rfl⟩ := steady_redis.mp hs
    exact ⟨rfl, rfl⟩
  · cases h

theorem steady_unlockLogged {r : Except Status Unit}
    (h : Runs steady unlockLogged.run w τ r w') : r = .ok () ∧ w'.redis = w.redis := by
  refine ⟨?_, runs_unlockLogged ⟨h.1, Served.of_steady h.2⟩⟩
  rw [unlockLogged, runs_run_bind] at h
  rcases h with ⟨e, -, h⟩ | ⟨ok, τ₁, τ₂, w₁, -, -, h₂⟩
  · obtain ⟨a, h, -⟩ := (runs_run_request ..).mp h
    cases h
  · exact ((runs_run_pure ..).mp h₂).2.1

/-- Releasing the lock and then reporting. -/
theorem steady_unlock_settle {q r : Except Status FetchRes} {x : Proc FetchRes}
    (hx : x = settle q) (h : Runs steady (do unlockLogged; x : Proc FetchRes).run w τ r w') :
    r = q := by
  subst hx
  rw [runs_run_bind] at h
  rcases h with ⟨e, -, h⟩ | ⟨_, τ₁, τ₂, w₁, -, -, h₂⟩
  · cases (steady_unlockLogged h).1
  · exact ((runs_run_settle ..).mp h₂).2.1

/-- The start of both functions in a steady world with a free lock. -/
theorem steady_fetch_start {n : ListName} {k : Except Status Bool → Proc FetchRes}
    {r : Except Status FetchRes} (hlock : w.lock = .readers 0) {x : Proc FetchRes}
    (hx : x = (do
      ensure (← request .tryrdlock) .cacheLockFailure
      k (← attempt (cacheListExist true n v))))
    (h : Runs steady x.run w τ r w') :
    ∃ w₁ τ₁, w₁.redis = w.redis ∧ Runs steady (k (if Redis.isStr w.redis (.list n)
      then .error .cacheFailedResponse
      else .ok (decide (v ∈ Redis.items w.redis (.list n))))).run w₁ τ₁ r w' := by
  subst hx
  rw [runs_run_bind] at h
  rcases h with ⟨e, -, h⟩ | ⟨ok, τ₁, τ₂, w₁, -, h₁, h⟩
  · obtain ⟨a, h, -⟩ := (runs_run_request ..).mp h
    cases h
  obtain ⟨a, ha, -, hs⟩ := (runs_run_request ..).mp h₁
  cases ha
  have hok : ok = true := by
    obtain ⟨x, hs⟩ := hs
    have hfst := congrArg Prod.fst hs
    simp only [SteadyChoice.choice, serve, hlock, RwLock.tryrdlock] at hfst
    exact hfst.symm
  subst hok
  have hw₁ : w₁.redis = w.redis :=
    serves_redis_eq (Serves.of_steady hs) fun c hc => by cases hc
  rw [runs_run_bind] at h
  rcases h with ⟨e, -, h⟩ | ⟨_, τ₃, τ₄, w₂, -, h₂, h⟩
  · obtain ⟨-, h, -⟩ := (runs_run_ensure ..).mp h
    cases h
  obtain ⟨-, -, rfl⟩ := (runs_run_ensure ..).mp h₂
  rw [runs_run_bind] at h
  rcases h with ⟨e, -, h⟩ | ⟨q, τ₅, τ₆, w₃, -, h₃, h⟩
  · obtain ⟨a, h, -⟩ := (runs_run_attempt ..).mp h
    cases h
  obtain ⟨q', hq, hscan⟩ := (runs_run_attempt ..).mp h₃
  cases hq
  obtain ⟨rfl, rfl⟩ := steady_cacheListExist hscan
  refine ⟨w₃, τ₆, hw₁, ?_⟩
  rw [← hw₁]
  exact h

theorem steady_cacheListRead {key : Key} {is : List Nat} {r : Except Status (List key.Elem)}
    (h : Runs steady (cacheListRead true key is).run w τ r w')
    (his : ∀ i ∈ is, i < (Redis.items w.redis key).length) :
    w' = w ∧ ∃ es : List key.Elem, r = .ok es ∧
      is.map (fun i => (Redis.items w.redis key)[i]?) = es.map some := by
  induction is generalizing r τ w w' with
  | nil =>
      obtain ⟨-, rfl, rfl⟩ := (runs_run_pure ..).mp h
      exact ⟨rfl, [], rfl, rfl⟩
  | cons i is ih =>
      have hi := List.getElem?_eq_getElem (his i (List.mem_cons_self ..))
      rw [cacheListRead, runs_run_bind] at h
      rcases h with ⟨e, -, h⟩ | ⟨a, τ₁, τ₂, w₁, -, h₁, h⟩
      · obtain ⟨h, -⟩ := steady_cacheOn h
        rw [Redis.exec_lindex hi] at h
        cases h
      obtain ⟨ha, -⟩ := steady_cacheOn h₁
      rw [Redis.exec_lindex hi] at ha
      obtain rfl := Except.ok.inj ha
      obtain ⟨-, reply, -, -, hs⟩ := runs_cacheOn_ok.mp h₁
      obtain rfl := serves_read (Serves.of_steady hs) fun h => h
      have his' := fun j hj => his j (List.mem_cons_of_mem i hj)
      rw [runs_run_bind] at h
      rcases h with ⟨e, -, h⟩ | ⟨es, τ₃, τ₄, w₂, -, h₂, h⟩
      · obtain ⟨-, es, h, -⟩ := ih h his'
        cases h
      obtain ⟨rfl, es', hes, hmap⟩ := ih h₂ his'
      cases hes
      obtain ⟨-, rfl, rfl⟩ := (runs_run_pure ..).mp h
      exact ⟨rfl, _ :: es, rfl, by rw [List.map_cons, List.map_cons, hi, hmap]⟩

/-- The end of both functions where the list is not empty: it fails where there is nothing to
delete. -/
theorem steady_del_pop {n : ListName} {r : Except Status FetchRes} {res : FetchRes}
    (hn : Redis.items w.redis (.list n) ≠ [])
    (h : Runs steady (do
      cacheDel true (.uuid v)
      let _ ← cacheListPop true (.list n)
      pure res : Proc FetchRes).run w τ r w') :
    r = if (w.redis (.uuid v)).isNone then .error .cacheFailedResponse else .ok res := by
  rw [runs_run_bind] at h
  rcases h with ⟨e, rfl, h⟩ | ⟨_, τ₁, τ₂, w₁, -, h₁, h⟩
  · obtain ⟨h, -⟩ := steady_cacheOn h
    rw [Redis.exec_del] at h
    cases hv : (w.redis (.uuid v)).isNone with
    | true =>
        rw [hv] at h
        exact congrArg Except.error (Except.error.inj h)
    | false =>
        rw [hv] at h
        cases h
  obtain ⟨hdel, -⟩ := steady_cacheOn h₁
  obtain ⟨-, hsome, hframe⟩ := runs_cacheDel ⟨h₁.1, Served.of_steady h₁.2⟩
  have hv : (w.redis (.uuid v)).isNone = false := by
    cases hv : w.redis (.uuid v) with
    | none => exact absurd hv hsome
    | some x => rfl
  obtain ⟨p, l, hl⟩ := List.exists_cons_of_ne_nil hn
  have hl₁ : Redis.items w₁.redis (.list n) = p :: l := by
    rw [Redis.items, hframe (.list n) (by simp)]
    exact hl
  rw [hv]
  rw [runs_run_bind] at h
  rcases h with ⟨e, -, h⟩ | ⟨q, τ₃, τ₄, w₂, -, -, h⟩
  · obtain ⟨h, -⟩ := steady_cacheOn h
    rw [Redis.exec_lpop hl₁] at h
    cases h
  · exact ((runs_run_pure ..).mp h).2.1

/-- The part of `ta_fetch_txn_with_uuid` for a UUID in the complete list. -/
theorem steady_txn_sent {r : Except Status FetchRes}
    (hn : Redis.items w.redis (.list .complete) ≠ [])
    (h : Runs steady (do
      let len ← cacheListSize true (.uuid v)
      unlockLogged
      let trytes ← cacheListRead true (.uuid v) (List.range len)
      cacheDel true (.uuid v)
      let _ ← cacheListPop true (.list .complete)
      pure { status := .sent, bundle := trytes.map (I.deserialize · false) } :
        Proc FetchRes).run w τ r w') :
    r = match w.redis (.uuid v) with
      | some (.list hd tl) =>
          .ok { status := .sent, bundle := (hd :: tl).map (I.deserialize · false) }
      | _ => .error .cacheFailedResponse := by
  rw [runs_run_bind] at h
  rcases h with ⟨e, rfl, h⟩ | ⟨len, τ₁, τ₂, w₁, -, h₁, h⟩
  · obtain ⟨h, -⟩ := steady_cacheOn h
    cases hv : w.redis (.uuid v) with
    | none => simp [Redis.exec, Redis.Cmd.act, hv] at h
    | some x =>
        cases x with
        | list hd tl => simp [Redis.exec, Redis.Cmd.act, hv] at h
        | str text => simpa [Redis.exec, Redis.Cmd.act, hv] using h
  obtain ⟨rfl, rfl, hstr⟩ := runs_cacheListSize ⟨h₁.1, Served.of_steady h₁.2⟩
  rw [runs_run_bind] at h
  rcases h with ⟨e, -, h⟩ | ⟨_, τ₃, τ₄, w₂, -, h₂, h⟩
  · cases (steady_unlockLogged h).1
  have hw₂ := (steady_unlockLogged h₂).2
  have hrange : ∀ i ∈ List.range (Redis.items w₁.redis (.uuid v)).length,
      i < (Redis.items w₂.redis (.uuid v)).length := by
    intro i hi
    rw [hw₂]
    exact List.mem_range.mp hi
  rw [runs_run_bind] at h
  rcases h with ⟨e, -, h⟩ | ⟨trytes, τ₅, τ₆, w₃, -, h₃, h⟩
  · obtain ⟨-, es, h, -⟩ := steady_cacheListRead h hrange
    cases h
  obtain ⟨rfl, es, hes, hmap⟩ := steady_cacheListRead h₃ hrange
  obtain rfl := Except.ok.inj hes
  rw [hw₂] at hmap
  obtain rfl := eq_of_map_range hmap
  have hr := steady_del_pop (by rw [hw₂]; exact hn) h
  rw [hr, hw₂]
  cases hv : w₁.redis (.uuid v) with
  | none => rfl
  | some x =>
      cases x with
      | list hd tl => simp [Redis.items, Redis.Value.items, hv]
      | str text => simp [Redis.isStr, hv] at hstr

theorem steady_taFetchTxn {r : Except Status FetchRes} (hstate : cache.state = true)
    (hlock : w.lock = .readers 0)
    (h : Runs steady (taFetchTxnWithUuid I cache v).run w τ r w') :
    r = fetchTxnReport I w.redis v := by
  rw [taFetchTxnWithUuid, hstate] at h
  obtain ⟨w₁, τ₁, hw₁, h⟩ := steady_fetch_start hlock rfl h
  unfold fetchTxnReport
  by_cases hstr : Redis.isStr w.redis (.list .buffer) = true
  · rw [if_pos hstr] at h ⊢
    exact steady_unlock_settle rfl h
  rw [if_neg hstr] at h ⊢
  by_cases hbuf : v ∈ Redis.items w.redis (.list .buffer)
  · rw [decide_eq_true hbuf] at h
    rw [if_pos hbuf]
    exact steady_unlock_settle rfl h
  rw [decide_eq_false hbuf] at h
  rw [if_neg hbuf, ← hw₁]
  rw [runs_run_bind] at h
  rcases h with ⟨e, hr, hscan⟩ | ⟨b, τ₂, τ₃, w₂, -, h₁, h⟩
  · -- the second scan fails, and the lock stays
    obtain ⟨-, he⟩ := steady_cacheListExist hscan
    split at he
    · rename_i hstr'
      rw [if_pos hstr', hr]
      exact congrArg Except.error (Except.error.inj he)
    · cases he
  obtain ⟨rfl, hb⟩ := steady_cacheListExist h₁
  split at hb
  · cases hb
  rename_i hstr'
  obtain rfl := Except.ok.inj hb
  rw [if_neg hstr']
  by_cases hcomp : v ∈ Redis.items w₂.redis (.list .complete)
  · rw [decide_eq_true hcomp] at h
    rw [if_pos hcomp]
    exact steady_txn_sent (List.ne_nil_of_mem hcomp) h
  · rw [decide_eq_false hcomp] at h
    rw [if_neg hcomp]
    exact steady_unlock_settle rfl h

/-- The part of `ta_fetch_mam_with_uuid` for a UUID in the complete list. -/
theorem steady_mam_sent {r : Except Status FetchRes}
    (hn : Redis.items w.redis (.list .mamComplete) ≠ [])
    (h : Runs steady (do
      unlockLogged
      let mamResult ← cacheGet true (.uuid v)
      cacheDel true (.uuid v)
      let _ ← cacheListPop true (.list .mamComplete)
      pure { status := .sent, mamResult := some mamResult } : Proc FetchRes).run w τ r w') :
    r = match w.redis (.uuid v) with
      | some (.str text) => .ok { status := .sent, mamResult := some text }
      | _ => .error .cacheFailedResponse := by
  rw [runs_run_bind] at h
  rcases h with ⟨e, -, h⟩ | ⟨_, τ₁, τ₂, w₁, -, h₁, h⟩
  · cases (steady_unlockLogged h).1
  have hw₁ := (steady_unlockLogged h₁).2
  rw [← hw₁]
  rw [runs_run_bind] at h
  rcases h with ⟨e, rfl, h⟩ | ⟨text, τ₃, τ₄, w₂, -, h₂, h⟩
  · obtain ⟨h, -⟩ := steady_cacheOn h
    cases hv : w₁.redis (.uuid v) with
    | none => simpa [Redis.exec, Redis.Cmd.act, hv, stringReply] using h
    | some x =>
        cases x with
        | list hd tl => simpa [Redis.exec, Redis.Cmd.act, hv, stringReply] using h
        | str text => simp [Redis.exec, Redis.Cmd.act, hv, stringReply] at h
  obtain ⟨rfl, htext⟩ := runs_cacheGet ⟨h₂.1, Served.of_steady h₂.2⟩
  have hr := steady_del_pop (by rw [hw₁]; exact hn) h
  rw [hr, htext]
  rfl

theorem steady_taFetchMam {r : Except Status FetchRes} (hstate : cache.state = true)
    (hlock : w.lock = .readers 0)
    (h : Runs steady (taFetchMamWithUuid cache v).run w τ r w') :
    r = fetchMamReport w.redis v := by
  rw [taFetchMamWithUuid, hstate] at h
  obtain ⟨w₁, τ₁, hw₁, h⟩ := steady_fetch_start hlock rfl h
  unfold fetchMamReport
  by_cases hstr : Redis.isStr w.redis (.list .mamBuffer) = true
  · rw [if_pos hstr] at h ⊢
    exact steady_unlock_settle rfl h
  rw [if_neg hstr] at h ⊢
  by_cases hbuf : v ∈ Redis.items w.redis (.list .mamBuffer)
  · rw [decide_eq_true hbuf] at h
    rw [if_pos hbuf]
    exact steady_unlock_settle rfl h
  rw [decide_eq_false hbuf] at h
  rw [if_neg hbuf, ← hw₁]
  rw [runs_run_bind] at h
  rcases h with ⟨e, -, h⟩ | ⟨b, τ₂, τ₃, w₂, -, h₁, h⟩
  · obtain ⟨a, h, -⟩ := (runs_run_attempt ..).mp h
    cases h
  obtain ⟨b', hb, hscan⟩ := (runs_run_attempt ..).mp h₁
  cases hb
  obtain ⟨rfl, rfl⟩ := steady_cacheListExist hscan
  by_cases hstr' : Redis.isStr w₂.redis (.list .mamComplete) = true
  · rw [if_pos hstr'] at h ⊢
    exact steady_unlock_settle rfl h
  rw [if_neg hstr'] at h ⊢
  by_cases hcomp : v ∈ Redis.items w₂.redis (.list .mamComplete)
  · rw [decide_eq_true hcomp] at h
    rw [if_pos hcomp]
    exact steady_mam_sent (List.ne_nil_of_mem hcomp) h
  · rw [decide_eq_false hcomp] at h
    rw [if_neg hcomp]
    exact steady_unlock_settle rfl h

/-- A call reports what every steady run of it ends with. -/
theorem reports_iff {x : Proc FetchRes} {q r : Except Status FetchRes}
    (hx : ∀ {τ r w'}, Runs steady x.run { w with lock := .readers 0 } τ r w' → r = q) :
    Reports x w r ↔ r = q := by
  constructor
  · intro h
    obtain ⟨τ, w', h⟩ := h
    exact hx h
  · intro h
    have hrun := runs_exec (V := steady) x.run (fun _ => SteadyChoice.any)
      { w with lock := .readers 0 }
    rw [h, ← hx hrun]
    exact ⟨_, _, hrun⟩

theorem reports_txn_iff {r : Except Status FetchRes} (hstate : cache.state = true) :
    Reports (taFetchTxnWithUuid I cache v) w r ↔ r = fetchTxnReport I w.redis v :=
  reports_iff fun h =>
    steady_taFetchTxn (w := { w with lock := .readers 0 }) hstate rfl h

theorem reports_mam_iff {r : Except Status FetchRes} (hstate : cache.state = true) :
    Reports (taFetchMamWithUuid cache v) w r ↔ r = fetchMamReport w.redis v :=
  reports_iff fun h =>
    steady_taFetchMam (w := { w with lock := .readers 0 }) hstate rfl h

/-! ## Removing a request and nothing else -/

/-- The request `u` is taken off the list `n` with its value, a later fetch of it reports that
it does not exist, and nobody notices anything about another request. -/
structure RemovesOnly (I : Iota) (cache : TaCache) (fetch : Uuid → Proc FetchRes) (n : ListName)
    (u : Uuid) (w w' : World) : Prop where
  gone : u ∉ Redis.items w'.redis (.list n)
  deleted : w'.redis (.uuid u) = none
  lists : ∀ v, v ≠ u → ∀ l, v ∈ Redis.items w'.redis (.list l) ↔ v ∈ Redis.items w.redis (.list l)
  values : ∀ v, v ≠ u → w'.redis (.uuid v) = w.redis (.uuid v)
  laterTxn : ∀ v, v ≠ u → ∀ r, Reports (taFetchTxnWithUuid I cache v) w' r ↔
    Reports (taFetchTxnWithUuid I cache v) w r
  laterMam : ∀ v, v ≠ u → ∀ r, Reports (taFetchMamWithUuid cache v) w' r ↔
    Reports (taFetchMamWithUuid cache v) w r
  laterSelf : ∀ r, Reports (fetch u) w' r ↔ r = .ok { status := .notExist }

/-- The UUID stands at the head of the list and nowhere else in it. -/
def AtHeadOnly (n : ListName) (u : Uuid) (w : World) : Prop :=
  ∃ l, Redis.items w.redis (.list n) = u :: l ∧ u ∉ l

theorem isStr_of_mem {n : ListName} (h : u ∈ Redis.items w.redis (.list n)) :
    Redis.isStr w.redis (.list n) = false :=
  Redis.isStr_eq_false (List.ne_nil_of_mem h)

section Frame

variable {n nb : ListName} (hrem : Removes n u w w')
  (hmem : u ∈ Redis.items w.redis (.list n)) (hhead : AtHeadOnly n u w)
include hrem

theorem Removes.items_eq {l : ListName} (hl : l ≠ n) :
    Redis.items w'.redis (.list l) = Redis.items w.redis (.list l) := by
  rw [Redis.items, Redis.items, hrem.frame (.list l) (by simp) fun h => hl (Key.list.inj h)]

include hmem in
theorem Removes.isStr_eq (l : ListName) :
    Redis.isStr w'.redis (.list l) = Redis.isStr w.redis (.list l) := by
  by_cases hl : l = n
  · subst hl
    rw [hrem.isList, isStr_of_mem hmem]
  · rw [Redis.isStr, Redis.isStr,
      hrem.frame (.list l) (by simp) fun h => hl (Key.list.inj h)]

include hhead in
theorem Removes.mem_iff (hv : v ≠ u) (l : ListName) :
    v ∈ Redis.items w'.redis (.list l) ↔ v ∈ Redis.items w.redis (.list l) := by
  by_cases hl : l = n
  · subst hl
    obtain ⟨rest, hrest, -⟩ := hhead
    obtain ⟨p, hp⟩ := hrem.popped
    have hpu : p = u := (List.cons.inj (hp.symm.trans hrest)).1
    rw [hp, hpu, List.mem_cons]
    exact ⟨Or.inr, fun h => h.resolve_left hv⟩
  · rw [hrem.items_eq hl]

/-- What is taken off is the request, exactly when it stands at the head only. -/
theorem Removes.gone_iff (hmem : u ∈ Redis.items w.redis (.list n)) :
    u ∉ Redis.items w'.redis (.list n) ↔ AtHeadOnly n u w := by
  obtain ⟨p, hp⟩ := hrem.popped
  constructor
  · intro hgone
    rw [hp, List.mem_cons] at hmem
    have hpu : u = p := hmem.resolve_right hgone
    exact ⟨_, hpu ▸ hp, hgone⟩
  · intro hhead
    obtain ⟨l, hl, hul⟩ := hhead
    have htail : l = Redis.items w'.redis (.list n) := (List.cons.inj (hl.symm.trans hp)).2
    rw [← htail]
    exact hul

end Frame

/-- A fetch that found a sent request removes it and nothing else exactly when the UUID stands
at the head of the complete list and nowhere else in it. -/
theorem FoundSent.removesOnly_iff {fetch : Uuid → Proc FetchRes} {nb nc : ListName}
    (h : FoundSent cache nb nc u w w') (hne : nb ≠ nc)
    (hself : Redis.isStr w'.redis (.list nb) = false → u ∉ Redis.items w'.redis (.list nb) →
      Redis.isStr w'.redis (.list nc) = false → u ∉ Redis.items w'.redis (.list nc) →
      ∀ r, Reports (fetch u) w' r ↔ r = .ok { status := .notExist }) :
    RemovesOnly I cache fetch nc u w w' ↔ AtHeadOnly nc u w := by
  have hrem := h.removes
  rw [← hrem.gone_iff h.completed]
  constructor
  · intro hr
    exact hr.gone
  · intro hgone
    have hhead := (hrem.gone_iff h.completed).mp hgone
    have hvalue : ∀ v, v ≠ u → w'.redis (.uuid v) = w.redis (.uuid v) := fun v hv =>
      hrem.frame (.uuid v) (fun hk => hv (Key.uuid.inj hk)) (by simp)
    have hstr := hrem.isStr_eq h.completed
    refine ⟨hgone, hrem.deleted, fun v hv l => hrem.mem_iff hhead hv l, hvalue, ?_, ?_, ?_⟩
    · intro v hv r
      rw [reports_txn_iff h.state, reports_txn_iff h.state]
      simp only [fetchTxnReport, hstr, hrem.mem_iff hhead hv, hvalue v hv]
    · intro v hv r
      rw [reports_mam_iff h.state, reports_mam_iff h.state]
      simp only [fetchMamReport, hstr, hrem.mem_iff hhead hv, hvalue v hv]
    · refine hself ?_ ?_ hrem.isList hgone
      · rw [hstr, h.isList]
      · rw [hrem.items_eq hne]
        exact h.notBuffered

/-- For both fetch functions, every world, every UUID and every run that reports a sent
request: the request and nothing else is removed exactly when its UUID stands at the head of
the complete list and nowhere else in it. -/
theorem fetch_removesOnly_iff (I : Iota) (cache : TaCache) (u : Uuid) (w w' : World)
    (τ : List (Event sig)) (res : FetchRes) (hres : res.status = .sent) :
    (Runs world (taFetchTxnWithUuid I cache u).run w τ (.ok res) w' →
      (RemovesOnly I cache (taFetchTxnWithUuid I cache) .complete u w w' ↔
        AtHeadOnly .complete u w)) ∧
    (Runs world (taFetchMamWithUuid cache u).run w τ (.ok res) w' →
      (RemovesOnly I cache (taFetchMamWithUuid cache) .mamComplete u w w' ↔
        AtHeadOnly .mamComplete u w)) := by
  constructor
  · intro h
    have hfound := (runs_taFetchTxn_sent h hres).1
    refine hfound.removesOnly_iff (by decide) fun h₁ h₂ h₃ h₄ r => ?_
    rw [reports_txn_iff hfound.state, fetchTxnReport]
    simp [h₁, h₂, h₃, h₄]
  · intro h
    have hfound := runs_taFetchMam_sent h hres
    refine hfound.removesOnly_iff (by decide) fun h₁ h₂ h₃ h₄ r => ?_
    rw [reports_mam_iff hfound.state, fetchMamReport]
    simp [h₁, h₂, h₃, h₄]

namespace Sample

/-- The requests `us` are complete, on both lists, with one value under every UUID. -/
def sent (value : Redis.Value Hash8019) (u : Uuid) (us : List Uuid) : World where
  redis
    | .list .complete => some (.list u us)
    | .list .mamComplete => some (.list u us)
    | .uuid _ => some value
    | _ => none
  lock := .readers 0
  ledger := []
  mamFile := []

end Sample

/-- Fetching the only complete request removes it and nothing else. -/
theorem fetch_removesOnly_single :
    (∃ τ res w', Runs world (taFetchTxnWithUuid Sample.iota Sample.core.cache 1#128).run
        (Sample.sent (.list Sample.trytes []) 1#128 []) τ (.ok res) w' ∧
      RemovesOnly Sample.iota Sample.core.cache
        (taFetchTxnWithUuid Sample.iota Sample.core.cache) .complete 1#128
        (Sample.sent (.list Sample.trytes []) 1#128 []) w') ∧
    ∃ τ res w', Runs world (taFetchMamWithUuid Sample.core.cache 1#128).run
        (Sample.sent (.str "") 1#128 []) τ (.ok res) w' ∧
      RemovesOnly Sample.iota Sample.core.cache (taFetchMamWithUuid Sample.core.cache)
        .mamComplete 1#128 (Sample.sent (.str "") 1#128 []) w' := by
  constructor
  · have hrun := runs_exec (V := world)
      (taFetchTxnWithUuid Sample.iota Sample.core.cache 1#128).run (fun _ => Sample.good)
      (Sample.sent (.list Sample.trytes []) 1#128 [])
    refine ⟨_, { status := .sent, bundle := [Sample.txn] }, _, hrun, ?_⟩
    exact ((fetch_removesOnly_iff _ _ _ _ _ _ _ rfl).1 hrun).mpr ⟨[], rfl, by simp⟩
  · have hrun := runs_exec (V := world) (taFetchMamWithUuid Sample.core.cache 1#128).run
      (fun _ => Sample.good) (Sample.sent (.str "") 1#128 [])
    refine ⟨_, { status := .sent, mamResult := some "" }, _, hrun, ?_⟩
    exact ((fetch_removesOnly_iff _ _ _ _ _ _ _ rfl).2 hrun).mpr ⟨[], rfl, by simp⟩

/-- Two requests are complete and the second is fetched: the first leaves the list instead, and
the fetched one stays in it without a value. -/
theorem fetch_removes_head :
    ∃ τ res w', Runs world (taFetchTxnWithUuid Sample.iota Sample.core.cache 2#128).run
        (Sample.sent (.list Sample.trytes []) 1#128 [2#128]) τ (.ok res) w' ∧
      res.status = .sent ∧
      Redis.items w'.redis (.list .complete) = [2#128] ∧
      w'.redis (.uuid 2#128) = none ∧ w'.redis (.uuid 1#128) = some (.list Sample.trytes []) ∧
      ¬ RemovesOnly Sample.iota Sample.core.cache
        (taFetchTxnWithUuid Sample.iota Sample.core.cache) .complete 2#128
        (Sample.sent (.list Sample.trytes []) 1#128 [2#128]) w' := by
  have hrun := runs_exec (V := world)
    (taFetchTxnWithUuid Sample.iota Sample.core.cache 2#128).run (fun _ => Sample.good)
    (Sample.sent (.list Sample.trytes []) 1#128 [2#128])
  refine ⟨_, _, _, hrun, rfl, rfl, rfl, rfl, ?_⟩
  intro h
  exact h.gone (List.mem_singleton.mpr rfl)

end TangleAccelerator
