import TangleAccelerator.Buffer.Handover
import TangleAccelerator.Core.Find

/-!
# The objects of a query

`ta_find_transaction_objects` takes what it can from the cache and asks the node for the other
hashes one by one.  After each answer it appends the first object of its array once more.  So a
hash that is not in the cache adds two objects to the answer, its own and the first one.

The main result counts: the answer has one object for each requested hash exactly when every
requested hash is in the cache, and the limit of the two API functions is kept exactly when the
hashes they ask for and those of them that are not in the cache are together few enough.
-/

namespace TangleAccelerator

open Effect

variable {I : Iota} {state : Bool} {w w' : World} {τ : List (Event sig)}

/-- The cache answers for the hash. -/
def isCached (state : Bool) (w : World) (h : Hash243) : Bool :=
  state && Redis.isStr w.redis (.txn h)

/-- The hashes that are not in the cache. -/
def uncachedIn (state : Bool) (w : World) (hashes : List Hash243) : List Hash243 :=
  hashes.filter fun h => !isCached state w h

/-- The object survives the way through its trytes, and these are not null. -/
structure IsObject (I : Iota) (tx : Transaction) : Prop where
  inverse : I.deserialize (I.serialize tx) true = tx
  present : (I.serialize tx).all (· == 0) = false

/-- What is in the cache under a requested hash is the transaction of that hash, the node returns
exactly the object of each hash it is asked for, and serializing does not fail. -/
structure Queried (I : Iota) (w : World) (hashes : List Hash243) (τ : List (Event sig)) : Prop where
  cached : ∀ h ∈ hashes, ∀ v, w.redis (.txn h) = some (.str v) →
    (I.deserialize (I.fromTrytes v) true).hash = h
  node : ∀ h answer, ⟨.getTransactionObjects [h], answer⟩ ∈ τ →
    ∃ tx, answer = some [tx] ∧ tx.hash = h ∧ IsObject I tx
  serialize : ∀ tx ok, ⟨.transactionSerialize tx, ok⟩ ∈ τ → ok = true

/-! ## The three loops -/

theorem steady_cacheGet {h : Hash243} {r : Except Status String}
    (hrun : Runs steady (cacheGet state (.txn h)).run w τ r w') :
    w' = w ∧ ((∃ v, isCached state w h = true ∧ w.redis (.txn h) = some (.str v) ∧ r = .ok v) ∨
      (isCached state w h = false ∧ ∃ e, r = .error e)) := by
  rcases runs_cacheOn.mp hrun with ⟨hon, hrun⟩ | ⟨hoff, -, rfl, rfl⟩
  · obtain ⟨reply, -, rfl, hs⟩ := runs_redisCommand.mp hrun
    refine ⟨serves_read (Serves.of_steady hs) id, ?_⟩
    obtain ⟨hreply, -⟩ := steady_redis.mp hs
    subst hreply
    cases hv : w.redis (.txn h) with
    | none =>
        have hreply : (Redis.exec (.get (.txn h)) w.redis).1 = .nil := by
          simp [Redis.exec, Redis.Cmd.act, hv]
        rw [hreply]
        exact Or.inr ⟨by simp [isCached, Redis.isStr, hv], _, rfl⟩
    | some v =>
        cases v with
        | str v =>
            have hreply : (Redis.exec (.get (.txn h)) w.redis).1 = .bulk v := by
              simp [Redis.exec, Redis.Cmd.act, hv]
            rw [hreply]
            exact Or.inl ⟨v, by simp [isCached, Redis.isStr, hon, hv], rfl, rfl⟩
        | list e l => exact e.elim
  · exact ⟨rfl, Or.inr ⟨by rw [isCached, hoff, Bool.false_and], _, rfl⟩⟩

/-- The loop over the cache finds the hashes that are there, and returns the others. -/
theorem steady_cachedObjects {hs : List Hash243}
    {r : Except Status (List Transaction × List Hash243)}
    (hrun : Runs steady (cachedObjects I state hs).run w τ r w')
    (hcached : ∀ h ∈ hs, ∀ v, w.redis (.txn h) = some (.str v) →
      (I.deserialize (I.fromTrytes v) true).hash = h) :
    w' = w ∧ ∃ found, r = .ok (found, uncachedIn state w hs) ∧
      found.map (·.hash) = hs.filter (isCached state w) := by
  induction hs generalizing τ r w' with
  | nil =>
      obtain ⟨-, rfl, rfl⟩ := (runs_run_pure ..).mp hrun
      exact ⟨rfl, [], rfl, rfl⟩
  | cons h hs ih =>
      rw [cachedObjects, runs_run_attempt_bind] at hrun
      obtain ⟨a, τ₁, τ₂, w₁, rfl, hget, hrun⟩ := hrun
      obtain ⟨rfl, hget⟩ := steady_cacheGet hget
      rw [List.forall_mem_cons] at hcached
      rw [runs_run_bind] at hrun
      rcases hrun with ⟨e, -, hloop⟩ | ⟨⟨found, uncached⟩, τ₃, τ₄, w₂, rfl, hloop, hrun⟩
      · obtain ⟨-, found, he, -⟩ := ih hloop hcached.2
        cases he
      · obtain ⟨rfl, found', hok, hfound⟩ := ih hloop hcached.2
        cases hok
        rcases hget with ⟨v, hin, hv, rfl⟩ | ⟨hout, e, rfl⟩
        · obtain ⟨-, rfl, rfl⟩ := (runs_run_pure ..).mp hrun
          refine ⟨rfl, I.deserialize (I.fromTrytes v) true :: found, ?_, ?_⟩
          · rw [uncachedIn, uncachedIn, List.filter_cons_of_neg (by simp [hin])]
          · rw [List.filter_cons_of_pos hin, List.map_cons, hfound, hcached.1 v hv]
        · obtain ⟨-, rfl, rfl⟩ := (runs_run_pure ..).mp hrun
          refine ⟨rfl, found, ?_, ?_⟩
          · rw [uncachedIn, uncachedIn, List.filter_cons_of_pos (by simp [hout])]
          · rw [List.filter_cons_of_neg (by simp [hout]), hfound]

/-- The loop over the other hashes appends, for each, its object and the first one. -/
theorem path_uncachedObjects {hs : List Hash243} {arr : List Transaction}
    {r : Except Status (List Transaction)} (hpath : Path (uncachedObjects hs arr).run τ r)
    (hnode : ∀ h answer, ⟨.getTransactionObjects [h], answer⟩ ∈ τ →
      ∃ tx, answer = some [tx] ∧ tx.hash = h ∧ IsObject I tx)
    (harr : ∀ tx ∈ arr, IsObject I tx) :
    ∃ out, r = .ok out ∧ (∀ tx ∈ out, IsObject I tx) ∧
      out.map (·.hash) = arr.map (·.hash) ++
        hs.flatMap fun h => h :: (arr.map (·.hash) ++ hs).head?.toList := by
  induction hs generalizing τ arr with
  | nil =>
      obtain ⟨-, rfl⟩ := (path_run_pure ..).mp hpath
      exact ⟨arr, rfl, harr, by simp⟩
  | cons h hs ih =>
      rw [uncachedObjects, path_run_request_bind] at hpath
      obtain ⟨answer, τ₁, rfl, hpath⟩ := hpath
      obtain ⟨tx, rfl, hhash, htx⟩ := hnode h answer (List.mem_cons_self ..)
      have hpath' :
          Path (uncachedObjects hs (arr ++ [tx] ++ (arr ++ [tx]).head?.toList)).run τ₁ r :=
        hpath
      have hobjects : ∀ tx' ∈ arr ++ [tx] ++ (arr ++ [tx]).head?.toList, IsObject I tx' := by
        have hold : ∀ tx' ∈ arr ++ [tx], IsObject I tx' := by
          rw [List.forall_mem_append, List.forall_mem_singleton]
          exact ⟨harr, htx⟩
        rw [List.forall_mem_append]
        refine ⟨hold, fun tx' htx' => hold tx' (List.mem_of_mem_head? ?_)⟩
        exact Option.mem_toList.mp htx'
      obtain ⟨out, rfl, hout, hhashes⟩ := ih hpath'
        (fun h' a ha => hnode h' a (List.mem_cons_of_mem _ ha)) hobjects
      refine ⟨out, rfl, hout, ?_⟩
      rw [hhashes]
      -- the first object of the array stays the first one
      cases arr with
      | nil => simp [hhash]
      | cons tx₀ arr => simp [hhash]

/-- The last loop appends the objects of the node. -/
theorem path_appendObjects {txs : List Transaction} {r : Except Status (List Transaction)}
    (hpath : Path (appendObjects I txs).run τ r)
    (hserialize : ∀ tx ok, ⟨.transactionSerialize tx, ok⟩ ∈ τ → ok = true)
    (htxs : ∀ tx ∈ txs, IsObject I tx) : r = .ok txs := by
  induction txs generalizing τ r with
  | nil => exact ((path_run_pure ..).mp hpath).2
  | cons tx txs ih =>
      rw [List.forall_mem_cons] at htxs
      rw [appendObjects, path_run_request_bind] at hpath
      obtain ⟨ok, τ₁, rfl, hpath⟩ := hpath
      cases hserialize tx ok (List.mem_cons_self ..)
      rw [htxs.1.present, path_run_bind] at hpath
      rcases hpath with ⟨e, -, hensure⟩ | ⟨_, τ₂, τ₃, rfl, hensure, hpath⟩
      · cases ((path_run_ensure ..).mp hensure).2
      obtain ⟨rfl, -⟩ := (path_run_ensure ..).mp hensure
      have hserialize' : ∀ tx ok, ⟨.transactionSerialize tx, ok⟩ ∈ τ₃ → ok = true :=
        fun tx ok hok => hserialize tx ok (List.mem_cons_of_mem _ (by simpa using hok))
      rw [path_run_bind] at hpath
      rcases hpath with ⟨e, -, hrest⟩ | ⟨rest, τ₄, τ₅, rfl, hrest, hpath⟩
      · cases ih hrest hserialize' htxs.2
      · cases ih hrest (fun tx ok hok => hserialize' tx ok (List.mem_append_left _ hok)) htxs.2
        rw [((path_run_pure ..).mp hpath).2, htxs.1.inverse]

/-! ## The answer -/

/-- The hashes of the answer: those in the cache, and for each other one its hash and the first of
the others. -/
theorem steady_taFindTransactionObjects {hashes : List Hash243}
    {r : Except Status (List Transaction)}
    (hrun : Runs steady (taFindTransactionObjects I state hashes).run w τ r w')
    (hq : Queried I w hashes τ) :
    ∃ objs, r = .ok objs ∧ objs.map (·.hash) = hashes.filter (isCached state w) ++
      (uncachedIn state w hashes).flatMap
        fun h => h :: (uncachedIn state w hashes).head?.toList := by
  rw [taFindTransactionObjects, runs_run_bind] at hrun
  rcases hrun with ⟨e, -, hcached⟩ | ⟨⟨found, uncached⟩, τ₁, τ₂, w₁, rfl, hcached, hrun⟩
  · obtain ⟨-, found, he, -⟩ := steady_cachedObjects hcached hq.cached
    cases he
  obtain ⟨rfl, found', hok, hfound⟩ := steady_cachedObjects hcached hq.cached
  cases hok
  replace hrun := hrun.1
  rw [path_run_bind] at hrun
  rcases hrun with ⟨e, -, hloop⟩ | ⟨arr, τ₃, τ₄, rfl, hloop, hrun⟩
  · obtain ⟨out, he, -⟩ := path_uncachedObjects hloop
      (fun h a ha => hq.node h a (List.mem_append_right _ ha)) (by simp)
    cases he
  obtain ⟨out, hok, hobjects, hhashes⟩ := path_uncachedObjects hloop
    (fun h a ha => hq.node h a (by simp [ha])) (by simp)
  cases hok
  rw [path_run_bind] at hrun
  rcases hrun with ⟨e, -, happend⟩ | ⟨rest, τ₅, τ₆, rfl, happend, hrun⟩
  · cases path_appendObjects happend (fun tx ok ha => hq.serialize tx ok (by simp [ha])) hobjects
  cases path_appendObjects happend (fun tx ok ha => hq.serialize tx ok (by simp [ha])) hobjects
  refine ⟨found ++ arr, ((path_run_pure ..).mp hrun).2, ?_⟩
  rw [List.map_append, hfound, hhashes]
  rfl

theorem length_filter_isCached (state : Bool) (w : World) (hashes : List Hash243) :
    (hashes.filter (isCached state w)).length + (uncachedIn state w hashes).length =
      hashes.length :=
  (List.length_eq_length_filter_add (isCached state w)).symm

theorem length_doubled (l : List Hash243) :
    (l.flatMap fun h => h :: l.head?.toList).length = 2 * l.length := by
  cases l with
  | nil => rfl
  | cons a l =>
      rw [List.length_flatMap]
      simp
      omega

/-- How long an answer is, and when it is what was asked for. -/
theorem taFindTransactionObjects_answer {hashes : List Hash243}
    {r : Except Status (List Transaction)}
    (hrun : Runs steady (taFindTransactionObjects I state hashes).run w τ r w')
    (hq : Queried I w hashes τ) :
    ∃ objs, r = .ok objs ∧ objs.length = hashes.length + (uncachedIn state w hashes).length ∧
      ((objs.map (·.hash)).Perm hashes ↔ ∀ h ∈ hashes, isCached state w h = true) := by
  obtain ⟨objs, hr, hhashes⟩ := steady_taFindTransactionObjects hrun hq
  have hlength : objs.length = hashes.length + (uncachedIn state w hashes).length := by
    have hsum := length_filter_isCached state w hashes
    have hlen := congrArg List.length hhashes
    rw [List.length_map, List.length_append, length_doubled] at hlen
    omega
  refine ⟨objs, hr, hlength, ?_, fun hall => ?_⟩
  · intro hperm
    have hlen := hperm.length_eq
    rw [List.length_map, hlength] at hlen
    have hnone : uncachedIn state w hashes = [] := List.eq_nil_of_length_eq_zero (by omega)
    rw [uncachedIn, List.filter_eq_nil_iff] at hnone
    exact fun h hh => by simpa using hnone h hh
  · have hnone : uncachedIn state w hashes = [] := by
      rw [uncachedIn, List.filter_eq_nil_iff]
      exact fun h hh => by simp [hall h hh]
    rw [hhashes, hnone, List.filter_eq_self.mpr hall]
    simp

/-- An answer of an API function, from the hashes it asks for. -/
theorem answer_le_limit {K : FindCodec} {hashes : List Hash243} {objs : List Transaction}
    {w₁ : World} {τ₁ τ₂ : List (Event sig)} {json : String}
    (hfind : Runs steady (taFindTransactionObjects I state hashes).run w τ₁ (.ok objs) w₁)
    (hres : Runs steady (settle (K.findRes objs) : Proc String).run w₁ τ₂ (.ok json) w')
    (hq : Queried I w hashes τ₁) :
    K.findRes objs = .ok json ∧ (objs.length ≤ resultSetLimit ↔
      hashes.length + (uncachedIn state w hashes).length ≤ resultSetLimit) := by
  obtain ⟨objs', hok, hlength, -⟩ := taFindTransactionObjects_answer hfind hq
  cases hok
  obtain ⟨-, hjson, -⟩ := (runs_run_settle ..).mp hres
  rw [hlength]
  exact ⟨hjson.symm, Iff.rfl⟩

theorem Queried.left {hashes : List Hash243} {τ₁ τ₂ : List (Event sig)}
    (h : Queried I w hashes (τ₁ ++ τ₂)) : Queried I w hashes τ₁ :=
  ⟨h.cached, fun h' a ha => h.node h' a (List.mem_append_left _ ha),
    fun tx ok hok => h.serialize tx ok (List.mem_append_left _ hok)⟩

/-- For every request and every cache: where the node returns exactly the object of each hash it is
asked for, `ta_find_transaction_objects` returns `SC_OK`, and its objects are those of the request,
one for each hash, exactly when every requested hash is in the cache.  The answers of the API
functions respect the limit exactly when the hashes that are asked for, and those of them that are
not in the cache, are together at most as many. -/
theorem findObjects_iff (I : Iota) (K : FindCodec) (state : Bool) (w : World) :
    (∀ hashes τ r w', Runs steady (taFindTransactionObjects I state hashes).run w τ r w' →
      Queried I w hashes τ →
      ∃ objs, r = .ok objs ∧
        ((objs.map (·.hash)).Perm hashes ↔ ∀ h ∈ hashes, isCached state w h = true)) ∧
    (∀ obj hashes τ json w', K.findReq obj = .ok hashes →
      Runs steady (apiFindTransactionObjects I K state obj).run w τ (.ok json) w' →
      Queried I w (popToLimit hashes) τ →
      ∃ objs, K.findRes objs = .ok json ∧ (objs.length ≤ resultSetLimit ↔
        (popToLimit hashes).length + (uncachedIn state w (popToLimit hashes)).length ≤
          resultSetLimit)) ∧
    (∀ obj τ json w',
      Runs steady (apiFindTransactionsObjByTag I K state obj).run w τ (.ok json) w' →
      ∃ hashes τ', τ = ⟨.findTransactions { tags := [tagTrits obj] }, some hashes⟩ :: τ' ∧
        (Queried I w (hashes.take resultSetLimit) τ' →
          ∃ objs, K.findRes objs = .ok json ∧ (objs.length ≤ resultSetLimit ↔
            (hashes.take resultSetLimit).length +
              (uncachedIn state w (hashes.take resultSetLimit)).length ≤ resultSetLimit))) := by
  refine ⟨?_, ?_, ?_⟩
  · intro hashes τ r w' hrun hq
    obtain ⟨objs, hr, -, hiff⟩ := taFindTransactionObjects_answer hrun hq
    exact ⟨objs, hr, hiff⟩
  · intro obj hashes τ json w' hreq hrun hq
    rw [apiFindTransactionObjects, hreq] at hrun
    obtain ⟨kept, τ₀, τ', w₀, rfl, hparse, hrun⟩ := (runs_run_bind_ok ..).mp hrun
    obtain ⟨rfl, hkept, rfl⟩ := (runs_run_settle ..).mp hparse
    cases hkept
    obtain ⟨objs, τ₁, τ₂, w₁, rfl, hfind, hres⟩ := (runs_run_bind_ok ..).mp hrun
    rw [List.nil_append] at hq
    exact ⟨objs, answer_le_limit hfind hres hq.left⟩
  · intro obj τ json w' hrun
    obtain ⟨objs, τ₁, τ₂, w₁, rfl, hquery, hres⟩ := (runs_run_bind_ok ..).mp hrun
    obtain ⟨answer, τ₃, w₂, rfl, hserves, hfind⟩ := (runs_run_request_bind ..).mp hquery
    cases answer with
    | none => cases hfind.1.2
    | some hashes =>
        have hw : w₂ = w := by
          obtain ⟨_, h⟩ := hserves
          exact (Prod.mk.inj h).2.symm
        subst hw
        refine ⟨hashes, τ₃ ++ τ₂, rfl, fun hq => ⟨objs, ?_⟩⟩
        exact answer_le_limit hfind hres hq.left

/-! ## Concrete queries -/

namespace Sample

/-- The hash of `txn`. -/
def txnHash : Hash243 := Vector.replicate 81 0

/-- Serialized trytes that are not null. -/
def objectTrytes : Hash8019 := Vector.replicate 2673 1

/-- A library that knows `txn` under trytes that are not null. -/
def objectIota : Iota := { iota with serialize := fun _ => objectTrytes }

/-- A codec that asks for `n` hashes and answers with the number of objects. -/
def findCodec (n : Nat) : FindCodec where
  findReq _ := .ok (List.replicate n txnHash)
  findRes objs := .ok objs.length.repr

/-- The node knows `txn`, and nothing has its tag. -/
def lookup : (c : Cmd) → SteadyChoice c
  | .getTransactionObjects _ => some [txn]
  | .transactionSerialize _ => true
  | .findTransactions _ => some []
  | c => SteadyChoice.any c

/-- Every hash is in the cache. -/
def allCached : World where
  redis
    | .txn _ => some (.str "")
    | _ => none
  lock := .readers 0
  ledger := []
  mamFile := []

theorem isObject_txn : IsObject objectIota txn := ⟨rfl, by decide +kernel⟩

end Sample

/-- The trace of a query for one hash that is not in the cache. -/
def missTrace (h : Hash243) (tx : Transaction) : List (Event sig) :=
  [⟨.redis (.get (.txn h)), .nil⟩, ⟨.getTransactionObjects [h], some [tx]⟩,
    ⟨.transactionSerialize tx, true⟩, ⟨.transactionSerialize tx, true⟩]

theorem path_appendObjects_pair {tx : Transaction} (htx : IsObject I tx) :
    Path (appendObjects I [tx, tx]).run
      [⟨.transactionSerialize tx, true⟩, ⟨.transactionSerialize tx, true⟩] (.ok [tx, tx]) := by
  rw [appendObjects, path_run_request_bind]
  refine ⟨true, _, rfl, ?_⟩
  rw [htx.present, htx.inverse]
  rw [appendObjects]
  refine ⟨true, _, rfl, ?_⟩
  rw [htx.present, htx.inverse]
  exact ⟨rfl, rfl⟩

/-- A hash that is not in the cache brings its object twice. -/
theorem runs_miss {h : Hash243} {tx : Transaction} (htx : IsObject I tx)
    (hout : w.redis (.txn h) = none) :
    Runs steady (taFindTransactionObjects I true [h]).run w (missTrace h tx) (.ok [tx, tx]) w := by
  constructor
  · rw [taFindTransactionObjects, path_run_bind_ok]
    refine ⟨([], [h]), [_], _, rfl, ⟨.nil, [], rfl, rfl, rfl⟩, ?_⟩
    rw [path_run_bind_ok]
    refine ⟨[tx, tx], [_], _, rfl, ⟨some [tx], [], rfl, rfl, rfl⟩, ?_⟩
    rw [path_run_bind_ok]
    exact ⟨[tx, tx], _, [], (List.append_nil _).symm, path_appendObjects_pair htx, rfl, rfl⟩
  · refine ⟨w, steady_redis.mpr ⟨?_, ?_⟩, w, ⟨_, rfl⟩, w, ⟨_, rfl⟩, w, ⟨_, rfl⟩, rfl⟩
    · simp [Redis.exec, Redis.Cmd.act, hout]
    · have hanswers : Redis.Answers w.redis (.get (.txn h)) (Redis.exec (.get (.txn h)) w.redis).1
          (Redis.exec (.get (.txn h)) w.redis).2 := ⟨false, rfl⟩
      rw [hanswers.not_writes id]

theorem queried_miss {h : Hash243} {tx : Transaction} (hhash : tx.hash = h) (htx : IsObject I tx)
    (hout : w.redis (.txn h) = none) : Queried I w [h] (missTrace h tx) where
  cached h' hh v hv := by
    cases List.mem_singleton.mp hh
    rw [hout] at hv
    cases hv
  node h' answer hmem := by
    obtain ⟨rfl, rfl⟩ : h' = h ∧ answer = some [tx] := by simpa [missTrace] using hmem
    exact ⟨tx, rfl, hhash, htx⟩
  serialize tx' ok hmem := by
    have hok : tx' = tx ∧ ok = true := by simpa [missTrace] using hmem
    exact hok.2

theorem queried_hit {h : Hash243} {v : String}
    (hcached : ∀ v, w.redis (.txn h) = some (.str v) →
      (I.deserialize (I.fromTrytes v) true).hash = h) :
    Queried I w [h] [⟨.redis (.get (.txn h)), .bulk v⟩] where
  cached h' hh := by
    cases List.mem_singleton.mp hh
    exact hcached
  node h' answer hmem := by simp at hmem
  serialize tx ok hmem := by simp at hmem

/-- A request for one hash that is in the cache is answered with its object, also through the API,
and a tag nothing has with no object. -/
theorem findObjects_cached :
    (∃ τ objs w', Runs steady (taFindTransactionObjects Sample.objectIota true
        [Sample.txnHash]).run Sample.allCached τ (.ok objs) w' ∧
      (objs.map (·.hash)).Perm [Sample.txnHash]) ∧
    (∃ objs, (Sample.findCodec 1).findRes objs = .ok "1" ∧ objs.length ≤ resultSetLimit) ∧
    ∃ objs, (Sample.findCodec 1).findRes objs = .ok "0" ∧ objs.length ≤ resultSetLimit := by
  obtain ⟨hobjects, hapi, htag⟩ :=
    findObjects_iff Sample.objectIota (Sample.findCodec 1) true Sample.allCached
  have hq : Queried Sample.objectIota Sample.allCached [Sample.txnHash]
      [⟨.redis (.get (.txn Sample.txnHash)), .bulk ""⟩] := queried_hit fun _ _ => rfl
  refine ⟨?_, ?_, ?_⟩
  · have hrun := runs_exec (V := steady)
      (taFindTransactionObjects Sample.objectIota true [Sample.txnHash]).run
      (fun _ => Sample.lookup) Sample.allCached
    obtain ⟨objs, hr, hiff⟩ := hobjects _ _ _ _ hrun hq
    rw [hr] at hrun
    exact ⟨_, objs, _, hrun, hiff.mpr fun _ _ => rfl⟩
  · have hrun := runs_exec (V := steady)
      (apiFindTransactionObjects Sample.objectIota (Sample.findCodec 1) true "").run
      (fun _ => Sample.lookup) Sample.allCached
    obtain ⟨objs, hjson, hiff⟩ := hapi "" [Sample.txnHash] _ "1" _ rfl hrun hq
    exact ⟨objs, hjson, hiff.mpr (by decide)⟩
  · have hrun := runs_exec (V := steady)
      (apiFindTransactionsObjByTag Sample.objectIota (Sample.findCodec 1) true []).run
      (fun _ => Sample.lookup) Sample.allCached
    obtain ⟨hashes, τ', hτ, hlimit⟩ := htag [] _ "0" _ hrun
    have htrace : [(⟨.findTransactions { tags := [tagTrits []] }, some []⟩ : Event sig)] =
        ⟨.findTransactions { tags := [tagTrits []] }, some hashes⟩ :: τ' := hτ
    obtain ⟨hhead, rfl⟩ := List.cons.inj htrace
    obtain rfl : [] = hashes := by simpa using hhead
    obtain ⟨objs, hjson, hiff⟩ := hlimit ⟨by simp, by simp, by simp⟩
    exact ⟨objs, hjson, hiff.mpr (by decide)⟩

/-- A request for one hash that is not in the cache is answered with two objects, and a request for
`51` such hashes with `102`. -/
theorem findObjects_doubled :
    (∃ τ objs w', Runs steady (taFindTransactionObjects Sample.objectIota true
        [Sample.txnHash]).run Sample.buffered τ (.ok objs) w' ∧
      Queried Sample.objectIota Sample.buffered [Sample.txnHash] τ ∧
      ¬ (objs.map (·.hash)).Perm [Sample.txnHash]) ∧
    (exec steady (apiFindTransactionObjects Sample.objectIota (Sample.findCodec 51) true "").run
      (fun _ => Sample.lookup) Sample.buffered).2.1 = .ok "102" ∧ resultSetLimit < 102 := by
  refine ⟨⟨_, _, _, runs_miss Sample.isObject_txn rfl, queried_miss rfl Sample.isObject_txn rfl,
    fun hperm => ?_⟩, ?_, by decide⟩
  · exact absurd hperm.length_eq (by simp)
  · decide +kernel

end TangleAccelerator
