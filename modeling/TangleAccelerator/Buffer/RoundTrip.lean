import TangleAccelerator.Buffer.Fetch
import TangleAccelerator.Buffer.Report

/-!
# The order of a buffered bundle

A bundle goes through three loops on the list under its UUID.

* `push_txn_to_buffer` pushes the transactions one after the other, so the list holds them in
  the reverse order.
* `broadcast_buffered_txn` reads the list from its head and hands the reversed bundle to
  `ta_send_trytes`.  It then deletes the list and pushes what the node returns, one after the
  other.
* `ta_fetch_txn_with_uuid` reads that list from its head.

So the bundle is reversed where it is sent (`handed_eq_pushed_iff`), and back in its order where
it is fetched (`buffer_roundTrip`).

The proof of the second result follows a UUID through the broadcast loop.  It waits in the buffer
list (`Waits`) until the iteration that reads it, and is sent after that (`IsSent`).  The other
UUIDs of the lists are broadcast by the same loop and do not matter.
-/

namespace TangleAccelerator

open Effect

variable {I : Iota} {core : TaCore} {cache : TaCache} {w w' w₁ w₂ w₃ : World} {u v : Uuid}
  {τ : List (Event sig)} {trytes : List Hash8019}

/-! ## Pushing -/

/-- A call of `push_txn_to_buffer` that returns `SC_OK` buffers its bundle. -/
theorem runs_pushTxnToBuffer
    (h : Runs world (pushTxnToBuffer cache trytes).run w τ (.ok (u, .ok ())) w') :
    cache.state = true ∧ Buffered trytes u w w' := by
  rw [pushTxnToBuffer, runs_run_request_bind] at h
  obtain ⟨uuid, τ₁, w₁, -, hs, h⟩ := h
  have hw₁ : w₁.redis = w.redis := serves_redis_eq hs fun c hc => by cases hc
  rw [runs_run_attempt_bind] at h
  obtain ⟨ret, τ₂, τ₃, w₂, -, hbuffer, h⟩ := h
  obtain ⟨-, hres, rfl⟩ := (runs_run_pure ..).mp h
  cases hres
  obtain ⟨hstored, hlisted⟩ := (runs_bufferTxn hbuffer).1 rfl
  rw [hw₁] at hstored hlisted
  rw [bufferTxn, runs_run_bind_ok] at hbuffer
  obtain ⟨_, τ₄, τ₅, w₃, -, -, hlist⟩ := hbuffer
  exact ⟨(runs_cacheOn_ok.mp hlist).1, hstored, hlisted⟩

/-! ## Reading -/

/-- The steps of `broadcast_buffered_txn` before `ta_send_trytes`: the array it hands over. -/
def readBuffered (state : Bool) (uuid : Uuid) : Proc (List Hash8019) := do
  let len ← cacheListSize state (.uuid uuid)
  cacheListRead state (.uuid uuid) (List.range len)

/-- The steps from `ta_send_trytes` on. -/
def sendBuffered (I : Iota) (core : TaCore) (uuid : Uuid) (trytes : List Hash8019) :
    Proc (Option (List Hash8019)) := do
  let attached ← taSendTrytes I core.taConf core.iotaConf trytes
  let hashes := (attached.take trytes.length).map fun t => (I.deserialize t true).hash
  let stored ← demand (← request (.getTrytes hashes)) .cclientFailedResponse
  cacheDel core.cache.state (.uuid uuid)
  cacheListPushAll core.cache.state (.uuid uuid) stored
  ensure (← request .trywrlock) .cacheLockFailure
  pure (some trytes)

theorem runs_readBuffered {state : Bool} {handed : List Hash8019}
    (h : Runs world (readBuffered state u).run w τ (.ok handed) w') :
    w' = w ∧ handed = Redis.items w.redis (.uuid u) := by
  rw [readBuffered, runs_run_bind_ok] at h
  obtain ⟨len, τ₁, τ₂, w₁, -, hlen, hread⟩ := h
  obtain ⟨rfl, rfl, -⟩ := runs_cacheListSize hlen
  obtain ⟨rfl, hmap⟩ := runs_cacheListRead hread
  exact ⟨rfl, eq_of_map_range hmap⟩

/-- Where the cache refuses nothing, the list is read. -/
theorem steady_readBuffered {r : Except Status (List Hash8019)}
    (hstr : Redis.isStr w.redis (.uuid u) = false)
    (h : Runs steady (readBuffered true u).run w τ r w') :
    w' = w ∧ r = .ok (Redis.items w.redis (.uuid u)) := by
  rw [readBuffered, runs_run_bind] at h
  rcases h with ⟨e, -, h⟩ | ⟨len, τ₁, τ₂, w₁, -, hlen, hread⟩
  · obtain ⟨he, -⟩ := steady_cacheOn h
    cases hreply : (Redis.exec (.llen (.uuid u)) w.redis).1 with
    | error =>
        rw [Redis.exec_llen hreply] at hstr
        cases hstr
    | _ =>
        rw [hreply] at he
        cases he
  · obtain ⟨rfl, rfl, -⟩ := runs_cacheListSize ⟨hlen.1, Served.of_steady hlen.2⟩
    obtain ⟨rfl, es, rfl, hmap⟩ := steady_cacheListRead hread fun i hi => List.mem_range.mp hi
    rw [eq_of_map_range hmap]
    exact ⟨rfl, rfl⟩

theorem path_cacheListRead_length {state : Bool} {key : Key} {is : List Nat} {es : List key.Elem}
    (h : Path (cacheListRead state key is).run τ (.ok es)) : es.length = is.length := by
  induction is generalizing τ es with
  | nil =>
      obtain ⟨-, hes⟩ := (path_run_pure ..).mp h
      cases hes
      rfl
  | cons i is ih =>
      rw [cacheListRead, path_run_bind_ok] at h
      obtain ⟨e, τ₁, τ₂, -, -, h⟩ := h
      rw [path_run_bind_ok] at h
      obtain ⟨es', τ₃, τ₄, -, hread, h⟩ := h
      obtain ⟨-, hes⟩ := (path_run_pure ..).mp h
      cases hes
      rw [List.length_cons, List.length_cons, ih hread]

/-- What is read is handed over. -/
theorem path_publishTxn {r : Except Status (Option (List Hash8019))}
    (h : Path (publishTxn I core u).run τ r) :
    (∃ e, r = .error e ∧ Path (readBuffered core.cache.state u).run τ (.error e)) ∨
      ∃ handed τ₁ τ₂, τ = τ₁ ++ τ₂ ∧ Path (readBuffered core.cache.state u).run τ₁ (.ok handed) ∧
        Path (sendBuffered I core u handed).run τ₂ r := by
  rw [publishTxn, path_run_bind] at h
  rcases h with ⟨e, rfl, h⟩ | ⟨len, τ₁, τ₂, rfl, hlen, h⟩
  · exact Or.inl ⟨e, rfl, (path_run_bind ..).mpr (Or.inl ⟨e, rfl, h⟩)⟩
  rw [path_run_bind] at h
  rcases h with ⟨e, rfl, h⟩ | ⟨handed, τ₃, τ₄, rfl, hread, h⟩
  · exact Or.inl ⟨e, rfl, (path_run_bind ..).mpr (Or.inr ⟨len, τ₁, τ₂, rfl, hlen, h⟩)⟩
  · have hlength := path_cacheListRead_length hread
    rw [List.length_range] at hlength
    subst hlength
    refine Or.inr ⟨handed, τ₁ ++ τ₃, τ₄, (List.append_assoc ..).symm, ?_, h⟩
    exact (path_run_bind_ok ..).mpr ⟨_, τ₁, τ₃, rfl, hlen, hread⟩

theorem runs_publishTxn {V : Server sig} {s s' : V.State}
    {r : Except Status (Option (List Hash8019))} (h : Runs V (publishTxn I core u).run s τ r s') :
    (∃ e, r = .error e ∧ Runs V (readBuffered core.cache.state u).run s τ (.error e) s') ∨
      ∃ handed τ₁ τ₂ s₁, τ = τ₁ ++ τ₂ ∧
        Runs V (readBuffered core.cache.state u).run s τ₁ (.ok handed) s₁ ∧
        Runs V (sendBuffered I core u handed).run s₁ τ₂ r s' := by
  obtain ⟨hpath, hserved⟩ := h
  rcases path_publishTxn hpath with ⟨e, rfl, h⟩ | ⟨handed, τ₁, τ₂, rfl, hread, hsend⟩
  · exact Or.inl ⟨e, rfl, h, hserved⟩
  · obtain ⟨s₁, hs₁, hs₂⟩ := (served_append ..).mp hserved
    exact Or.inr ⟨handed, τ₁, τ₂, s₁, rfl, ⟨hread, hs₁⟩, hsend, hs₂⟩

/-- For every bundle that was buffered under a new UUID, and every later state in which nobody
has written under the UUID: the broadcast function reads an array and goes on to hand it to
`ta_send_trytes`.  The array is the bundle, with its last transaction at the end, exactly when the
bundle reads the same from both ends. -/
theorem handed_eq_pushed_iff
    (hpush : Runs world (pushTxnToBuffer core.cache trytes).run w τ (.ok (u, .ok ())) w₁)
    (hne : trytes ≠ []) (hnew : Redis.items w.redis (.uuid u) = [])
    {ρ : List (Event sig)} (hlater : Served world w₁ ρ w₂)
    (hkept : ∀ e ∈ ρ, ¬ e.cmd.WritesKey (.uuid u))
    {τ' : List (Event sig)} {r : Except Status (Option (List Hash8019))}
    (hpublish : Runs steady (publishTxn I core u).run w₂ τ' r w₃) :
    ∃ handed τ₁ τ₂, τ' = τ₁ ++ τ₂ ∧
      Runs steady (readBuffered core.cache.state u).run w₂ τ₁ (.ok handed) w₂ ∧
      Runs steady (sendBuffered I core u handed).run w₂ τ₂ r w₃ ∧
      ((handed = trytes ∧ handed.getLast? = trytes.getLast?) ↔ trytes.reverse = trytes) := by
  obtain ⟨hon, hpushed⟩ := runs_pushTxnToBuffer hpush
  have hw₂ : w₂.redis (.uuid u) = w₁.redis (.uuid u) := served_key hlater hkept
  have hstored : Redis.items w₂.redis (.uuid u) = trytes.reverse := by
    rw [Redis.items, hw₂]
    exact hpushed.stored.trans (by rw [hnew, List.append_nil])
  have hstr : Redis.isStr w₂.redis (.uuid u) = false :=
    Redis.isStr_eq_false (by rwa [hstored, Ne, List.reverse_eq_nil_iff])
  rcases runs_publishTxn hpublish with ⟨e, -, h⟩ | ⟨handed, τ₁, τ₂, s₁, rfl, hread, hsend⟩
  · rw [hon] at h
    cases (steady_readBuffered hstr h).2
  · rw [hon] at hread
    obtain ⟨rfl, hhanded⟩ := steady_readBuffered hstr hread
    cases hhanded
    rw [hon]
    refine ⟨_, τ₁, τ₂, rfl, hread, hsend, ?_⟩
    rw [hstored]
    constructor
    · exact fun h => h.1
    · exact fun h => ⟨h, by rw [h]⟩

namespace Sample

/-- Serialized trytes other than zeros. -/
def ones : Hash8019 := Vector.replicate 2673 1

theorem trytes_ne_ones : Sample.trytes ≠ ones := by
  intro h
  have hfirst := congrArg (fun v : Hash8019 => v[0]) h
  simp [Sample.trytes, ones] at hfirst

end Sample

/-- One transaction is handed over as it was pushed. -/
theorem handed_eq_pushed_single :
    ∃ w₁ τ handed τ₁,
      Runs world (pushTxnToBuffer Sample.core.cache [Sample.trytes]).run Sample.buffered τ
        (.ok (2#128, .ok ())) w₁ ∧
      Runs steady (readBuffered true 2#128).run w₁ τ₁ (.ok handed) w₁ ∧
      handed = [Sample.trytes] := by
  have hpush := runs_exec (V := world) (pushTxnToBuffer Sample.core.cache [Sample.trytes]).run
    (fun _ => Sample.good) Sample.buffered
  have hpublish := runs_exec (V := steady) (publishTxn Sample.iota Sample.core 2#128).run
    (fun _ => SteadyChoice.any) (exec world (pushTxnToBuffer Sample.core.cache [Sample.trytes]).run
      (fun _ => Sample.good) Sample.buffered).2.2
  have hlater : ∀ w : World, Served world w [] w := fun _ => rfl
  obtain ⟨handed, τ₁, τ₂, -, hread, -, hiff⟩ := handed_eq_pushed_iff hpush
    (List.cons_ne_nil _ _) rfl (hlater _) (by simp) hpublish
  exact ⟨_, _, handed, τ₁, hpush, hread, (hiff.mpr rfl).1⟩

/-- Two different transactions are handed over in the other order. -/
theorem handed_reversed :
    ∃ w₁ w₂ w₃ τ τ₁ τ₂ r,
      Runs world (pushTxnToBuffer Sample.core.cache [Sample.trytes, Sample.ones]).run
        Sample.buffered τ (.ok (2#128, .ok ())) w₁ ∧
      Runs steady (readBuffered true 2#128).run w₁ τ₁ (.ok [Sample.ones, Sample.trytes]) w₂ ∧
      Runs steady (sendBuffered Sample.iota Sample.core 2#128 [Sample.ones, Sample.trytes]).run w₂
        τ₂ r w₃ ∧
      [Sample.ones, Sample.trytes] ≠ [Sample.trytes, Sample.ones] :=
  ⟨_, _, _, _, _, _, _, runs_exec (V := world) _ (fun _ => Sample.good) _,
    runs_exec (V := steady) _ (fun _ => SteadyChoice.any) _,
    runs_exec (V := steady) _ (fun _ => SteadyChoice.any) _,
    fun h => Sample.trytes_ne_ones (List.cons.inj h).1.symm⟩

/-! ## One iteration -/

/-- The query an event asks of the node, with its answer. -/
def lookedUp : Event sig → List (List Hash243 × List Hash8019)
  | ⟨.getTrytes hashes, some ts⟩ => [(hashes, ts)]
  | _ => []

/-- The queries the node has answered. -/
def lookups (τ : List (Event sig)) : List (List Hash243 × List Hash8019) := τ.flatMap lookedUp

/-- The node knows the trytes it has accepted by their hashes, and answers a query with one entry
per hash, in the order of the query. -/
structure Recalls (I : Iota) (node : Hash243 → Hash8019) (τ : List (Event sig)) : Prop where
  accepted : ∀ ts ∈ stored τ, ∀ t ∈ ts, node (I.deserialize t true).hash = t
  answers : ∀ x ∈ lookups τ, x.2 = x.1.map node

variable {node : Hash243 → Hash8019}

theorem Recalls.of_subset {τ' : List (Event sig)} (h : Recalls I node τ)
    (hτ : ∀ e ∈ τ', e ∈ τ) : Recalls I node τ' := by
  refine ⟨fun ts hts => h.accepted ts (mem_stored.mpr (hτ _ (mem_stored.mp hts))), fun x hx => ?_⟩
  obtain ⟨e, he, hx⟩ := List.mem_flatMap.mp hx
  exact h.answers x (List.mem_flatMap.mpr ⟨e, hτ e he, hx⟩)

/-- What a transaction in trytes is without its attachment. -/
def content (I : Iota) (t : Hash8019) : Transaction := unattached (I.deserialize t true)

/-- `transaction_serialize` and `transaction_deserialize` are inverse, for transactions that came
from trytes and whose attachment may have changed since.  The flag only decides about the hash. -/
structure TxnInverse (I : Iota) : Prop where
  flag : ∀ t, unattached (I.deserialize t false) = content I t
  inverse : ∀ tx t, unattached tx = content I t → content I (I.serialize tx) = content I t

/-- Attaching keeps the content of every transaction. -/
theorem content_taAttachToTangle (H : TxnInverse I) {attached : List Hash8019}
    {tips : Hash243 × Hash243} {mwm : Nat}
    (h : Path (taAttachToTangle I trytes tips mwm).run τ (.ok attached)) :
    attached.map (content I) = trytes.map (content I) := by
  obtain ⟨out, rfl, hout⟩ := path_taAttachToTangle h
  clear h
  induction out generalizing trytes with
  | nil =>
      rw [List.map_nil, eq_comm, List.map_eq_nil_iff] at hout
      subst hout
      rfl
  | cons tx out ih =>
      cases trytes with
      | nil => cases hout
      | cons t trytes =>
          obtain ⟨htx, hout⟩ := List.cons.inj hout
          rw [List.map_cons, List.map_cons, List.map_cons, H.inverse tx t htx, ih hout]

/-- What is left under the UUID of a bundle that was sent: what the node accepted, in the reverse
order. -/
structure Replaced (I : Iota) (u : Uuid) (trytes : List Hash8019) (τ : List (Event sig))
    (w : World) : Prop where
  held : ∃ attached ∈ stored τ, Redis.items w.redis (.uuid u) = attached.reverse ∧
    attached.map (content I) = trytes.map (content I)

theorem runs_sendBuffered (H : TxnInverse I) (hnode : Recalls I node τ)
    {sent : List Hash8019}
    (h : Runs world (sendBuffered I core u trytes).run w τ (.ok (some sent)) w') :
    Replaced I u trytes τ w' ∧ w'.lock = .writer ∧
      ∀ k, k ≠ .uuid u → w'.redis k = w.redis k := by
  rw [sendBuffered, runs_run_bind_ok] at h
  obtain ⟨attached, τ₁, τ₂, w₁, rfl, hsend, h⟩ := h
  have hw₁ : w₁.redis = w.redis := runs_redis_eq hsend
    (uses_taSendTrytes (fun _ hc => hc.quiet.not_onCache) (fun _ => id) I _ _ trytes)
  obtain ⟨hstored, tips, τ', hattach⟩ := path_taSendTrytes hsend.1
  have hcontent := content_taAttachToTangle H hattach
  have hlength : attached.length = trytes.length := by
    simpa using congrArg List.length hcontent
  have hmem : attached ∈ stored τ₁ := by
    rw [hstored]
    exact List.mem_singleton.mpr rfl
  rw [runs_run_request_bind] at h
  obtain ⟨answer, τ₃, w₂, rfl, hask, h⟩ := h
  have hw₂ : w₂.redis = w₁.redis := serves_redis_eq hask fun c hc => by cases hc
  rw [runs_run_bind_ok] at h
  obtain ⟨ts, τ₄, τ₅, w₃, rfl, hdemand, h⟩ := h
  obtain ⟨rfl, hts, rfl⟩ := (runs_run_settle ..).mp hdemand
  cases answer with
  | none => cases hts
  | some answer =>
      cases hts
      -- the node answers with what it has accepted
      have hts : ts = attached := by
        have hanswer := hnode.answers (_, ts) (List.mem_flatMap.mpr
          ⟨_, List.mem_append_right _ (List.mem_cons_self ..), List.mem_singleton.mpr rfl⟩)
        dsimp only at hanswer
        rw [hanswer, ← hlength, List.take_length, List.map_map]
        conv_rhs => rw [← List.map_id attached]
        refine List.map_congr_left fun t ht => hnode.accepted attached ?_ t ht
        rw [stored_append]
        exact List.mem_append_left _ hmem
      subst hts
      rw [runs_run_bind_ok] at h
      obtain ⟨_, τ₆, τ₇, w₄, rfl, hdel, h⟩ := h
      obtain ⟨hnone, -, hframe₄⟩ := runs_cacheDel hdel
      rw [runs_run_bind_ok] at h
      obtain ⟨_, τ₈, τ₉, w₅, rfl, hpush, h⟩ := h
      obtain ⟨hframe₅, hitems⟩ := runs_cacheListPushAll hpush
      rw [runs_run_request_bind] at h
      obtain ⟨ok, τ₁₀, w₆, rfl, hlock, h⟩ := h
      rw [runs_run_bind_ok] at h
      obtain ⟨_, τ₁₁, τ₁₂, w₇, rfl, hensure, h⟩ := h
      obtain ⟨rfl, hok, rfl⟩ := (runs_run_ensure ..).mp hensure
      obtain ⟨-, -, rfl⟩ := (runs_run_pure ..).mp h
      cases ok with
      | false => cases hok
      | true =>
          obtain rfl := serves_trywrlock hlock
          refine ⟨⟨ts, ?_, ?_, hcontent⟩, rfl, fun k hk => ?_⟩
          · rw [stored_append]
            exact List.mem_append_left _ hmem
          · have hempty : Redis.items w₄.redis (.uuid u) = [] := by
              rw [Redis.items, hnone]
              rfl
            rw [← List.append_nil ts.reverse, ← hempty]
            exact hitems rfl
          · exact ((hframe₅ k hk).trans (hframe₄ k hk)).trans (by rw [hw₂, hw₁])

theorem runs_lock_eq {α : Type} {p : Prog sig α} {a : α} (h : Runs world p w τ a w')
    (hp : Uses (S := sig) (fun c => ¬ c.OnLock) p) : w'.lock = w.lock :=
  h.2.keeps (I := fun s : World => s.lock = w.lock)
    (fun e he _ _ hs hI => (serves_lock_eq hs (hp.path h.1 e he)).trans hI) rfl

/-- What an iteration that moved a UUID did to the database. -/
structure Moves (I : Iota) (it : Iteration (List Hash8019)) (τ : List (Event sig))
    (w w' : World) : Prop where
  buffer : Redis.items w.redis (.list .buffer) = it.peeked :: Redis.items w'.redis (.list .buffer)
  complete : Redis.items w'.redis (.list .complete) =
    it.peeked :: Redis.items w.redis (.list .complete)
  replaced : Replaced I it.peeked (Redis.items w.redis (.uuid it.peeked)) τ w'
  frame : ∀ v, v ≠ it.peeked → w'.redis (.uuid v) = w.redis (.uuid v)
  unlocked : w'.lock = .readers 0

theorem Replaced.mono {τ' : List (Event sig)} (h : Replaced I u trytes τ w)
    (hτ : ∀ ts ∈ stored τ, ts ∈ stored τ') (hw : w'.redis (.uuid u) = w.redis (.uuid u)) :
    Replaced I u trytes τ' w' := by
  obtain ⟨attached, hmem, hitems, hcontent⟩ := h
  refine ⟨attached, hτ attached hmem, ?_, hcontent⟩
  rw [Redis.items, hw]
  exact hitems

theorem runs_broadcastTxnIteration (H : TxnInverse I) (hnode : Recalls I node τ)
    {it : Iteration (List Hash8019)}
    (h : Runs world (broadcastTxnIteration I core).run w τ (.ok (.moved it)) w') :
    Moves I it τ w w' := by
  rw [broadcastTxnIteration, broadcastIteration, runs_run_bind_ok] at h
  obtain ⟨len, τ₁, τ₂, w₁, rfl, hlen, h⟩ := h
  obtain ⟨-, reply, -, -, hs⟩ := runs_cacheOn_ok.mp hlen
  obtain rfl := serves_read hs fun h => h
  split at h
  · cases ((runs_run_pure ..).mp h).2.1
  rw [runs_run_bind_ok] at h
  obtain ⟨uuid, τ₃, τ₄, w₂, rfl, hpeek, h⟩ := h
  obtain ⟨-, peekReply, -, hr, hs⟩ := runs_cacheOn_ok.mp hpeek
  obtain rfl := stringReply_eq_ok.mp hr
  obtain ⟨rfl, hhead⟩ := serves_lindex hs
  rw [runs_run_bind_ok] at h
  obtain ⟨sent, τ₅, τ₆, w₃, rfl, hpublish, h⟩ := h
  cases sent with
  | none => cases ((runs_run_pure ..).mp h).2.1
  | some sent =>
      rcases runs_publishTxn hpublish with ⟨e, he, -⟩ | ⟨handed, τ₇, τ₈, w₄, rfl, hread, hsend⟩
      · cases he
      obtain ⟨rfl, rfl⟩ := runs_readBuffered hread
      have hnode' : Recalls I node τ₈ := hnode.of_subset fun e he => by simp [he]
      obtain ⟨hreplaced, hlock, hframe₃⟩ := runs_sendBuffered H hnode' hsend
      rw [runs_run_bind_ok] at h
      obtain ⟨popped, τ₉, τ₁₀, w₅, rfl, hpop, h⟩ := h
      obtain ⟨hitems, -, hframe₅⟩ := runs_cacheListPop hpop
      rw [runs_run_bind_ok] at h
      obtain ⟨_, τ₁₁, τ₁₂, w₆, rfl, hpush, h⟩ := h
      obtain ⟨hframe₆, hpushed, -⟩ := runs_cacheListPush hpush
      rw [runs_run_request_bind] at h
      obtain ⟨ok, τ₁₃, w₇, rfl, hunlock, h⟩ := h
      rw [runs_run_bind_ok] at h
      obtain ⟨_, τ₁₄, τ₁₅, w₈, rfl, hensure, h⟩ := h
      obtain ⟨rfl, hok, rfl⟩ := (runs_run_ensure ..).mp hensure
      obtain ⟨rfl, hit, rfl⟩ := (runs_run_pure ..).mp h
      obtain rfl := Pass.moved.inj (Except.ok.inj hit)
      cases ok with
      | false => cases hok
      | true =>
          have hw₃ : ∀ n, Redis.items w₃.redis (.list n) = Redis.items w₄.redis (.list n) :=
            fun n => by rw [Redis.items, Redis.items, hframe₃ (.list n) (by simp)]
          -- nobody else has touched the list, so the pop takes what was read
          obtain rfl : popped = uuid := by
            rw [← List.head?_eq_getElem?, ← hw₃, hitems] at hhead
            exact Option.some.inj hhead
          have hlock₅ : w₅.lock = w₃.lock :=
            runs_lock_eq hpop (Uses.cacheOn (uses_redisCommand.mpr id))
          have hlock₆ : w₆.lock = w₅.lock :=
            runs_lock_eq hpush (Uses.cacheOn (uses_redisCommand.mpr id))
          obtain rfl := serves_unlock hunlock
          refine ⟨?_, ?_, ?_, fun v hv => ?_, ?_⟩
          · rw [← hw₃, hitems, Redis.items, Redis.items, hframe₆ (.list .buffer) (by simp)]
          · rw [hpushed rfl, ← hw₃, Redis.items, Redis.items, hframe₅ (.list .complete) (by simp)]
          · refine hreplaced.mono (fun ts hts => by simp [hts]) ?_
            exact (hframe₆ (.uuid popped) (by simp)).trans (hframe₅ (.uuid popped) (by simp))
          · exact ((hframe₆ (.uuid v) (by simp)).trans (hframe₅ (.uuid v) (by simp))).trans
              (hframe₃ (.uuid v) (by simpa using hv))
          · change w₆.lock.unlock = .readers 0
            rw [hlock₆, hlock₅, hlock]
            rfl

/-- An iteration that found the buffer list empty. -/
theorem runs_broadcastTxnIteration_empty
    (h : Runs world (broadcastTxnIteration I core).run w τ (.ok .empty) w') :
    w' = w ∧ Redis.items w.redis (.list .buffer) = [] ∧
      Redis.isStr w.redis (.list .buffer) = false := by
  rw [broadcastTxnIteration, broadcastIteration, runs_run_bind_ok] at h
  obtain ⟨len, τ₁, τ₂, w₁, rfl, hlen, h⟩ := h
  obtain ⟨rfl, rfl, hstr⟩ := runs_cacheListSize hlen
  split at h
  · rename_i hzero
    obtain ⟨-, -, rfl⟩ := (runs_run_pure ..).mp h
    exact ⟨rfl, List.eq_nil_of_length_eq_zero hzero, hstr⟩
  · -- the other branches end with a moved UUID or without fuel
    rw [runs_run_bind_ok] at h
    obtain ⟨uuid, τ₃, τ₄, w₂, -, -, h⟩ := h
    rw [runs_run_bind_ok] at h
    obtain ⟨sent, τ₅, τ₆, w₃, -, -, h⟩ := h
    cases sent with
    | none => cases ((runs_run_pure ..).mp h).2.1
    | some sent =>
        rw [runs_run_bind_ok] at h
        obtain ⟨popped, τ₇, τ₈, w₄, -, -, h⟩ := h
        rw [runs_run_bind_ok] at h
        obtain ⟨_, τ₉, τ₁₀, w₅, -, -, h⟩ := h
        rw [runs_run_bind_ok] at h
        obtain ⟨ok, τ₁₁, τ₁₂, w₆, -, -, h⟩ := h
        rw [runs_run_bind_ok] at h
        obtain ⟨_, τ₁₃, τ₁₄, w₇, -, -, h⟩ := h
        cases ((runs_run_pure ..).mp h).2.1

/-! ## The loop -/

/-- The UUID waits, once, and its bundle is stored as `push_txn_to_buffer` left it. -/
structure Waits (u : Uuid) (trytes : List Hash8019) (w : World) : Prop where
  once : (Redis.items w.redis (.list .buffer)).count u = 1
  stored : Redis.items w.redis (.uuid u) = trytes.reverse

/-- The bundle of the UUID was sent, and can be fetched. -/
structure IsSent (I : Iota) (u : Uuid) (trytes : List Hash8019) (τ : List (Event sig))
    (w : World) : Prop where
  left : u ∉ Redis.items w.redis (.list .buffer)
  listed : u ∈ Redis.items w.redis (.list .complete)
  replaced : Replaced I u trytes.reverse τ w
  unlocked : w.lock = .readers 0

/-- An iteration sends the UUID or another one that is before it. -/
theorem Waits.moves {it : Iteration (List Hash8019)} (h : Waits u trytes w)
    (hmove : Moves I it τ w w') : Waits u trytes w' ∨ IsSent I u trytes τ w' := by
  have honce := h.once
  rw [hmove.buffer, List.count_cons] at honce
  by_cases hu : it.peeked = u
  · subst hu
    rw [if_pos (beq_self_eq_true _)] at honce
    have hreplaced := hmove.replaced
    rw [h.stored] at hreplaced
    refine Or.inr ⟨List.count_eq_zero.mp (by omega), ?_, hreplaced, hmove.unlocked⟩
    rw [hmove.complete]
    exact List.mem_cons_self ..
  · rw [if_neg (by simpa using hu)] at honce
    refine Or.inl ⟨honce, ?_⟩
    rw [Redis.items, hmove.frame u (Ne.symm hu)]
    exact h.stored

/-- Iterations for other UUIDs leave a sent one alone. -/
theorem IsSent.moves {it : Iteration (List Hash8019)} {τ' : List (Event sig)}
    (h : IsSent I u trytes τ w) (hmove : Moves I it τ' w w') :
    IsSent I u trytes (τ ++ τ') w' := by
  have hleft := h.left
  rw [hmove.buffer, List.mem_cons, not_or] at hleft
  refine ⟨hleft.2, ?_, ?_, hmove.unlocked⟩
  · rw [hmove.complete]
    exact List.mem_cons_of_mem _ h.listed
  · refine h.replaced.mono (fun ts hts => ?_) (hmove.frame u hleft.1)
    rw [stored_append]
    exact List.mem_append_left _ hts

/-- The loop ends with the UUID sent. -/
theorem runs_broadcastLoop_isSent (H : TxnInverse I) {fuel : Nat} {τ₀ : List (Event sig)}
    (hnode : Recalls I node τ) (hw : Waits u trytes w ∨ IsSent I u trytes τ₀ w)
    (h : Runs world (broadcastLoop (broadcastTxnIteration I core) fuel).run w τ
      (.ok (some ())) w') :
    IsSent I u trytes (τ₀ ++ τ) w' ∧ Redis.isStr w'.redis (.list .buffer) = false := by
  induction fuel generalizing w τ τ₀ with
  | zero => cases ((runs_run_pure ..).mp h).2.1
  | succ fuel ih =>
      rw [broadcastLoop, runs_run_bind_ok] at h
      obtain ⟨pass, τ₁, τ₂, w₁, rfl, hit, h⟩ := h
      cases pass with
      | outOfFuel => cases ((runs_run_pure ..).mp h).2.1
      | empty =>
          obtain ⟨rfl, -, rfl⟩ := (runs_run_pure ..).mp h
          obtain ⟨rfl, hnil, hstr⟩ := runs_broadcastTxnIteration_empty hit
          rcases hw with hwaits | hsent
          · have honce := hwaits.once
            rw [hnil] at honce
            cases honce
          · refine ⟨⟨hsent.left, hsent.listed, hsent.replaced.mono (fun ts hts => ?_) rfl,
              hsent.unlocked⟩, hstr⟩
            rw [stored_append]
            exact List.mem_append_left _ hts
      | moved it =>
          have hnode₁ : Recalls I node τ₁ := hnode.of_subset fun e => List.mem_append_left _
          have hnode₂ : Recalls I node τ₂ := hnode.of_subset fun e => List.mem_append_right _
          have hmove := runs_broadcastTxnIteration H hnode₁ hit
          have hw₁ : Waits u trytes w₁ ∨ IsSent I u trytes (τ₀ ++ τ₁) w₁ := by
            rcases hw with hwaits | hsent
            · refine (hwaits.moves hmove).imp_right fun hs => ?_
              refine ⟨hs.left, hs.listed, hs.replaced.mono (fun ts hts => ?_) rfl, hs.unlocked⟩
              rw [stored_append]
              exact List.mem_append_right _ hts
            · exact Or.inr (hsent.moves hmove)
          rw [← List.append_assoc]
          exact ih hnode₂ hw₁ h

/-- For every bundle that is buffered under a new UUID, with any other UUIDs in the lists: after a
call of the broadcast function that ends with `SC_OK`, and where the node returns what it has
accepted, a fetch reports the UUID as sent.  Its bundle is what the node has accepted, has one
transaction for each that was pushed, in the same order, and each is the pushed one up to its
attachment. -/
theorem buffer_roundTrip (H : TxnInverse I) {fuel : Nat} {r : Except Status FetchRes}
    {τ₁ τ₂ τ₃ : List (Event sig)} (hne : trytes ≠ [])
    (hnew : Redis.items w.redis (.uuid u) = []) (hfresh : u ∉ Redis.items w.redis (.list .buffer))
    (hpush : Runs world (pushTxnToBuffer core.cache trytes).run w τ₁ (.ok (u, .ok ())) w₁)
    (hbroadcast : Runs world (broadcastBufferedTxn I core fuel).run w₁ τ₂ (.ok (some ())) w₂)
    (hnode : Recalls I node τ₂)
    (hfetch : Runs steady (taFetchTxnWithUuid I core.cache u).run w₂ τ₃ r w₃) :
    ∃ bundle, r = .ok { status := .sent, bundle := bundle } ∧ bundle.length = trytes.length ∧
      (∃ attached ∈ stored τ₂, bundle = attached.reverse.map (I.deserialize · false)) ∧
      bundle.map unattached = trytes.map fun t => unattached (I.deserialize t false) := by
  obtain ⟨hstate, hstored, hlisted⟩ := runs_pushTxnToBuffer hpush
  have hwaits : Waits u trytes w₁ := by
    refine ⟨?_, by rw [hstored, hnew, List.append_nil]⟩
    rw [hlisted, List.count_cons_self, List.count_eq_zero.mpr hfresh]
  have hstart : Waits u trytes w₁ ∨ IsSent I u trytes [] w₁ := Or.inl hwaits
  obtain ⟨hsent, hstr⟩ := runs_broadcastLoop_isSent H hnode hstart hbroadcast
  obtain ⟨attached, hmem, hitems, hcontent⟩ := hsent.replaced
  have hlength : attached.length = trytes.length := by
    simpa using congrArg List.length hcontent
  obtain ⟨hd, tl, hlist⟩ : ∃ hd tl, attached.reverse = hd :: tl := by
    refine List.exists_cons_of_ne_nil fun hnil => hne ?_
    rw [List.reverse_eq_nil_iff] at hnil
    rw [hnil, List.length_nil] at hlength
    exact List.eq_nil_of_length_eq_zero hlength.symm
  have hreport : fetchTxnReport I w₂.redis u =
      .ok { status := .sent, bundle := attached.reverse.map (I.deserialize · false) } := by
    unfold fetchTxnReport
    rw [hstr, if_neg (by simp), if_neg hsent.left, isStr_of_mem hsent.listed, if_neg (by simp),
      if_pos hsent.listed, Redis.eq_list_of_items (hitems.trans hlist), hlist]
  refine ⟨attached.reverse.map (I.deserialize · false), ?_, by simpa using hlength,
    ⟨attached, hmem, rfl⟩, ?_⟩
  · rw [steady_taFetchTxn hstate hsent.unlocked hfetch, hreport]
  · calc (attached.reverse.map (I.deserialize · false)).map unattached
      _ = attached.reverse.map (content I) := by
          rw [List.map_map]
          exact List.map_congr_left fun t _ => H.flag t
      _ = (attached.map (content I)).reverse := List.map_reverse
      _ = (trytes.reverse.map (content I)).reverse := by rw [hcontent]
      _ = trytes.map (content I) := by rw [List.map_reverse, List.reverse_reverse]
      _ = trytes.map fun t => unattached (I.deserialize t false) :=
          List.map_congr_left fun t _ => (H.flag t).symm

namespace Sample

theorem txnInverse : TxnInverse iota where
  flag _ := rfl
  inverse _ _ _ := rfl

/-- The database after two transactions were pushed. -/
def pushedTwo : World :=
  (exec world (pushTxnToBuffer Sample.core.cache [Sample.trytes, Sample.trytes]).run
    (fun _ => good) buffered).2.2

/-- The trace of the broadcast of two UUIDs. -/
def broadcastTwo : List (Event sig) :=
  (exec world (broadcastBufferedTxn iota Sample.core 3).run (fun _ => good) pushedTwo).1

theorem broadcastTwo_recalls : Recalls iota (fun _ => Sample.trytes) broadcastTwo := by
  have hstored : stored broadcastTwo = [[Sample.trytes, Sample.trytes], [Sample.trytes]] := rfl
  have hlookups : ∀ x ∈ lookups broadcastTwo, x.2 = x.1.map fun _ => Sample.trytes := by
    obtain ⟨a, b, c, hab⟩ : ∃ a b c, lookups broadcastTwo =
        [([a, b], [Sample.trytes, Sample.trytes]), ([c], [Sample.trytes])] := ⟨_, _, _, rfl⟩
    rw [hab]
    simp
  refine ⟨fun ts hts t ht => ?_, hlookups⟩
  rw [hstored] at hts
  simp only [List.mem_cons, List.not_mem_nil, or_false] at hts
  rcases hts with rfl | rfl
  · simp only [List.mem_cons, List.not_mem_nil, or_false, or_self] at ht
    exact ht.symm
  · exact (List.mem_singleton.mp ht).symm

end Sample

/-- Two transactions are fetched, with another UUID in the list. -/
theorem buffer_roundTrip_two :
    ∃ τ w₃ bundle, Runs steady (taFetchTxnWithUuid Sample.iota Sample.core.cache 2#128).run
        (exec world (broadcastBufferedTxn Sample.iota Sample.core 3).run (fun _ => Sample.good)
          Sample.pushedTwo).2.2 τ (.ok { status := .sent, bundle := bundle }) w₃ ∧
      bundle.length = 2 ∧ bundle.map unattached =
        [Sample.trytes, Sample.trytes].map fun t =>
          unattached (Sample.iota.deserialize t false) := by
  have hfetch := runs_exec (V := steady)
    (taFetchTxnWithUuid Sample.iota Sample.core.cache 2#128).run (fun _ => SteadyChoice.any)
    (exec world (broadcastBufferedTxn Sample.iota Sample.core 3).run (fun _ => Sample.good)
      Sample.pushedTwo).2.2
  have hpush := runs_exec (V := world)
    (pushTxnToBuffer Sample.core.cache [Sample.trytes, Sample.trytes]).run (fun _ => Sample.good)
    Sample.buffered
  have hbroadcast := runs_exec (V := world) (broadcastBufferedTxn Sample.iota Sample.core 3).run
    (fun _ => Sample.good) Sample.pushedTwo
  obtain ⟨bundle, hr, hlength, -, hbundle⟩ := buffer_roundTrip Sample.txnInverse (by simp) rfl
    (by decide) hpush hbroadcast Sample.broadcastTwo_recalls hfetch
  rw [hr] at hfetch
  exact ⟨_, _, bundle, hfetch, hlength, hbundle⟩

end TangleAccelerator
