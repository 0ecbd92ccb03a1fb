import TangleAccelerator.Buffer.Fetch
import TangleAccelerator.Core.SerHelper

/-!
# Fetched objects and queried ones

The transactions of a bundle that was broadcast can be had in two ways: `ta_fetch_txn_with_uuid`
reads them from the list under the UUID, and `ta_find_transaction_objects` from the cache or the
node, by their hashes.  Both deserialize the same trytes, and the objects are written by the same
function.

The fetch asks `transaction_deserialize` not to compute the hash, and writes the hash nevertheless.
All other fields agree, and the hash does exactly for a transaction whose digest is what the field
holds when it is not computed.
-/

namespace TangleAccelerator

open Effect Json

/-- `fetch_buffered_request_status_res_serialize`.  `print` and `number` print a document and a
number. -/
def fetchBufferedRequestStatusResSerialize (print : Tree → String) (number : Int → String)
    (res : FetchRes) : String :=
  match res.status, res.mamResult with
  | .sent, some mamResult => mamResult
  | .sent, none => print (.object [taBundleTransactionToJsonArray number res.bundle "bundle"])
  | .unsent, _ => print (.object [("status", .string "unsent")])
  | .notExist, _ => print (.object [("status", .string "not_exist")])

/-- `transaction_deserialize` computes the hash, which is the digest of the trytes, only when it is
asked to. -/
structure HashFlag (I : Iota) (unset : Hash243) : Prop where
  computed : ∀ t, (I.deserialize t true).hash = I.digest t
  left : ∀ t, I.deserialize t false = { I.deserialize t true with hash := unset }

/-- What a query sees is the Tangle: under a hash the cache has the trytes with this digest, and the
node returns objects of these trytes. -/
structure SeesTangle (I : Iota) (tangle : Hash243 → Hash8019) (w : World) (hashes : List Hash243)
    (τ : List (Event sig)) : Prop where
  digest : ∀ h ∈ hashes, I.digest (tangle h) = h
  cached : ∀ h ∈ hashes, ∀ text, w.redis (.txn h) = some (.str text) → I.fromTrytes text = tangle h
  node : ∀ h ∈ hashes, ∀ txs, (⟨.getTransactionObjects [h], some txs⟩ : Event sig) ∈ τ →
    ∀ tx ∈ txs, I.serialize tx = tangle h

section Find

variable {I : Iota} {state : Bool} {tangle : Hash243 → Hash8019} {w w' : World}
  {τ : List (Event sig)} {hashes : List Hash243}

/-- The object of a hash that was asked for. -/
def IsQueried (I : Iota) (tangle : Hash243 → Hash8019) (hashes : List Hash243)
    (obj : Transaction) : Prop :=
  ∃ h ∈ hashes, obj = I.deserialize (tangle h) true

theorem runs_cachedObjects {found : List Transaction} {uncached : List Hash243}
    (h : Runs world (cachedObjects I state hashes).run w τ (.ok (found, uncached)) w')
    (hcached : ∀ h ∈ hashes, ∀ text, w.redis (.txn h) = some (.str text) →
      I.fromTrytes text = tangle h) :
    w' = w ∧ (∀ obj ∈ found, IsQueried I tangle hashes obj) ∧ ∀ h ∈ uncached, h ∈ hashes := by
  induction hashes generalizing found uncached τ w' with
  | nil =>
      obtain ⟨-, hout, rfl⟩ := (runs_run_pure ..).mp h
      cases hout
      exact ⟨rfl, fun _ hobj => absurd hobj List.not_mem_nil,
        fun _ hh => absurd hh List.not_mem_nil⟩
  | cons hash hashes ih =>
      rw [List.forall_mem_cons] at hcached
      rw [cachedObjects, runs_run_attempt_bind] at h
      obtain ⟨value, τ₁, τ₂, w₁, -, hget, h⟩ := h
      obtain rfl : w₁ = w := by
        rcases runs_cacheOn.mp hget with ⟨-, hget⟩ | ⟨-, -, -, hw⟩
        · obtain ⟨reply, -, -, hs⟩ := runs_redisCommand.mp hget
          exact serves_read hs id
        · exact hw
      rw [runs_run_bind_ok] at h
      obtain ⟨⟨found', uncached'⟩, τ₃, τ₄, w₂, -, hloop, h⟩ := h
      obtain ⟨rfl, hfound, huncached⟩ := ih hloop hcached.2
      have hmore : ∀ obj ∈ found', IsQueried I tangle (hash :: hashes) obj := by
        intro obj hobj
        obtain ⟨h', hmem, heq⟩ := hfound obj hobj
        exact ⟨h', List.mem_cons_of_mem _ hmem, heq⟩
      cases value with
      | ok text =>
          obtain ⟨-, hout, rfl⟩ := (runs_run_pure ..).mp h
          cases hout
          obtain ⟨-, hstored⟩ := runs_cacheGet hget
          refine ⟨rfl, List.forall_mem_cons.mpr ⟨?_, hmore⟩,
            fun h' hh' => List.mem_cons_of_mem _ (huncached h' hh')⟩
          exact ⟨hash, List.mem_cons_self .., by rw [hcached.1 text hstored]⟩
      | error e =>
          obtain ⟨-, hout, rfl⟩ := (runs_run_pure ..).mp h
          cases hout
          refine ⟨rfl, hmore, List.forall_mem_cons.mpr ⟨List.mem_cons_self .., ?_⟩⟩
          exact fun h' hh' => List.mem_cons_of_mem _ (huncached h' hh')

/-- The loop over the other hashes has objects of the trytes of the hashes. -/
theorem path_uncachedObjects_serialize {arr out : List Transaction}
    (h : Path (uncachedObjects hashes arr).run τ (.ok out))
    (hnode : ∀ h ∈ hashes, ∀ txs, (⟨.getTransactionObjects [h], some txs⟩ : Event sig) ∈ τ →
      ∀ tx ∈ txs, I.serialize tx = tangle h) :
    ∀ tx ∈ out, tx ∈ arr ∨ ∃ h ∈ hashes, I.serialize tx = tangle h := by
  induction hashes generalizing arr τ with
  | nil =>
      obtain ⟨-, hout⟩ := (path_run_pure ..).mp h
      cases hout
      exact fun tx htx => Or.inl htx
  | cons hash hashes ih =>
      rw [uncachedObjects, path_run_request_bind] at h
      obtain ⟨answer, τ₁, rfl, h⟩ := h
      rw [List.forall_mem_cons] at hnode
      cases answer with
      | none => cases ((path_run_throw ..).mp h).2
      | some txs =>
          have hrest : Path (uncachedObjects hashes
              (arr ++ txs ++ (arr ++ txs).head?.toList)).run τ₁ (.ok out) := h
          have htxs := hnode.1 txs (List.mem_cons_self ..)
          intro tx htx
          rcases ih hrest
            (fun h' hh' txs' hmem => hnode.2 h' hh' txs' (List.mem_cons_of_mem _ hmem)) tx htx
            with hold | ⟨h', hmem, heq⟩
          · have hmem : tx ∈ arr ++ txs := by
              rcases List.mem_append.mp hold with hold | hhead
              · exact hold
              · exact List.mem_of_mem_head? (Option.mem_toList.mp hhead)
            rcases List.mem_append.mp hmem with harr | hnew
            · exact Or.inl harr
            · exact Or.inr ⟨hash, List.mem_cons_self .., htxs tx hnew⟩
          · exact Or.inr ⟨h', List.mem_cons_of_mem _ hmem, heq⟩

/-- The last loop serializes and deserializes. -/
theorem path_appendObjects_deserialize {txs out : List Transaction}
    (h : Path (appendObjects I txs).run τ (.ok out)) :
    out = txs.map fun tx => I.deserialize (I.serialize tx) true := by
  induction txs generalizing out τ with
  | nil =>
      obtain ⟨-, hout⟩ := (path_run_pure ..).mp h
      cases hout
      rfl
  | cons tx txs ih =>
      rw [appendObjects, path_run_request_bind] at h
      obtain ⟨ok, τ₁, -, h⟩ := h
      rw [path_run_bind_ok] at h
      obtain ⟨_, τ₂, τ₃, -, -, h⟩ := h
      rw [path_run_bind_ok] at h
      obtain ⟨rest, τ₄, τ₅, -, hrest, h⟩ := h
      obtain ⟨-, hout⟩ := (path_run_pure ..).mp h
      cases hout
      rw [ih hrest, List.map_cons]

theorem runs_taFindTransactionObjects {objs : List Transaction}
    (h : Runs world (taFindTransactionObjects I state hashes).run w τ (.ok objs) w')
    (hsees : SeesTangle I tangle w hashes τ) : ∀ obj ∈ objs, IsQueried I tangle hashes obj := by
  rw [taFindTransactionObjects, runs_run_bind_ok] at h
  obtain ⟨⟨found, uncached⟩, τ₁, τ₂, w₁, rfl, hcached, h⟩ := h
  obtain ⟨-, hfound, huncached⟩ := runs_cachedObjects hcached hsees.cached
  rw [runs_run_bind_ok] at h
  obtain ⟨arr, τ₃, τ₄, w₂, rfl, hloop, h⟩ := h
  rw [runs_run_bind_ok] at h
  obtain ⟨rest, τ₅, τ₆, w₃, rfl, happend, h⟩ := h
  obtain ⟨-, hout, -⟩ := (runs_run_pure ..).mp h
  cases hout
  have harr : ∀ tx ∈ arr, tx ∈ [] ∨ ∃ h ∈ uncached, I.serialize tx = tangle h :=
    path_uncachedObjects_serialize hloop.1 fun h' hh' txs hmem =>
      hsees.node h' (huncached h' hh') txs (by simp [hmem])
  refine List.forall_mem_append.mpr ⟨hfound, ?_⟩
  rw [path_appendObjects_deserialize happend.1, List.forall_mem_map]
  intro tx htx
  rcases harr tx htx with hnil | ⟨h', hh', heq⟩
  · exact absurd hnil List.not_mem_nil
  · exact ⟨h', huncached h' hh', by rw [heq]⟩

end Find

/-- How the fetched object of a transaction compares with a queried one. -/
structure Compares (I : Iota) (unset : Hash243) (number : Int → String) (t : Hash8019) (json : Tree)
    (obj : Transaction) : Prop where
  others : ∀ name, name ≠ "hash" →
    json.member name = (taIotaTransactionToJsonObject number obj).member name
  digest : (taIotaTransactionToJsonObject number obj).member "hash" =
    some (.string (tryteText (I.digest t).toList))
  equal : json = taIotaTransactionToJsonObject number obj ↔ I.digest t = unset

/-- For every library that computes the hash only when asked to, and every fetch that reports a sent
bundle: its text has one object for each stored transaction, in their order.  For each of them, and
every query that sees the Tangle and returns an object with its hash, the two objects agree in all
fields but the hash.  The hash of the queried object is the digest, and the objects are equal
exactly when the digest is what the field holds when it is not computed. -/
theorem fetched_eq_queried_iff {I : Iota} {unset : Hash243} (hflag : HashFlag I unset)
    (print : Tree → String) (number : Int → String) {cache : TaCache} {u : Uuid} {w w' : World}
    {τ : List (Event sig)} {res : FetchRes}
    (hfetch : Runs world (taFetchTxnWithUuid I cache u).run w τ (.ok res) w')
    (hsent : res.status = .sent) :
    ∃ fetched, fetchBufferedRequestStatusResSerialize print number res =
        print (.object [("bundle", .array fetched)]) ∧
      List.Forall₂ (fun t json =>
        ∀ state hashes tangle w₁ τ' objs w₂,
          Runs world (taFindTransactionObjects I state hashes).run w₁ τ' (.ok objs) w₂ →
          SeesTangle I tangle w₁ hashes τ' → tangle (I.digest t) = t →
          ∀ obj ∈ objs, obj.hash = I.digest t → Compares I unset number t json obj)
        (Redis.items w.redis (.uuid u)) fetched := by
  obtain ⟨-, rfl⟩ := runs_taFetchTxn_sent hfetch hsent
  refine ⟨_, rfl, ?_⟩
  rw [List.map_map, List.forall₂_map_right_iff, List.forall₂_same]
  intro t _ state hashes tangle w₁ τ' objs w₂ hquery hsees ht obj hobj hhash
  obtain ⟨h, hmem, rfl⟩ := runs_taFindTransactionObjects hquery hsees obj hobj
  -- the object has the hash that was asked for
  have hh : h = I.digest t := by
    rw [← hsees.digest h hmem, ← hhash, hflag.computed]
  have htrytes : tangle h = t := by rw [hh, ht]
  rw [htrytes, Function.comp_apply, hflag.left]
  refine ⟨fun name hname => member_toJsonObject_ne number _ unset hname, ?_, ?_⟩
  · rw [member_toJsonObject_hash, hflag.computed]
  · rw [toJsonObject_eq_iff, hflag.computed]
    exact eq_comm

namespace Sample

/-- A library whose digest is always the same. -/
def digestIota (digest : Tryte) : Iota :=
  { iota with
    deserialize := fun _ flag =>
      { txn with hash := Vector.replicate 81 (if flag then digest else 0) }
    digest := fun _ => Vector.replicate 81 digest }

theorem hashFlag_digestIota (digest : Tryte) :
    HashFlag (digestIota digest) (Vector.replicate 81 0) :=
  ⟨fun _ => rfl, fun _ => rfl⟩

/-- The cache has a transaction under every hash. -/
def cachedTxn : World where
  redis
    | .txn _ => some (.str "")
    | _ => none
  lock := .readers 0
  ledger := []
  mamFile := []

theorem seesTangle_cachedTxn (digest : Tryte) : SeesTangle (digestIota digest) (fun _ => trytes)
    cachedTxn [Vector.replicate 81 digest] [⟨.redis (.get (.txn (Vector.replicate 81 digest))),
      .bulk ""⟩] where
  digest := by
    rw [List.forall_mem_singleton]
    rfl
  cached := fun _ _ _ _ => rfl
  node := by
    intro h _ txs hmem
    cases List.mem_singleton.mp hmem

theorem runs_query (digest : Tryte) : ∃ w',
    Runs world (taFindTransactionObjects (digestIota digest) true [Vector.replicate 81 digest]).run
      cachedTxn [⟨.redis (.get (.txn (Vector.replicate 81 digest))), .bulk ""⟩]
      (.ok [(digestIota digest).deserialize trytes true]) w' :=
  ⟨_, runs_exec (V := world) _ (fun _ => good) _⟩

/-- A number as a text. -/
def number (n : Int) : String := if n < 0 then "-" ++ n.natAbs.repr else n.natAbs.repr

theorem runs_fetch (digest : Tryte) : ∃ τ w',
    Runs world (taFetchTxnWithUuid (digestIota digest) core.cache 1#128).run
      (sent (.list trytes []) 1#128 []) τ
      (.ok { status := .sent, bundle := [(digestIota digest).deserialize trytes false] }) w' :=
  ⟨_, _, runs_exec (V := world) _ (fun _ => good) _⟩

end Sample

/-- A transaction whose digest is null. -/
theorem fetched_eq_queried_null : ∃ json,
    Compares (Sample.digestIota 0) (Vector.replicate 81 0) Sample.number Sample.trytes json
        ((Sample.digestIota 0).deserialize Sample.trytes true) ∧
      json = taIotaTransactionToJsonObject Sample.number
        ((Sample.digestIota 0).deserialize Sample.trytes true) := by
  obtain ⟨τ, w', hfetch⟩ := Sample.runs_fetch 0
  obtain ⟨w₂, hquery⟩ := Sample.runs_query 0
  obtain ⟨fetched, -, hall⟩ := fetched_eq_queried_iff (Sample.hashFlag_digestIota 0)
    (fun _ => "") Sample.number hfetch rfl
  obtain ⟨json, rest, hjson, -, -⟩ := List.forall₂_cons_left_iff.mp hall
  have hcompares := hjson _ _ _ _ _ _ _ hquery (Sample.seesTangle_cachedTxn 0) rfl _
    (List.mem_singleton.mpr rfl) rfl
  exact ⟨json, hcompares, hcompares.equal.mpr rfl⟩

/-- A transaction whose digest is not null.  The fetched object and the queried one differ in the
hash. -/
theorem fetched_hash_unset :
    HashFlag (Sample.digestIota 1) (Vector.replicate 81 0) ∧
    (∃ τ w', Runs world (taFetchTxnWithUuid (Sample.digestIota 1) Sample.core.cache 1#128).run
      (Sample.sent (.list Sample.trytes []) 1#128 []) τ
      (.ok { status := .sent, bundle :=
        [(Sample.digestIota 1).deserialize Sample.trytes false] }) w') ∧
    (∃ w', Runs world (taFindTransactionObjects (Sample.digestIota 1) true
        [(Sample.digestIota 1).digest Sample.trytes]).run Sample.cachedTxn
      [⟨.redis (.get (.txn (Vector.replicate 81 1))), .bulk ""⟩]
      (.ok [(Sample.digestIota 1).deserialize Sample.trytes true]) w') ∧
    taIotaTransactionToJsonObject Sample.number
        ((Sample.digestIota 1).deserialize Sample.trytes false) ≠
      taIotaTransactionToJsonObject Sample.number
        ((Sample.digestIota 1).deserialize Sample.trytes true) := by
  refine ⟨Sample.hashFlag_digestIota 1, Sample.runs_fetch 1, Sample.runs_query 1, fun heq => ?_⟩
  have hhash := (toJsonObject_eq_iff Sample.number
    ((Sample.digestIota 1).deserialize Sample.trytes true) (Vector.replicate 81 0)).mp heq
  exact absurd (congrArg (fun v : Hash243 => v[0]) hhash) (by decide)

end TangleAccelerator
