import TangleAccelerator.Buffer.Attach
import TangleAccelerator.Buffer.Fetch

/-!
# What a client is told about a transfer

`api_send_transfer` answers with a UUID where the bundle was put in the buffer for later.
It takes the status `SC_CCLIENT_FAILED_RESPONSE` of `ta_send_transfer` as the sign that this
has happened.  The status says less than that: `ta_send_transfer` also returns it where there
is no bundle yet and where the bundle is already sent, it buffers a bundle on any status of
`ta_send_trytes`, and it drops the status of `push_txn_to_buffer`.

Which functions failed, and how, is the *pattern* of a call (`TransferPattern`).  Every call
has one.  The main result compares what the client is told with what was stored (`Reported`),
for every pattern.
-/

namespace TangleAccelerator

open Effect

variable {w w' : World} {τ : List (Event sig)} {I : Iota} {core : TaCore} {req : SendTransferReq}

/-! ## Patterns -/

/-- Where a call of `ta_send_transfer` ends. -/
inductive TransferPattern where
  /-- No bundle was prepared and serialized. -/
  | notPrepared (e : Status)
  /-- `ta_send_trytes` failed, and `push_txn_to_buffer` ended with `stored`. -/
  | notSent (e : Status) (stored : Except Status Unit)
  /-- The bundle was sent, and this is what `iota_client_find_transactions` answered. -/
  | sent (hashes : Option (List Hash243))

/-- A call with this trace has this pattern. -/
def TransferPattern.Of (I : Iota) (core : TaCore) (req : SendTransferReq) :
    TransferPattern → List (Event sig) → Prop
  | .notPrepared e, τ => Path (prepareBundle I req).run τ (.error e)
  | .notSent e stored, τ => ∃ bundle raw u τ₁ τ₂ τ₃,
      τ = τ₁ ++ (τ₂ ++ ⟨.uuidGenerateRandom, u⟩ :: τ₃) ∧
      Path (prepareBundle I req).run τ₁ (.ok (bundle, raw)) ∧
      Path (taSendTrytes I core.taConf core.iotaConf raw).run τ₂ (.error e) ∧
      Path (bufferTxn core.cache raw u).run τ₃ stored
  | .sent hashes, τ => ∃ bundle raw attached find τ₁ τ₂ τ₃,
      τ = τ₁ ++ (τ₂ ++ ⟨.findTransactions find, hashes⟩ :: τ₃) ∧
      Path (prepareBundle I req).run τ₁ (.ok (bundle, raw)) ∧
      Path (taSendTrytes I core.taConf core.iotaConf raw).run τ₂ (.ok attached)

/-- The patterns the status of `ta_send_transfer` describes. -/
def TransferPattern.Handled : TransferPattern → Prop
  | .notPrepared e => e ≠ .cclientFailedResponse
  | .notSent e stored => e = .cclientFailedResponse ↔ stored = .ok ()
  | .sent hashes => hashes ≠ none

/-- A call has one pattern. -/
theorem TransferPattern.Of.unique {p q : TransferPattern} (hp : p.Of I core req τ)
    (hq : q.Of I core req τ) : p = q := by
  cases p with
  | notPrepared e =>
      cases q with
      | notPrepared e' =>
          obtain ⟨-, -, he⟩ := path_unique hp hq (rfl : τ ++ [] = τ ++ [])
          cases he
          rfl
      | notSent e' stored =>
          obtain ⟨bundle, raw, u, τ₁, τ₂, τ₃, rfl, h₁, -⟩ := hq
          have he := path_result hp h₁
          cases he
      | sent hashes =>
          obtain ⟨bundle, raw, attached, find, τ₁, τ₂, τ₃, rfl, h₁, -⟩ := hq
          have he := path_result hp h₁
          cases he
  | notSent e stored =>
      obtain ⟨bundle, raw, u, τ₁, τ₂, τ₃, rfl, h₁, h₂, h₃⟩ := hp
      cases q with
      | notPrepared e' =>
          have he := path_result hq h₁
          cases he
      | notSent e' stored' =>
          obtain ⟨bundle', raw', u', σ₁, σ₂, σ₃, hτ, h₁', h₂', h₃'⟩ := hq
          obtain ⟨-, hτ, he⟩ := path_unique h₁ h₁' hτ
          cases he
          obtain ⟨-, hτ, he⟩ := path_unique h₂ h₂' hτ
          cases he
          cases hτ
          obtain ⟨-, -, he⟩ := path_unique h₃ h₃' (rfl : τ₃ ++ [] = τ₃ ++ [])
          rw [he]
      | sent hashes =>
          obtain ⟨bundle', raw', attached, find, σ₁, σ₂, σ₃, hτ, h₁', h₂'⟩ := hq
          obtain ⟨-, hτ, he⟩ := path_unique h₁ h₁' hτ
          cases he
          obtain ⟨-, -, he⟩ := path_unique h₂ h₂' hτ
          cases he
  | sent hashes =>
      obtain ⟨bundle, raw, attached, find, τ₁, τ₂, τ₃, rfl, h₁, h₂⟩ := hp
      cases q with
      | notPrepared e' =>
          have he := path_result hq h₁
          cases he
      | notSent e' stored' =>
          obtain ⟨bundle', raw', u', σ₁, σ₂, σ₃, hτ, h₁', h₂', -⟩ := hq
          obtain ⟨-, hτ, he⟩ := path_unique h₁ h₁' hτ
          cases he
          obtain ⟨-, -, he⟩ := path_unique h₂ h₂' hτ
          cases he
      | sent hashes' =>
          obtain ⟨bundle', raw', attached', find', σ₁, σ₂, σ₃, hτ, h₁', h₂'⟩ := hq
          obtain ⟨-, hτ, he⟩ := path_unique h₁ h₁' hτ
          cases he
          obtain ⟨-, hτ, he⟩ := path_unique h₂ h₂' hτ
          cases hτ
          rfl

/-! ## Storing a bundle -/

/-- The bundle is stored under `u`, and `u` is new in the buffer list. -/
structure Buffered (raw : List Hash8019) (u : Uuid) (w w' : World) : Prop where
  stored : Redis.items w'.redis (.uuid u) = raw.reverse ++ Redis.items w.redis (.uuid u)
  listed : Redis.items w'.redis (.list .buffer) = u :: Redis.items w.redis (.list .buffer)

/-- The UUID is the head of the list, so a call buffers its bundle under one UUID only. -/
theorem Buffered.unique {raw raw' : List Hash8019} {u v : Uuid} (hu : Buffered raw u w w')
    (hv : Buffered raw' v w w') : u = v :=
  (List.cons.inj (hu.listed.symm.trans hv.listed)).1

theorem not_buffered {raw : List Hash8019} {u : Uuid}
    (h : Redis.items w'.redis (.list .buffer) = Redis.items w.redis (.list .buffer)) :
    ¬ Buffered raw u w w' := by
  intro hb
  have hlen := congrArg List.length (h.symm.trans hb.listed)
  simp at hlen

theorem runs_cacheListPush {state : Bool} {key : Key} {e : key.Elem} {r : Except Status Unit}
    (h : Runs world (cacheListPush state key e).run w τ r w') :
    (∀ k, k ≠ key → w'.redis k = w.redis k) ∧
      (r = .ok () → Redis.items w'.redis key = e :: Redis.items w.redis key) ∧
      (r ≠ .ok () → w'.redis = w.redis) := by
  rcases runs_cacheOn.mp h with ⟨-, h⟩ | ⟨-, -, rfl, rfl⟩
  · obtain ⟨reply, -, hr, hs⟩ := runs_redisCommand.mp h
    have ha := (serves_redis.mp hs).1
    refine ⟨fun k hk => ha.ne hk, fun hok => ?_, fun hok => ?_⟩
    · apply ha.items_lpush
      intro herr
      rw [herr, hok] at hr
      cases hr
    · cases reply with
      | error => exact ha.lpush_error
      | _ => exact absurd hr hok
  · exact ⟨fun _ _ => rfl, nofun, fun _ => rfl⟩

/-- A push loop leaves the elements in the list in the reverse order. -/
theorem runs_cacheListPushAll {state : Bool} {key : Key} {es : List key.Elem}
    {r : Except Status Unit} (h : Runs world (cacheListPushAll state key es).run w τ r w') :
    (∀ k, k ≠ key → w'.redis k = w.redis k) ∧
      (r = .ok () → Redis.items w'.redis key = es.reverse ++ Redis.items w.redis key) := by
  induction es generalizing w τ with
  | nil =>
      obtain ⟨-, rfl, rfl⟩ := (runs_run_pure ..).mp h
      exact ⟨fun _ _ => rfl, fun _ => rfl⟩
  | cons e es ih =>
      rw [cacheListPushAll, runs_run_bind] at h
      rcases h with ⟨err, rfl, h⟩ | ⟨_, τ₁, τ₂, w₁, -, h₁, h₂⟩
      · exact ⟨(runs_cacheListPush h).1, nofun⟩
      · obtain ⟨hframe₁, hpush, -⟩ := runs_cacheListPush h₁
        obtain ⟨hframe₂, hall⟩ := ih h₂
        refine ⟨fun k hk => (hframe₂ k hk).trans (hframe₁ k hk), fun hr => ?_⟩
        rw [hall hr, hpush rfl, List.reverse_cons, List.append_assoc]
        rfl

/-- The bundle is buffered exactly where every push succeeds. -/
theorem runs_bufferTxn {cache : TaCache} {raw : List Hash8019} {u : Uuid} {r : Except Status Unit}
    (h : Runs world (bufferTxn cache raw u).run w τ r w') :
    (r = .ok () → Buffered raw u w w') ∧
      (r ≠ .ok () →
        Redis.items w'.redis (.list .buffer) = Redis.items w.redis (.list .buffer)) := by
  rw [bufferTxn, runs_run_bind] at h
  rcases h with ⟨e, rfl, h⟩ | ⟨_, τ₁, τ₂, w₁, -, h₁, h₂⟩
  · refine ⟨nofun, fun _ => ?_⟩
    rw [Redis.items, Redis.items, (runs_cacheListPushAll h).1 _ (by simp)]
  · obtain ⟨hframe₁, hall⟩ := runs_cacheListPushAll h₁
    obtain ⟨hframe₂, hpush, hfail⟩ := runs_cacheListPush h₂
    have hbuffer : Redis.items w₁.redis (.list .buffer) = Redis.items w.redis (.list .buffer) := by
      rw [Redis.items, Redis.items, hframe₁ _ (by simp)]
    refine ⟨fun hr => ⟨?_, ?_⟩, fun hr => ?_⟩
    · rw [← hall rfl, Redis.items, Redis.items, hframe₂ _ (by simp)]
    · rw [hpush hr, hbuffer]
    · rw [hfail hr, hbuffer]

/-! ## The calls of `ta_send_transfer` -/

/-- The node was asked for a bundle and answered with this one. -/
def BundleOf (τ : List (Event sig)) (bundle : List Transaction) : Prop :=
  ∃ transfers, (⟨.prepareTransfers transfers, some bundle⟩ : Event sig) ∈ τ

theorem path_prepareBundle {bundle : List Transaction} {raw : List Hash8019}
    (h : Path (prepareBundle I req).run τ (.ok (bundle, raw))) :
    raw = bundle.map I.serialize ∧ BundleOf τ bundle := by
  rw [prepareBundle, path_run_bind_ok] at h
  obtain ⟨timestamp, τ₁, τ₂, rfl, -, h⟩ := h
  rw [path_run_bind_ok] at h
  obtain ⟨ok, τ₃, τ₄, rfl, -, h⟩ := h
  rw [path_run_bind_ok] at h
  obtain ⟨_, τ₅, τ₆, rfl, -, h⟩ := h
  rw [path_run_bind_ok] at h
  obtain ⟨_, τ₇, τ₈, rfl, -, h⟩ := h
  rw [path_run_bind_ok] at h
  obtain ⟨answer, τ₉, τ₁₀, rfl, hask, h⟩ := h
  rw [path_run_bind_ok] at h
  obtain ⟨bundle', τ₁₁, τ₁₂, rfl, hdemand, h⟩ := h
  rw [path_run_bind_ok] at h
  obtain ⟨raw', τ₁₃, τ₁₄, rfl, hraw, h⟩ := h
  obtain ⟨-, hres⟩ := (path_run_pure ..).mp h
  cases hres
  obtain ⟨a, ha, rfl⟩ := (path_run_request ..).mp hask
  cases ha
  obtain ⟨-, hsome⟩ := (path_run_settle ..).mp hdemand
  cases answer with
  | none => cases hsome
  | some b =>
      cases hsome
      exact ⟨path_serializeBundle hraw, [⟨req.address, req.tag, req.message, timestamp⟩], by simp⟩

/-- A function that issues no Redis command leaves the database alone. -/
theorem runs_redis_eq {α : Type} {p : Prog sig α} {a : α} (h : Runs world p w τ a w')
    (hp : Uses (S := sig) (fun c => ¬ c.OnCache) p) : w'.redis = w.redis :=
  h.2.keeps (I := fun s : World => s.redis = w.redis)
    (fun e he _ _ hs hI => (serves_redis_eq hs fun c hc => by
      have hcache := hp.path h.1 e he
      rw [hc] at hcache
      exact hcache trivial).trans hI) rfl

theorem uses_prepareBundle (I : Iota) (req : SendTransferReq) :
    Uses (S := sig) (fun c => ¬ c.OnCache) (prepareBundle I req).run := by
  have hP : ∀ c : Cmd, c.Quiet → ¬ c.OnCache := fun _ => Cmd.Quiet.not_onCache
  refine Uses.run_bind (uses_request hP trivial) fun timestamp => ?_
  refine Uses.run_bind (uses_request hP trivial) fun ok => ?_
  refine Uses.run_bind (uses_run_ensure _ _) fun _ => ?_
  refine Uses.run_bind (uses_request hP trivial) fun _ => ?_
  refine Uses.run_bind (uses_request hP trivial) fun answer => ?_
  refine Uses.run_bind (uses_run_demand _ _) fun bundle => ?_
  exact Uses.run_bind (uses_serializeBundle (fun c hc => hP c hc.quiet) I bundle) fun _ => trivial

/-- What is known of a call of `ta_send_transfer` by its pattern: the rest of its trace, the
result and the status it leaves, and what it did to the database. -/
inductive Transferred (I : Iota) (core : TaCore) (req : SendTransferReq) (w : World) :
    TransferPattern → List (Event sig) → SendTransferRes → Except Status Unit → World → Prop
  | notPrepared {τ e w'} (hprepare : Path (prepareBundle I req).run τ (.error e))
      (hredis : w'.redis = w.redis) :
      Transferred I core req w (.notPrepared e) τ {} (.error e) w'
  | notSent {bundle raw u τ₁ τ₂ τ₃ e stored w'}
      (hprepare : Path (prepareBundle I req).run τ₁ (.ok (bundle, raw)))
      (hsend : Path (taSendTrytes I core.taConf core.iotaConf raw).run τ₂ (.error e))
      (hstore : Path (bufferTxn core.cache raw u).run τ₃ stored)
      (hok : stored = .ok () → Buffered raw u w w')
      (hfail : stored ≠ .ok () →
        Redis.items w'.redis (.list .buffer) = Redis.items w.redis (.list .buffer)) :
      Transferred I core req w (.notSent e stored)
        (τ₁ ++ (τ₂ ++ ⟨.uuidGenerateRandom, u⟩ :: τ₃))
        { uuid := some u, address := bundle.head?.map (·.address) } (.error e) w'
  | notFound {bundle raw attached find τ₁ τ₂ w'}
      (hprepare : Path (prepareBundle I req).run τ₁ (.ok (bundle, raw)))
      (hsend : Path (taSendTrytes I core.taConf core.iotaConf raw).run τ₂ (.ok attached))
      (hredis : w'.redis = w.redis) :
      Transferred I core req w (.sent none) (τ₁ ++ (τ₂ ++ [⟨.findTransactions find, none⟩])) {}
        (.error .cclientFailedResponse) w'
  | found {bundle raw attached find hashes τ₁ τ₂ w'}
      (hprepare : Path (prepareBundle I req).run τ₁ (.ok (bundle, raw)))
      (hsend : Path (taSendTrytes I core.taConf core.iotaConf raw).run τ₂ (.ok attached))
      (hredis : w'.redis = w.redis) :
      Transferred I core req w (.sent (some hashes))
        (τ₁ ++ (τ₂ ++ [⟨.findTransactions find, some hashes⟩])) { hash := hashes } (.ok ()) w'

/-- Every call of `ta_send_transfer` has a pattern. -/
theorem runs_taSendTransfer {r : Except Status (SendTransferRes × Except Status Unit)}
    (h : Runs world (taSendTransfer I core.taConf core.iotaConf core.cache req).run w τ r w') :
    ∃ p res ret, r = .ok (res, ret) ∧ Transferred I core req w p τ res ret w' := by
  rw [taSendTransfer, runs_run_attempt_bind] at h
  obtain ⟨prepared, τ₁, τ₂, w₁, rfl, h₁, h⟩ := h
  have hredis₁ := runs_redis_eq h₁ (uses_prepareBundle I req)
  cases prepared with
  | error e =>
      obtain ⟨rfl, rfl, rfl⟩ := (runs_run_pure ..).mp h
      rw [List.append_nil]
      exact ⟨_, _, _, rfl, .notPrepared h₁.1 hredis₁⟩
  | ok prepared =>
      obtain ⟨bundle, raw⟩ := prepared
      dsimp only at h
      rw [runs_run_attempt_bind] at h
      obtain ⟨attached, τ₃, τ₄, w₂, rfl, h₂, h⟩ := h
      have hredis₂ := (runs_redis_eq h₂
        (uses_taSendTrytes (fun _ hc => hc.quiet.not_onCache) (fun _ => id) ..)).trans hredis₁
      cases attached with
      | error e =>
          dsimp only at h
          rw [pushTxnToBuffer, bind_assoc, runs_run_request_bind] at h
          obtain ⟨u, τ₅, w₃, rfl, hs, h⟩ := h
          have hredis₃ := (serves_redis_eq hs fun c hc => by cases hc).trans hredis₂
          rw [bind_assoc, runs_run_attempt_bind] at h
          obtain ⟨stored, τ₆, τ₇, w₄, rfl, hstore, h⟩ := h
          obtain ⟨rfl, rfl, rfl⟩ := (runs_run_pure ..).mp h
          obtain ⟨hok, hfail⟩ := runs_bufferTxn hstore
          rw [List.append_nil]
          refine ⟨_, _, _, rfl, .notSent h₁.1 h₂.1 hstore.1 (fun hst => ?_) fun hst => ?_⟩
          · obtain ⟨hstored, hlisted⟩ := hok hst
            exact ⟨hredis₃ ▸ hstored, hredis₃ ▸ hlisted⟩
          · exact hredis₃ ▸ hfail hst
      | ok attached =>
          dsimp only at h
          rw [runs_run_request_bind] at h
          obtain ⟨hashes, τ₅, w₃, rfl, hs, h⟩ := h
          have hredis₃ := (serves_redis_eq hs fun c hc => by cases hc).trans hredis₂
          cases hashes with
          | none =>
              obtain ⟨rfl, rfl, rfl⟩ := (runs_run_pure ..).mp h
              exact ⟨_, _, _, rfl, .notFound h₁.1 h₂.1 hredis₃⟩
          | some hashes =>
              obtain ⟨rfl, rfl, rfl⟩ := (runs_run_pure ..).mp h
              exact ⟨_, _, _, rfl, .found h₁.1 h₂.1 hredis₃⟩

/-! ## The answer -/

/-- The client is answered with a UUID exactly where the bundle of its request is stored under
this UUID and the UUID is in the buffer list, and no answer is read from fields that are not
set. -/
structure Reported (I : Iota) (w : World) (τ : List (Event sig)) (r : Except Status TransferAnswer)
    (w' : World) : Prop where
  uuid_iff : ∀ u, (∃ address, r = .ok (.uuid u address)) ↔
    ∃ bundle, BundleOf τ bundle ∧ Buffered (bundle.map I.serialize) u w w'
  set : r ≠ .ok .unset

/-- A UUID is a true answer exactly if a bundle of the request is stored under it. -/
theorem reported_uuid_iff {u : Uuid} {address : Option Hash243} :
    Reported I w τ (.ok (.uuid u address)) w' ↔
      ∃ bundle, BundleOf τ bundle ∧ Buffered (bundle.map I.serialize) u w w' := by
  constructor
  · intro h
    exact (h.uuid_iff u).mp ⟨_, rfl⟩
  · rintro ⟨bundle, hof, hb⟩
    refine ⟨fun v => ⟨?_, ?_⟩, by intro h; cases h⟩
    · rintro ⟨address', hv⟩
      cases hv
      exact ⟨bundle, hof, hb⟩
    · rintro ⟨bundle', -, hv⟩
      rw [hv.unique hb]
      exact ⟨_, rfl⟩

/-- An error is a true answer exactly if no bundle of the request is stored. -/
theorem reported_error_iff {e : Status} :
    Reported I w τ (.error e) w' ↔
      ∀ u bundle, BundleOf τ bundle → ¬ Buffered (bundle.map I.serialize) u w w' := by
  constructor
  · intro h u bundle hof hb
    obtain ⟨address, hu⟩ := (h.uuid_iff u).mpr ⟨bundle, hof, hb⟩
    cases hu
  · intro h
    refine ⟨fun u => ⟨?_, ?_⟩, by intro h; cases h⟩
    · rintro ⟨address, hu⟩
      cases hu
    · rintro ⟨bundle, hof, hb⟩
      exact absurd hb (h u bundle hof)

theorem reported_of_not_buffered {r : Except Status TransferAnswer}
    (hbuffer : Redis.items w'.redis (.list .buffer) = Redis.items w.redis (.list .buffer))
    (huuid : ∀ u address, r ≠ .ok (.uuid u address)) (hset : r ≠ .ok .unset) :
    Reported I w τ r w' := by
  refine ⟨fun u => ⟨fun h => ?_, fun h => ?_⟩, hset⟩
  · obtain ⟨address, h⟩ := h
    exact absurd h (huuid u address)
  · obtain ⟨bundle, -, h⟩ := h
    exact absurd h (not_buffered hbuffer)

theorem uses_taFindTransactionObjects {P : Cmd → Prop} (hP : ∀ c : Cmd, c.Quiet → P c)
    (hget : ∀ h, P (.redis (.get (.txn h)))) (I : Iota) (state : Bool) (hashes : List Hash243) :
    Uses (S := sig) P (taFindTransactionObjects I state hashes).run := by
  have hcached : ∀ hs, Uses (S := sig) P (cachedObjects I state hs).run := by
    intro hs
    induction hs with
    | nil => trivial
    | cons h hs ih =>
        refine Uses.run_bind (uses_run_attempt (Uses.cacheOn (uses_redisCommand.mpr (hget h))))
          fun value => Uses.run_bind ih fun found => ?_
        cases value <;> trivial
  have huncached : ∀ hs arr, Uses (S := sig) P (uncachedObjects hs arr).run := by
    intro hs
    induction hs with
    | nil => intro arr; trivial
    | cons h hs ih =>
        intro arr
        refine Uses.run_bind (uses_request hP trivial) fun txs => ?_
        exact Uses.run_bind (uses_run_demand _ _) fun txs => ih _
  have happend : ∀ txs, Uses (S := sig) P (appendObjects I txs).run := by
    intro txs
    induction txs with
    | nil => trivial
    | cons tx txs ih =>
        refine Uses.run_bind (uses_request hP trivial) fun ok => ?_
        refine Uses.run_bind (uses_run_ensure _ _) fun _ => ?_
        exact Uses.run_bind ih fun _ => trivial
  refine Uses.run_bind (hcached _) fun found => ?_
  refine Uses.run_bind (huncached _ _) fun arr => ?_
  exact Uses.run_bind (happend _) fun _ => trivial

/-- Answering with a transaction object reads the cache only, and never mentions a UUID. -/
theorem runs_answerTransfer_ok {state : Bool} {hashes : List Hash243}
    {r : Except Status TransferAnswer}
    (h : Runs world (answerTransfer I state { hash := hashes } (.ok ())).run w τ r w') :
    w'.redis (.list .buffer) = w.redis (.list .buffer) ∧
      (∀ u address, r ≠ .ok (.uuid u address)) ∧ r ≠ .ok .unset := by
  refine ⟨served_key h.2 (Uses.path (P := fun c : Cmd => ¬ c.WritesKey (.list .buffer)) ?_ h.1), ?_⟩
  · refine Uses.run_bind (uses_run_demand _ _) fun hash => ?_
    refine Uses.run_bind (uses_taFindTransactionObjects ?_ ?_ ..) fun txns => ?_
    · intro c hc
      cases c with
      | redis c => exact hc.elim
      | _ => exact fun h => h
    · exact fun _ h => h.1
    · exact Uses.run_bind (uses_run_demand _ _) fun _ => trivial
  · rw [answerTransfer, runs_run_bind] at h
    rcases h with ⟨e, rfl, -⟩ | ⟨hash, τ₁, τ₂, w₁, -, -, h⟩
    · exact ⟨nofun, nofun⟩
    rw [runs_run_bind] at h
    rcases h with ⟨e, rfl, -⟩ | ⟨txns, τ₃, τ₄, w₂, -, -, h⟩
    · exact ⟨nofun, nofun⟩
    unfold taSendTransferResSerialize at h
    rw [runs_run_bind] at h
    rcases h with ⟨e, rfl, -⟩ | ⟨tx, τ₅, τ₆, w₃, -, -, h⟩
    · exact ⟨nofun, nofun⟩
    obtain ⟨-, rfl, -⟩ := (runs_run_pure ..).mp h
    exact ⟨nofun, nofun⟩

/-- What the rest of `api_send_transfer` does with a failed status. -/
theorem runs_answerTransfer_error {res : SendTransferRes} {e : Status}
    {r : Except Status TransferAnswer} {state : Bool}
    (h : Runs world (answerTransfer I state res (.error e)).run w τ r w') :
    τ = [] ∧ w' = w ∧ if e = .cclientFailedResponse
      then r = .ok (res.uuid.elim .unset fun u => .uuid u res.address) else r = .error e := by
  unfold answerTransfer at h
  split at h
  · rename_i heq
    obtain rfl := Except.error.inj heq
    cases hu : res.uuid with
    | none =>
        unfold taSendTransferResSerialize at h
        rw [hu] at h
        obtain ⟨rfl, rfl, rfl⟩ := (runs_run_pure ..).mp h
        exact ⟨rfl, rfl, rfl⟩
    | some u =>
        unfold taSendTransferResSerialize at h
        rw [hu] at h
        obtain ⟨rfl, rfl, rfl⟩ := (runs_run_pure ..).mp h
        exact ⟨rfl, rfl, rfl⟩
  · rename_i hne heq
    obtain rfl := Except.error.inj heq
    obtain ⟨rfl, rfl, rfl⟩ := (runs_run_throw ..).mp h
    refine ⟨rfl, rfl, ?_⟩
    rw [if_neg hne]
  · rename_i heq
    cases heq

/-- By the pattern of its `ta_send_transfer`, whether a call reports what it stored. -/
theorem Transferred.reported_iff {p : TransferPattern} {res : SendTransferRes}
    {ret : Except Status Unit} {τ₂ : List (Event sig)} {w₁ : World}
    {r : Except Status TransferAnswer} (ht : Transferred I core req w p τ res ret w₁)
    (h : Runs world (answerTransfer I core.cache.state res ret).run w₁ τ₂ r w') :
    p.Of I core req (τ ++ τ₂) ∧ (Reported I w (τ ++ τ₂) r w' ↔ p.Handled) := by
  cases ht with
  | notPrepared hprepare hredis =>
      rename_i e
      obtain ⟨rfl, rfl, hr⟩ := runs_answerTransfer_error h
      rw [List.append_nil]
      refine ⟨hprepare, fun hrep he => ?_, fun he => ?_⟩
      · rw [if_pos he] at hr
        exact hrep.set hr
      · rw [if_neg he] at hr
        exact reported_of_not_buffered (by rw [hredis]) (by rw [hr]; nofun) (by rw [hr]; nofun)
  | notSent hprepare hsend hstore hok hfail =>
      rename_i bundle raw u τ₃ τ₄ τ₅ e stored
      obtain ⟨rfl, rfl, hr⟩ := runs_answerTransfer_error h
      rw [List.append_nil]
      obtain ⟨hraw, transfers, hbundle⟩ := path_prepareBundle hprepare
      have hof : BundleOf (τ₃ ++ (τ₄ ++ ⟨.uuidGenerateRandom, u⟩ :: τ₅)) bundle :=
        ⟨transfers, List.mem_append_left _ hbundle⟩
      refine ⟨⟨bundle, raw, u, τ₃, τ₄, τ₅, rfl, hprepare, hsend, hstore⟩, ?_⟩
      by_cases he : e = .cclientFailedResponse
      · rw [if_pos he] at hr
        rw [hr, Option.elim_some, reported_uuid_iff]
        constructor
        · rintro ⟨bundle', -, hb⟩
          exact iff_of_true he (by_contra fun hst => not_buffered (hfail hst) hb)
        · intro hh
          exact ⟨bundle, hof, hraw ▸ hok (hh.mp he)⟩
      · rw [if_neg he] at hr
        rw [hr, reported_error_iff]
        constructor
        · intro hnone
          exact iff_of_false he fun hst => hnone u bundle hof (hraw ▸ hok hst)
        · intro hh v bundle' _
          exact not_buffered (hfail fun hst => he (hh.mpr hst))
  | notFound hprepare hsend hredis =>
      obtain ⟨rfl, rfl, hr⟩ := runs_answerTransfer_error h
      rw [List.append_nil]
      refine ⟨⟨_, _, _, _, _, _, [], rfl, hprepare, hsend⟩, fun hrep => ?_, fun hh => absurd rfl hh⟩
      exact absurd hr hrep.set
  | found hprepare hsend hredis =>
      rename_i find _ _ _
      obtain ⟨hkey, huuid, hset⟩ := runs_answerTransfer_ok h
      refine ⟨⟨_, _, _, find, _, _, τ₂, by simp, hprepare, hsend⟩, fun _ => nofun, fun _ => ?_⟩
      refine reported_of_not_buffered ?_ huuid hset
      rw [Redis.items, Redis.items, hkey, hredis]

/-- For every request, every world and every run of `api_send_transfer`: the client is told the
truth exactly when the failures of the run form a pattern that its status describes. -/
theorem apiSendTransfer_reported_iff (I : Iota) (core : TaCore) (req : SendTransferReq)
    (w w' : World) (τ : List (Event sig)) (r : Except Status TransferAnswer)
    (h : Runs world (apiSendTransfer I core req).run w τ r w') :
    Reported I w τ r w' ↔ ∃ p : TransferPattern, p.Of I core req τ ∧ p.Handled := by
  rw [apiSendTransfer, runs_run_bind] at h
  rcases h with ⟨e, -, h⟩ | ⟨⟨res, ret⟩, τ₁, τ₂, w₁, rfl, h₁, h₂⟩
  · obtain ⟨p, res, ret, hr, -⟩ := runs_taSendTransfer h
    cases hr
  obtain ⟨p, res', ret', hr, ht⟩ := runs_taSendTransfer h₁
  cases hr
  obtain ⟨hp, hiff⟩ := ht.reported_iff h₂
  rw [hiff]
  constructor
  · intro hh
    exact ⟨p, hp, hh⟩
  · intro hh
    obtain ⟨q, hq, hh⟩ := hh
    rwa [hp.unique hq]

namespace Sample

/-- A transfer of nothing. -/
def transfer : SendTransferReq where
  tag := Vector.replicate 27 0
  address := Vector.replicate 81 0
  message := []

/-- The node does not accept the bundle. -/
def rejected : (c : Cmd) → Choice c
  | .storeAndBroadcast _ => false
  | c => good c

/-- The node does not accept the bundle, and Redis refuses. -/
def refused : (c : Cmd) → Choice c
  | .redis _ => true
  | c => rejected c

/-- The node prepares no bundle. -/
def unprepared : (c : Cmd) → Choice c
  | .prepareTransfers _ => none
  | c => good c

/-- There is no proof of work. -/
def unworked : (c : Cmd) → Choice c
  | .dcurlEntry _ _ => none
  | c => good c

end Sample

/-- A bundle the node rejects is buffered, and the client gets its UUID. -/
theorem apiSendTransfer_reported_rejected :
    ∃ τ r w', Runs world (apiSendTransfer Sample.iota Sample.core Sample.transfer).run
        Sample.buffered τ r w' ∧
      (∃ address, r = .ok (.uuid 2#128 address)) ∧ Reported Sample.iota Sample.buffered τ r w' := by
  have hrun := runs_exec (V := world)
    (apiSendTransfer Sample.iota Sample.core Sample.transfer).run (fun _ => Sample.rejected)
    Sample.buffered
  refine ⟨_, _, _, hrun, ⟨_, rfl⟩, (apiSendTransfer_reported_iff _ _ _ _ _ _ _ hrun).mpr ?_⟩
  have hprepare := path_exec (V := world) (prepareBundle Sample.iota Sample.transfer).run
    (fun _ => Sample.rejected) Sample.buffered
  have hsend := path_exec (V := world)
    (taSendTrytes Sample.iota Sample.core.taConf Sample.core.iotaConf [Sample.trytes]).run
    (fun _ => Sample.rejected) Sample.buffered
  have hstore := path_exec (V := world) (bufferTxn Sample.core.cache [Sample.trytes] 2#128).run
    (fun _ => Sample.rejected) Sample.buffered
  exact ⟨.notSent .cclientFailedResponse (.ok ()),
    ⟨[Sample.txn], [Sample.trytes], 2#128, _, _, _, rfl, hprepare, hsend, hstore⟩,
    iff_of_true rfl rfl⟩

/-- Three calls that do not report what they stored: an answer from fields that are not set, a
buffered bundle that the client only hears an error about, and a UUID of a bundle that is not
stored. -/
theorem apiSendTransfer_misreports :
    (∃ τ w', Runs world (apiSendTransfer Sample.iota Sample.core Sample.transfer).run
      Sample.buffered τ (.ok .unset) w') ∧
    (∃ τ w', Runs world (apiSendTransfer Sample.iota Sample.core Sample.transfer).run
        Sample.buffered τ (.error .oom) w' ∧
      Redis.items w'.redis (.uuid 2#128) = [Sample.trytes] ∧
      Redis.items w'.redis (.list .buffer) = [2#128, 1#128]) ∧
    ∃ τ address w', Runs world (apiSendTransfer Sample.iota Sample.core Sample.transfer).run
        Sample.buffered τ (.ok (.uuid 2#128 address)) w' ∧
      Redis.items w'.redis (.uuid 2#128) = [] ∧
      Redis.items w'.redis (.list .buffer) = [1#128] :=
  ⟨⟨_, _, runs_exec (V := world) _ (fun _ => Sample.unprepared) _⟩,
    ⟨_, _, runs_exec (V := world) _ (fun _ => Sample.unworked) _, rfl, rfl⟩,
    ⟨_, _, _, runs_exec (V := world) _ (fun _ => Sample.refused) _, rfl, rfl⟩⟩

end TangleAccelerator
