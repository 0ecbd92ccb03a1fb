import TangleAccelerator.Core.PeriodicalTask
import TangleAccelerator.Core.Transfer

/-!
# What the functions touch

For each function, which commands it can issue, whatever the answers are.  The functions
that prepare what is sent issue `Quiet` commands only.  The functions that send also offer
bundles to the node, and a MAM send may write an announcement.  None of these touches the
cache.  The functions of the buffer issue Redis commands on the keys their arguments name.
-/

namespace TangleAccelerator

open Effect

variable {P : Cmd → Prop} {α : Type}

/-! ## Off the cache -/

theorem uses_request {ε : Type} {Q : Cmd → Prop} (hP : ∀ c, Q c → P c) {c : Cmd} (hc : Q c) :
    Uses (S := sig) P (request c : ExceptT ε (Prog sig) c.Ans).run :=
  (uses_run_request c).mpr (hP c hc)

section Attach

variable (hP : ∀ c : Cmd, c.Attaches → P c)
include hP

theorem uses_taPowLoop (I : Iota) (branch : Hash243) (mwm : Nat) (txs : List Transaction)
    (curIdx : UInt64) (ctrunk : Hash243) (done : List Transaction) :
    Uses (S := sig) P (taPowLoop I branch mwm txs curIdx ctrunk done).run := by
  induction txs generalizing curIdx ctrunk done with
  | nil => trivial
  | cons tx prev ih =>
      refine Uses.run_bind (uses_request hP trivial) fun timestamp => ?_
      refine Uses.run_bind (uses_request hP trivial) fun ok => ?_
      refine Uses.run_bind (uses_run_ensure _ _) fun _ => ?_
      refine Uses.run_bind ?_ fun ret => ?_
      · exact Uses.run_bind (uses_request hP trivial) fun _ => trivial
      refine Uses.run_bind (uses_run_demand _ _) fun nonce => ?_
      split
      · trivial
      · exact ih ..

theorem uses_serializeBundle (I : Iota) (txs : List Transaction) :
    Uses (S := sig) P (serializeBundle I txs).run := by
  induction txs with
  | nil => trivial
  | cons tx txs ih =>
      refine Uses.run_bind (uses_request hP trivial) fun ok => ?_
      refine Uses.run_bind (uses_run_ensure _ _) fun _ => ?_
      exact Uses.run_bind ih fun _ => trivial

theorem uses_taAttachToTangle (I : Iota) (trytes : List Hash8019) (tips : Hash243 × Hash243)
    (mwm : Nat) : Uses (S := sig) P (taAttachToTangle I trytes tips mwm).run := by
  refine Uses.run_bind ?_ fun bundle => uses_serializeBundle hP I bundle
  exact Uses.run_bind (uses_run_demand _ _) fun tx => uses_taPowLoop hP ..

theorem uses_transactionsToApprove (I : Iota) (info : TaConfig) (iconf : IotaConfig) :
    Uses (S := sig) P (transactionsToApprove I info iconf).run := by
  unfold transactionsToApprove
  split
  · exact Uses.run_bind (uses_request hP trivial) fun _ => uses_run_demand _ _
  · trivial

theorem uses_taSendTrytes (hsend : ∀ t, P (.storeAndBroadcast t)) (I : Iota) (info : TaConfig)
    (iconf : IotaConfig) (trytes : List Hash8019) :
    Uses (S := sig) P (taSendTrytes I info iconf trytes).run := by
  refine Uses.run_bind (uses_transactionsToApprove hP ..) fun tips => ?_
  refine Uses.run_bind (uses_taAttachToTangle hP ..) fun attached => ?_
  refine Uses.run_bind ((uses_run_request _).mpr (hsend attached)) fun ok => ?_
  exact Uses.run_bind (uses_run_ensure _ _) fun _ => trivial

theorem uses_taSendBundle (hsend : ∀ t, P (.storeAndBroadcast t)) (I : Iota) (info : TaConfig)
    (iconf : IotaConfig) (bundle : List Transaction) :
    Uses (S := sig) P (taSendBundle I info iconf bundle).run :=
  Uses.run_bind (uses_run_attempt (uses_taSendTrytes hP hsend ..)) fun _ => trivial

end Attach

section Mam

variable (M : MamLib)

theorem uses_withApi (api : M.Api) {x : Proc α} (h : Uses (S := sig) P x.run) :
    Uses (S := sig) P (withApi M api x).run := by
  refine Uses.run_bind (uses_run_attempt h) fun r => ?_
  cases r <;> trivial

theorem uses_mamCall (api : M.Api) {f : MamCall} (hf : P (.mam f)) (e : Status) :
    Uses (S := sig) P (mamCall M api f e).run :=
  Uses.run_bind ((uses_run_request _).mpr hf) fun _ => uses_run_ensure _ _

theorem uses_searchKey (hwrite : P (.mam .writeHeaderOnChannel)) (keys : MamEncryptKey)
    (chid : Hash243) (tagArray : List Hash81) (remain : Nat) (used : Int) (api : M.Api) :
    Uses (S := sig) P (searchKey M keys chid tagArray remain used api).run := by
  induction remain generalizing used api with
  | zero => trivial
  | succ remain ih =>
      refine Uses.run_bind (uses_mamCall M _ hwrite _) fun _ => ?_
      dsimp only
      split
      · split
        · trivial
        · exact ih ..
      · trivial

section SetUp

variable (hP : ∀ c : Cmd, c.SetsUp → P c)
include hP

theorem uses_setPsks (psks : List (Vector Tryte 81)) (keys : MamEncryptKey) :
    Uses (S := sig) P (setPsks psks keys).run := by
  induction psks generalizing keys with
  | nil => trivial
  | cons psk psks ih =>
      refine Uses.run_bind (uses_run_settle _) fun pskId => ?_
      refine Uses.run_bind (uses_request hP trivial) fun ok => ?_
      exact Uses.run_bind (uses_run_ensure _ _) fun _ => ih _

theorem uses_setNtruPks (pks : List (Vector Tryte 1024)) (keys : MamEncryptKey) :
    Uses (S := sig) P (setNtruPks pks keys).run := by
  induction pks generalizing keys with
  | nil => trivial
  | cons pk pks ih =>
      refine Uses.run_bind (uses_request hP trivial) fun ok => ?_
      exact Uses.run_bind (uses_run_ensure _ _) fun _ => ih _

theorem uses_taSetMamKey (psks : List (Vector Tryte 81)) (pks : List (Vector Tryte 1024)) :
    Uses (S := sig) P (taSetMamKey psks pks).run :=
  Uses.run_bind (uses_setPsks hP psks {}) fun keys => uses_setNtruPks hP pks keys

theorem uses_taMamInit (iconf : IotaConfig) (seed : Option Hash243) :
    Uses (S := sig) P (taMamInit M iconf seed).run := by
  cases seed with
  | some seed =>
      refine Uses.run_bind (uses_request hP trivial) fun ok => ?_
      exact Uses.run_bind (uses_run_ensure _ _) fun _ => trivial
  | none =>
      refine Uses.run_bind (uses_request hP trivial) fun file => ?_
      cases file with
      | loaded bytes => trivial
      | failed => trivial
      | openFailed =>
          refine Uses.run_bind (uses_request hP trivial) fun ok => ?_
          exact Uses.run_bind (uses_run_ensure _ _) fun _ => trivial

theorem uses_mamDone (seed : Option Hash243) (api : M.Api) (ret : Except Status SendMamRes) :
    Uses (S := sig) P (mamDone M seed api ret).run := by
  unfold mamDone
  split
  · trivial
  · refine Uses.run_bind ?_ fun saved => ?_
    · cases seed with
      | some seed => trivial
      | none => exact uses_request hP trivial
    · exact Uses.run_bind (uses_request hP trivial) fun _ => uses_run_settle _

end SetUp

section Search

variable (hP : ∀ c : Cmd, c.Searches → P c)
include hP

theorem uses_getTxnObjects (hashes : List Hash243) :
    Uses (S := sig) P (getTxnObjects hashes).run := by
  induction hashes with
  | nil => trivial
  | cons h hs ih =>
      refine Uses.run_bind (uses_request hP trivial) fun txs => ?_
      refine Uses.run_bind (uses_run_demand _ _) fun txs => ?_
      exact Uses.run_bind ih fun _ => trivial

theorem uses_taGetTxnObjectsWithTxnHash (req : FindTransactionsReq) :
    Uses (S := sig) P (taGetTxnObjectsWithTxnHash req).run := by
  refine Uses.run_bind (uses_request hP trivial) fun hashes => ?_
  exact Uses.run_bind (uses_run_demand _ _) fun hashes => uses_getTxnObjects hP hashes

theorem uses_mamApiChannelCreate (api : M.Api) (depth : Nat) :
    Uses (S := sig) P (mamApiChannelCreate M api depth).run :=
  Uses.run_bind (uses_mamCall M _ (hP (.mam .channelCreate) trivial) _) fun _ => trivial

theorem uses_createChannelFetchAllTransactions (api : M.Api) (depth : Nat) (firstIter : Bool)
    (chid : Hash243) :
    Uses (S := sig) P (createChannelFetchAllTransactions M api depth firstIter chid).run := by
  have hch : Uses (S := sig) P (currentChannel M api depth firstIter chid).run := by
    cases firstIter with
    | true => trivial
    | false => exact uses_mamApiChannelCreate M hP api depth
  refine Uses.run_bind hch fun ch => ?_
  refine Uses.run_bind (uses_withApi M _ ?_) fun txs => trivial
  exact uses_taGetTxnObjectsWithTxnHash hP _

theorem uses_isSettingChanged (api : M.Api) (depth : Nat) (chid : Hash243) :
    Uses (S := sig) P (isSettingChanged M api depth chid).run := by
  refine Uses.run_bind (uses_run_attempt (uses_mamApiChannelCreate M hP api depth)) fun r => ?_
  cases r with
  | error e => trivial
  | ok ch =>
      refine Uses.run_bind (uses_request hP trivial) fun txs => ?_
      cases txs <;> trivial

theorem uses_findStartingChid (depth : Nat) (target : Hash243) (left : Nat) (chid : Hash243)
    (api : M.Api) : Uses (S := sig) P (findStartingChid M depth target left chid api).run := by
  induction left generalizing chid api with
  | zero =>
      unfold findStartingChid
      split
      · trivial
      · exact Uses.run_bind (uses_mamApiChannelCreate M hP api depth) fun ch => trivial
  | succ left ih =>
      unfold findStartingChid
      split
      · trivial
      · exact Uses.run_bind (uses_mamApiChannelCreate M hP api depth) fun ch => ih ..

theorem uses_searchChannel (keys : MamEncryptKey) (depth fuel : Nat) (firstIter : Bool)
    (chid : Hash243) (api : M.Api) :
    Uses (S := sig) P (searchChannel M keys depth fuel firstIter chid api).run := by
  induction fuel generalizing firstIter chid api with
  | zero => trivial
  | succ fuel ih =>
      refine Uses.run_bind (uses_createChannelFetchAllTransactions M hP ..) fun ch => ?_
      refine Uses.run_bind (uses_searchKey M (hP _ trivial) ..) fun k => ?_
      cases k with
      | none => trivial
      | some k =>
          dsimp only
          split
          · trivial
          · split
            · exact ih ..
            · trivial

theorem uses_taMamWrittenMsgToBundle (fuel : Nat) (api : M.Api) (depth : Int)
    (target : Option Hash243) (keys : MamEncryptKey) (payload : String) :
    Uses (S := sig) P (taMamWrittenMsgToBundle M fuel api depth target keys payload).run := by
  have hstart : Uses (S := sig) P (startingChannel M depth.toNat api target).run := by
    cases target with
    | none => trivial
    | some target =>
        refine Uses.run_bind (uses_isSettingChanged M hP ..) fun r => ?_
        dsimp only
        split
        · trivial
        · exact uses_findStartingChid M hP ..
  refine Uses.run_bind (uses_run_ensure _ _) fun _ => ?_
  refine Uses.run_bind hstart fun ch => ?_
  refine Uses.run_bind (uses_searchChannel M hP ..) fun r => ?_
  cases r with
  | none => trivial
  | some r =>
      exact Uses.run_bind (uses_mamCall M _ (hP (.mam .writePacket) trivial) _) fun _ => trivial

end Search

section Send

variable (hP : ∀ c : Cmd, c.Quiet → P c)
include hP

variable (hsend : ∀ t, P (.storeAndBroadcast t)) (hannounce : P (.mam .announceChannel))
include hsend hannounce

theorem uses_sendWritten (I : Iota) (info : TaConfig) (iconf : IotaConfig) (depth : Nat)
    (keys : MamEncryptKey) (wr : Written M) :
    Uses (S := sig) P (sendWritten I M info iconf depth keys wr).run := by
  have hbundle : ∀ bundle, Uses (S := sig) P (taSendBundle I info iconf bundle).run :=
    fun bundle => uses_taSendBundle (fun c hc => hP c hc.quiet) hsend ..
  refine Uses.run_bind (uses_withApi M _ (hbundle _)) fun bundle => ?_
  dsimp only
  split
  · trivial
  · refine Uses.run_bind ?_ fun r => ?_
    · refine Uses.run_bind (uses_mamApiChannelCreate M (fun c hc => hP c hc.quiet) ..) fun ch => ?_
      exact Uses.run_bind (uses_mamCall M _ hannounce _) fun _ => trivial
    · exact Uses.run_bind (uses_withApi M _ (hbundle _)) fun _ => trivial

theorem uses_sendMamBody (I : Iota) (fuel : Nat) (info : TaConfig) (iconf : IotaConfig)
    (req : SendMamReq) (api : M.Api) :
    Uses (S := sig) P (sendMamBody I M fuel info iconf req api).run := by
  refine Uses.run_bind (uses_withApi M _ ?_) fun keys => ?_
  · exact uses_taSetMamKey (fun c hc => hP c hc.quiet) ..
  refine Uses.run_bind (uses_request hP trivial) fun sec => ?_
  refine Uses.run_bind (uses_taMamWrittenMsgToBundle M (fun c hc => hP c hc.quiet) ..) fun r => ?_
  cases r with
  | none => trivial
  | some wr => exact Uses.run_bind (uses_sendWritten M hP hsend hannounce ..) fun _ => trivial

/-- A MAM send does not touch the cache. -/
theorem uses_taSendMamMessage (I : Iota) (fuel : Nat) (info : TaConfig) (iconf : IotaConfig)
    (req : SendMamReq) :
    Uses (S := sig) P (taSendMamMessage I M fuel info iconf req).run := by
  have hdone : ∀ api ret, Uses (S := sig) P (some <$> mamDone M req.seed api ret).run := by
    intro api ret
    rw [map_eq_pure_bind]
    exact Uses.run_bind (uses_mamDone M (fun c hc => hP c hc.quiet) ..) fun _ => trivial
  refine Uses.run_bind (uses_taMamInit M (fun c hc => hP c hc.quiet) ..) fun api => ?_
  refine Uses.run_bind (uses_run_attempt (uses_sendMamBody M hP hsend hannounce ..)) fun r => ?_
  rcases r with ⟨e, api'⟩ | ⟨_ | res, api'⟩
  · exact hdone ..
  · trivial
  · exact hdone ..

end Send

end Mam

/-! ## On the cache -/

section Cache

variable {state : Bool}

theorem uses_cacheListRead {key : Key} (h : ∀ i, P (.redis (.lindex key i))) (is : List Nat) :
    Uses (S := sig) P (cacheListRead state key is).run := by
  induction is with
  | nil => trivial
  | cons i is ih =>
      refine Uses.run_bind (Uses.cacheOn (uses_redisCommand.mpr (h i))) fun e => ?_
      exact Uses.run_bind ih fun _ => trivial

theorem uses_cacheListPushAll {key : Key} (h : ∀ e, P (.redis (.lpush key e)))
    (es : List key.Elem) : Uses (S := sig) P (cacheListPushAll state key es).run := by
  induction es with
  | nil => trivial
  | cons e es ih =>
      exact Uses.run_bind (Uses.cacheOn (uses_redisCommand.mpr (h e))) fun _ => ih

theorem uses_cacheListExist {n : ListName} (hlen : P (.redis (.llen (.list n))))
    (hat : ∀ i, P (.redis (.lindex (.list n) i))) (u : Uuid) :
    Uses (S := sig) P (cacheListExist state n u).run := by
  have hloop : ∀ is exist ret, Uses (S := sig) P (redisListExistLoop n u is exist ret).run := by
    intro is
    induction is with
    | nil =>
        intro exist ret
        exact Uses.run_bind (uses_run_settle _) fun _ => trivial
    | cons i is ih =>
        intro exist ret
        refine Uses.run_bind (uses_run_attempt (uses_redisCommand.mpr (hat i))) fun r => ?_
        cases r <;> exact ih ..
  refine Uses.cacheOn (Uses.run_bind (uses_run_attempt (uses_redisCommand.mpr hlen)) fun r => ?_)
  cases r <;> exact hloop ..

theorem uses_unlockLogged (h : P .unlock) : Uses (S := sig) P unlockLogged.run :=
  Uses.run_bind ((uses_run_request _).mpr h) fun _ => trivial

variable (hP : ∀ c : Cmd, ¬ c.OnCache → P c)
include hP

/-- Between its peek and its pop a broadcast of transactions works on the key of the UUID. -/
theorem uses_publishTxn (I : Iota) (core : TaCore) {u : Uuid}
    (hkey : ∀ c : Redis.Cmd Key Key.Elem, c.key = .uuid u → P (.redis c))
    (hlock : P .trywrlock) : Uses (S := sig) P (publishTxn I core u).run := by
  refine Uses.run_bind (Uses.cacheOn (uses_redisCommand.mpr (hkey _ rfl))) fun len => ?_
  refine Uses.run_bind (uses_cacheListRead (fun i => hkey _ rfl) _) fun trytes => ?_
  refine Uses.run_bind
    (uses_taSendTrytes (fun c hc => hP c hc.quiet.not_onCache) (fun _ => hP _ id) ..)
    fun attached => ?_
  refine Uses.run_bind ((uses_run_request _).mpr (hP _ id)) fun stored => ?_
  refine Uses.run_bind (uses_run_demand _ _) fun stored => ?_
  refine Uses.run_bind (Uses.cacheOn (uses_redisCommand.mpr (hkey _ rfl))) fun _ => ?_
  refine Uses.run_bind (uses_cacheListPushAll (fun e => hkey _ rfl) _) fun _ => ?_
  refine Uses.run_bind ((uses_run_request _).mpr hlock) fun ok => ?_
  exact Uses.run_bind (uses_run_ensure _ _) fun _ => trivial

/-- Between its peek and its pop a broadcast of MAM requests works on the key of the UUID. -/
theorem uses_publishMam (I : Iota) (M : MamLib) (J : Codec) (core : TaCore) (fuel : Nat) {u : Uuid}
    (hkey : ∀ c : Redis.Cmd Key Key.Elem, c.key = .uuid u → P (.redis c))
    (hlock : P .trywrlock) : Uses (S := sig) P (publishMam I M J core fuel u).run := by
  refine Uses.run_bind (Uses.cacheOn (uses_redisCommand.mpr (hkey _ rfl))) fun json => ?_
  refine Uses.run_bind (uses_run_settle _) fun req => ?_
  refine Uses.run_bind (uses_taSendMamMessage M (fun c hc => hP c hc.not_onCache)
    (fun _ => hP _ id) (hP _ id) ..) fun res => ?_
  cases res with
  | none => trivial
  | some res =>
      refine Uses.run_bind ((uses_run_request _).mpr hlock) fun ok => ?_
      refine Uses.run_bind (uses_run_ensure _ _) fun _ => ?_
      refine Uses.run_bind (Uses.cacheOn (uses_redisCommand.mpr (hkey _ rfl))) fun _ => ?_
      exact Uses.run_bind (Uses.cacheOn (uses_redisCommand.mpr (hkey _ rfl))) fun _ => trivial

/-- A push works on the key of its new UUID and pushes on the buffer list. -/
theorem uses_pushTxnToBuffer (cache : TaCache) (trytes : List Hash8019)
    (hkey : ∀ (u : Uuid) (c : Redis.Cmd Key Key.Elem), c.key = .uuid u → P (.redis c))
    (hpush : ∀ u : Uuid, P (.redis (.lpush (.list .buffer) u))) :
    Uses (S := sig) P (pushTxnToBuffer cache trytes).run := by
  refine Uses.run_bind ((uses_run_request _).mpr (hP _ id)) fun u => ?_
  refine Uses.run_bind (uses_run_attempt ?_) fun ret => trivial
  refine Uses.run_bind (uses_cacheListPushAll (fun e => hkey u _ rfl) _) fun _ => ?_
  exact Uses.cacheOn (uses_redisCommand.mpr (hpush u))

/-- A MAM request works on the key of its new UUID and pushes on the MAM buffer list. -/
theorem uses_apiSendMamMessage (J : Codec) (cache : TaCache) (obj : String)
    (hkey : ∀ (u : Uuid) (c : Redis.Cmd Key Key.Elem), c.key = .uuid u → P (.redis c))
    (hpush : ∀ u : Uuid, P (.redis (.lpush (.list .mamBuffer) u))) :
    Uses (S := sig) P (apiSendMamMessage J cache obj).run := by
  refine Uses.run_bind (uses_run_settle _) fun _ => ?_
  refine Uses.run_bind ((uses_run_request _).mpr (hP _ id)) fun u => ?_
  refine Uses.run_bind (Uses.cacheOn (uses_redisCommand.mpr (hkey u _ rfl))) fun _ => ?_
  exact Uses.run_bind (Uses.cacheOn (uses_redisCommand.mpr (hpush u))) fun _ => trivial

omit hP in
/-- A fetch of transactions reads, deletes what is stored under the UUID, and pops the complete
list. -/
theorem uses_taFetchTxnWithUuid (I : Iota) (cache : TaCache) (u : Uuid)
    (hlock : ∀ c : Cmd, c.OnLock → P c)
    (hread : ∀ c : Redis.Cmd Key Key.Elem, ¬ c.Writes → P (.redis c))
    (hdel : P (.redis (.del (.uuid u)))) (hpop : P (.redis (.lpop (.list .complete)))) :
    Uses (S := sig) P (taFetchTxnWithUuid I cache u).run := by
  have hexist : ∀ n, Uses (S := sig) P (cacheListExist cache.state n u).run := fun n =>
    uses_cacheListExist (hread _ fun h => h) (fun i => hread _ fun h => h) u
  have hunlock : Uses (S := sig) P unlockLogged.run := uses_unlockLogged (hlock _ trivial)
  refine Uses.run_bind ((uses_run_request _).mpr (hlock _ trivial)) fun ok => ?_
  refine Uses.run_bind (uses_run_ensure _ _) fun _ => ?_
  refine Uses.run_bind (uses_run_attempt (hexist _)) fun r => ?_
  rcases r with e | _ | _
  · exact Uses.run_bind hunlock fun _ => trivial
  · refine Uses.run_bind (hexist _) fun b => ?_
    cases b with
    | false => exact Uses.run_bind hunlock fun _ => trivial
    | true =>
        refine Uses.run_bind (Uses.cacheOn (uses_redisCommand.mpr (hread _ fun h => h)))
          fun len => ?_
        refine Uses.run_bind hunlock fun _ => ?_
        refine Uses.run_bind (uses_cacheListRead (fun i => hread _ fun h => h) _) fun trytes => ?_
        refine Uses.run_bind (Uses.cacheOn (uses_redisCommand.mpr hdel)) fun _ => ?_
        exact Uses.run_bind (Uses.cacheOn (uses_redisCommand.mpr hpop)) fun _ => trivial
  · exact Uses.run_bind hunlock fun _ => trivial

omit hP in
/-- A fetch of a MAM result does the same with the MAM lists. -/
theorem uses_taFetchMamWithUuid (cache : TaCache) (u : Uuid)
    (hlock : ∀ c : Cmd, c.OnLock → P c)
    (hread : ∀ c : Redis.Cmd Key Key.Elem, ¬ c.Writes → P (.redis c))
    (hdel : P (.redis (.del (.uuid u)))) (hpop : P (.redis (.lpop (.list .mamComplete)))) :
    Uses (S := sig) P (taFetchMamWithUuid cache u).run := by
  have hexist : ∀ n, Uses (S := sig) P (cacheListExist cache.state n u).run := fun n =>
    uses_cacheListExist (hread _ fun h => h) (fun i => hread _ fun h => h) u
  have hunlock : Uses (S := sig) P unlockLogged.run := uses_unlockLogged (hlock _ trivial)
  refine Uses.run_bind ((uses_run_request _).mpr (hlock _ trivial)) fun ok => ?_
  refine Uses.run_bind (uses_run_ensure _ _) fun _ => ?_
  refine Uses.run_bind (uses_run_attempt (hexist _)) fun r => ?_
  rcases r with e | _ | _
  · exact Uses.run_bind hunlock fun _ => trivial
  · refine Uses.run_bind (uses_run_attempt (hexist _)) fun r => ?_
    rcases r with e | _ | _
    · exact Uses.run_bind hunlock fun _ => trivial
    · exact Uses.run_bind hunlock fun _ => trivial
    · refine Uses.run_bind hunlock fun _ => ?_
      refine Uses.run_bind (Uses.cacheOn (uses_redisCommand.mpr (hread _ fun h => h))) fun res => ?_
      refine Uses.run_bind (Uses.cacheOn (uses_redisCommand.mpr hdel)) fun _ => ?_
      exact Uses.run_bind (Uses.cacheOn (uses_redisCommand.mpr hpop)) fun _ => trivial
  · exact Uses.run_bind hunlock fun _ => trivial

end Cache

end TangleAccelerator
