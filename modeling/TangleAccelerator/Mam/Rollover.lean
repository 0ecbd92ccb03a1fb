import TangleAccelerator.Buffer.Attach
import TangleAccelerator.Mam.Message

/-!
# From channel to channel

`ta_send_mam_message` starts from the seed each time.  What it knows of the messages before it
stands on the Tangle.  For a seed that nobody else writes on, and a node that returns what was
sent, this is enough: with `m = 2 ^ d - 1`, the message `i` goes to the channel `i / m` with the
key `i % m`, and the last message of a channel is followed by an announcement of the next one,
made with the key `m`.

The invariant is `Ledger n`: after `n` messages, the IDs on the channel `k` are those of its
first `keysUsed d n k` keys.  A call that starts from `Ledger n` skips the channels that are
full, stops on the channel `n / m` at the key `n % m`, and ends in `Ledger (n + 1)`.

`MamChannels` and `IotaLabels` are what is assumed of the libraries, and `Faithful` is what is
assumed of the node.
-/

namespace TangleAccelerator

open Effect

/-! ## The library -/

/-- The channels of a seed, and the bundles on a channel. -/
structure MamChannels (M : MamLib) extends MamIds M where
  /-- The ID of a channel: a function of the seed, the depth and the ordinal. -/
  chan : Hash243 → Nat → Nat → Hash243
  /-- The seed, and how many channels were created. -/
  place : M.Api → Hash243 × Nat
  place_init : ∀ seed, place (M.apiInit seed) = (seed, 0)
  create_id : ∀ api d, (M.channelCreate api d).1 = chan (place api).1 d (place api).2
  place_create : ∀ api d, place (M.channelCreate api d).2 = ((place api).1, (place api).2 + 1)
  place_write : ∀ api chid keys, place (M.writeHeaderOnChannel api chid keys).2.2.2 = place api
  place_next : ∀ api chid, place (M.mssNext api chid) = place api
  place_packet : ∀ api id payload bundle, place (M.writePacket api id payload bundle).2 = place api
  headers_create_of_ne : ∀ api d chid, chid ≠ (M.channelCreate api d).1 →
    headers (M.channelCreate api d).2 chid = headers api chid
  headers_packet : ∀ api id payload bundle chid,
    headers (M.writePacket api id payload bundle).2 chid = headers api chid
  /-- The transactions of a header are on the channel and carry the ID. -/
  header_txns : ∀ api chid keys, ∀ tx ∈ (M.writeHeaderOnChannel api chid keys).1 ::
      (M.writeHeaderOnChannel api chid keys).2.1,
    tx.address = chid ∧ msgIdOf tx.tag = msgId chid (headers api chid)
  /-- A packet adds transactions of the same kind. -/
  packet_txns : ∀ api id payload bundle chid, bundle ≠ [] →
    (∀ tx ∈ bundle, tx.address = chid ∧ msgIdOf tx.tag = id) →
    (M.writePacket api id payload bundle).1 ≠ [] ∧
      ∀ tx ∈ (M.writePacket api id payload bundle).1, tx.address = chid ∧ msgIdOf tx.tag = id
  /-- An announcement is written like a header. -/
  announce_txns : ∀ api chid chid1 keys, (M.announceChannel api chid chid1 keys).1 ≠ [] ∧
    ∀ tx ∈ (M.announceChannel api chid chid1 keys).1,
      tx.address = chid ∧ msgIdOf tx.tag = msgId chid (headers api chid)

variable {I : Iota} {M : MamLib} {τ : List (Event sig)} {info : TaConfig} {iconf : IotaConfig}

/-! ## Calls that return -/

/-- A query of the node failed. -/
def QueryFails : Event sig → Bool
  | ⟨.findTransactions _, hashes⟩ => hashes.isNone
  | ⟨.getTransactionObjects _, txs⟩ => txs.isNone
  | _ => false

/-- A call of the node or of a library failed. -/
def CallFails (e : Event sig) : Bool := SendFails e || MamFails e || QueryFails e

theorem callFails_mam (f : MamCall) (ok : Bool) : CallFails ⟨.mam f, ok⟩ = !ok :=
  Bool.or_false _

theorem failsOnlyAt_mamCall {api : M.Api} {f : MamCall} {e : Status} :
    FailsOnlyAt CallFails (mamCall M api f e) := by
  refine failsOnlyAt_request_bind fun ok hok => ?_
  rw [callFails_mam] at hok
  cases ok with
  | true => exact failsOnlyAt_pure ()
  | false => cases hok

theorem failsOnlyAt_withApi {α : Type} {api : M.Api} {x : Proc α}
    (h : FailsOnlyAt CallFails x) : FailsOnlyAt CallFails (withApi M api x) := by
  intro τ r hpath hτ
  obtain ⟨s, τ₁, τ₂, rfl, hx, hrest⟩ := (path_run_attempt_bind ..).mp hpath
  obtain ⟨a, rfl⟩ := h τ₁ s hx fun e he => hτ e (List.mem_append_left _ he)
  exact ⟨a, ((path_run_pure ..).mp hrest).2⟩

theorem failsOnlyAt_setPsks (psks : List (Vector Tryte 81)) (keys : MamEncryptKey) :
    FailsOnlyAt CallFails (setPsks psks keys) := by
  induction psks generalizing keys with
  | nil => exact failsOnlyAt_pure _
  | cons psk psks ih =>
      refine FailsOnlyAt.bind (failsOnlyAt_pure _) fun pskId => ?_
      exact failsOnlyAt_ensure_request (callFails_mam _) fun _ => ih _

theorem failsOnlyAt_setNtruPks (pks : List (Vector Tryte 1024)) (keys : MamEncryptKey) :
    FailsOnlyAt CallFails (setNtruPks pks keys) := by
  induction pks generalizing keys with
  | nil => exact failsOnlyAt_pure _
  | cons pk pks ih => exact failsOnlyAt_ensure_request (callFails_mam _) fun _ => ih _

theorem failsOnlyAt_taSetMamKey (psks : List (Vector Tryte 81)) (pks : List (Vector Tryte 1024)) :
    FailsOnlyAt CallFails (taSetMamKey psks pks) :=
  (failsOnlyAt_setPsks psks {}).bind fun keys => failsOnlyAt_setNtruPks pks keys

theorem failsOnlyAt_getTxnObjects (hashes : List Hash243) :
    FailsOnlyAt CallFails (getTxnObjects hashes) := by
  induction hashes with
  | nil => exact failsOnlyAt_pure _
  | cons hash hashes ih =>
      exact failsOnlyAt_demand_request (fun _ => rfl) fun _ _ =>
        ih.bind fun _ => failsOnlyAt_pure _

theorem failsOnlyAt_taGetTxnObjectsWithTxnHash (req : FindTransactionsReq) :
    FailsOnlyAt CallFails (taGetTxnObjectsWithTxnHash req) :=
  failsOnlyAt_demand_request (fun _ => rfl) fun _ hashes => failsOnlyAt_getTxnObjects hashes

section Mam

variable {keys : MamEncryptKey} {d : Nat}

theorem failsOnlyAt_mamApiChannelCreate {api : M.Api} :
    FailsOnlyAt CallFails (mamApiChannelCreate M api d) :=
  failsOnlyAt_mamCall.bind fun _ => failsOnlyAt_pure _

theorem failsOnlyAt_createChannelFetchAllTransactions {api : M.Api} {firstIter : Bool}
    {chid : Hash243} :
    FailsOnlyAt CallFails (createChannelFetchAllTransactions M api d firstIter chid) := by
  refine FailsOnlyAt.bind ?_ fun ch => ?_
  · cases firstIter with
    | true => exact failsOnlyAt_pure _
    | false => exact failsOnlyAt_mamApiChannelCreate
  · exact (failsOnlyAt_withApi (failsOnlyAt_taGetTxnObjectsWithTxnHash _)).bind fun txs =>
      failsOnlyAt_pure _

theorem failsOnlyAt_searchKey {chid : Hash243} {tags : List Hash81} {remain : Nat} {used : Int}
    {api : M.Api} : FailsOnlyAt CallFails (searchKey M keys chid tags remain used api) := by
  induction remain generalizing used api with
  | zero => exact failsOnlyAt_pure _
  | succ remain ih =>
      refine failsOnlyAt_mamCall.bind fun _ => ?_
      dsimp only
      split
      · split
        · exact failsOnlyAt_pure _
        · exact ih
      · exact failsOnlyAt_pure _

theorem failsOnlyAt_searchChannel {fuel : Nat} {firstIter : Bool} {chid : Hash243} {api : M.Api} :
    FailsOnlyAt CallFails (searchChannel M keys d fuel firstIter chid api) := by
  induction fuel generalizing firstIter chid api with
  | zero => exact failsOnlyAt_pure _
  | succ fuel ih =>
      refine failsOnlyAt_createChannelFetchAllTransactions.bind fun fetch => ?_
      refine failsOnlyAt_searchKey.bind fun found => ?_
      cases found with
      | none => exact failsOnlyAt_pure _
      | some k =>
          dsimp only
          split
          · exact failsOnlyAt_pure _
          · split
            · exact ih
            · exact failsOnlyAt_pure _

theorem failsOnlyAt_taMamWrittenMsgToBundle {fuel : Nat} {api : M.Api} {depth : Int}
    (hdepth : 1 ≤ depth) {payload : String} :
    FailsOnlyAt CallFails (taMamWrittenMsgToBundle M fuel api depth none keys payload) := by
  rw [taMamWrittenMsgToBundle, decide_eq_true hdepth]
  refine FailsOnlyAt.bind (failsOnlyAt_pure ()) fun _ => ?_
  refine FailsOnlyAt.bind (failsOnlyAt_pure (M.zeroId, api)) fun ch => ?_
  refine failsOnlyAt_searchChannel.bind fun found => ?_
  cases found with
  | none => exact failsOnlyAt_pure _
  | some found => exact failsOnlyAt_mamCall.bind fun _ => failsOnlyAt_pure _

theorem failsOnlyAt_taSendBundle {bundle : List Transaction} :
    FailsOnlyAt CallFails (taSendBundle I info iconf bundle) :=
  (failsOnlyAt_attempt _).bind fun _ => failsOnlyAt_pure _

theorem failsOnlyAt_sendWritten {wr : Written M} :
    FailsOnlyAt CallFails (sendWritten I M info iconf d keys wr) := by
  refine (failsOnlyAt_withApi failsOnlyAt_taSendBundle).bind fun bundle => ?_
  dsimp only
  split
  · exact failsOnlyAt_pure _
  · refine FailsOnlyAt.bind ?_ fun announce => ?_
    · refine failsOnlyAt_mamApiChannelCreate.bind fun ch => ?_
      exact failsOnlyAt_mamCall.bind fun _ => failsOnlyAt_pure _
    · exact (failsOnlyAt_withApi failsOnlyAt_taSendBundle).bind fun _ => failsOnlyAt_pure _

/-- The part of a call between the setup and the label `done` returns where nothing fails. -/
theorem failsOnlyAt_sendMamBody {fuel : Nat} {req : SendMamReq} {api : M.Api}
    (hdepth : 1 ≤ req.chMssDepth) (hchid : req.chid = none) :
    FailsOnlyAt CallFails (sendMamBody I M fuel info iconf req api) := by
  rw [sendMamBody, hchid]
  refine (failsOnlyAt_withApi (failsOnlyAt_taSetMamKey _ _)).bind fun keys => ?_
  refine (failsOnlyAt_request _).bind fun sec => ?_
  refine (failsOnlyAt_taMamWrittenMsgToBundle hdepth).bind fun written => ?_
  cases written with
  | none => exact failsOnlyAt_pure _
  | some wr => exact failsOnlyAt_sendWritten.bind fun _ => failsOnlyAt_pure _

end Mam

theorem failsOnlyAt_mamDone {seed : Hash243} {api : M.Api} {res : SendMamRes} :
    FailsOnlyAt CallFails (mamDone M (some seed) api (.ok res)) := by
  show FailsOnlyAt CallFails (request (.mam .destroy) >>= fun destroyed =>
    settle (if destroyed then .ok res else .error Status.mamFailedDestroyed))
  refine failsOnlyAt_request_bind fun destroyed hdestroyed => ?_
  rw [callFails_mam] at hdestroyed
  cases destroyed with
  | false => cases hdestroyed
  | true => exact failsOnlyAt_pure res

/-- A call for a seed returns where nothing fails. -/
theorem failsOnlyAt_taSendMamMessage {fuel : Nat} {req : SendMamReq} {seed : Hash243}
    (hseed : req.seed = some seed) (hdepth : 1 ≤ req.chMssDepth) (hchid : req.chid = none) :
    FailsOnlyAt CallFails (taSendMamMessage I M fuel info iconf req) := by
  rw [taSendMamMessage, hseed]
  refine FailsOnlyAt.bind ?_ fun api => ?_
  · exact failsOnlyAt_ensure_request (callFails_mam _) fun _ => failsOnlyAt_pure _
  · intro τ r h hτ
    obtain ⟨ret, τ₁, τ₂, rfl, hbody, hrest⟩ := (path_run_attempt_bind ..).mp h
    rw [List.forall_mem_append] at hτ
    obtain ⟨⟨o, api'⟩, rfl⟩ := failsOnlyAt_sendMamBody hdepth hchid τ₁ ret hbody hτ.1
    cases o with
    | none => exact ⟨none, ((path_run_pure ..).mp hrest).2⟩
    | some res =>
        dsimp only at hrest
        rw [map_eq_pure_bind] at hrest
        exact failsOnlyAt_mamDone.bind (fun _ => failsOnlyAt_pure _) τ₂ r hrest hτ.2

/-! ## The keys of a message -/

/-- How many keys of the channel `k` are used after `n` messages. -/
def keysUsed (d n k : Nat) : Nat :=
  if k < n / (2 ^ d - 1) then 2 ^ d else if k = n / (2 ^ d - 1) then n % (2 ^ d - 1) else 0

/-- The channels and keys of the message `n`, and of the announcement after it. -/
def keysOf (d n : Nat) : List (Nat × Nat) :=
  (n / (2 ^ d - 1), n % (2 ^ d - 1)) ::
    if n % (2 ^ d - 1) + 1 = 2 ^ d - 1 then [(n / (2 ^ d - 1), 2 ^ d - 1)] else []

section Arithmetic

variable {d n : Nat} (hd : 1 ≤ d)
include hd

theorem two_le_pow : 2 ≤ 2 ^ d := Nat.le_pow hd

theorem mod_lt_messages : n % (2 ^ d - 1) < 2 ^ d - 1 := by
  have := two_le_pow hd
  exact Nat.mod_lt _ (by omega)

/-- After the last message of a channel comes the first one of the next. -/
theorem succ_last (h : n % (2 ^ d - 1) + 1 = 2 ^ d - 1) :
    (n + 1) / (2 ^ d - 1) = n / (2 ^ d - 1) + 1 ∧ (n + 1) % (2 ^ d - 1) = 0 := by
  have hpow := two_le_pow hd
  have hdiv := Nat.mod_add_div n (2 ^ d - 1)
  rw [Nat.div_mod_unique (by omega), Nat.mul_add, Nat.mul_one]
  omega

theorem succ_not_last (h : n % (2 ^ d - 1) + 1 ≠ 2 ^ d - 1) :
    (n + 1) / (2 ^ d - 1) = n / (2 ^ d - 1) ∧
      (n + 1) % (2 ^ d - 1) = n % (2 ^ d - 1) + 1 := by
  have hpow := two_le_pow hd
  have hlt := mod_lt_messages (n := n) hd
  have hdiv := Nat.mod_add_div n (2 ^ d - 1)
  rw [Nat.div_mod_unique (by omega)]
  omega

theorem keysUsed_le (k : Nat) : keysUsed d n k ≤ 2 ^ d := by
  have hlt := mod_lt_messages (n := n) hd
  rw [keysUsed]
  split_ifs <;> omega

/-- A message uses the keys `keysOf`, and no others. -/
theorem lt_keysUsed_succ (k j : Nat) :
    j < keysUsed d (n + 1) k ↔ j < keysUsed d n k ∨ (k, j) ∈ keysOf d n := by
  have hpow := two_le_pow hd
  have hlt := mod_lt_messages (n := n) hd
  by_cases hlast : n % (2 ^ d - 1) + 1 = 2 ^ d - 1
  · obtain ⟨hdiv, hmod⟩ := succ_last hd hlast
    simp only [keysUsed, keysOf, hdiv, hmod, if_pos hlast, List.mem_cons, Prod.mk.injEq,
      List.not_mem_nil, or_false]
    split_ifs <;> omega
  · obtain ⟨hdiv, hmod⟩ := succ_not_last hd hlast
    simp only [keysUsed, keysOf, hdiv, hmod, if_neg hlast, List.mem_cons, Prod.mk.injEq,
      List.not_mem_nil, or_false]
    split_ifs <;> omega

theorem keysUsed_mono {n' : Nat} (h : n ≤ n') {k j : Nat} (hj : j < keysUsed d n k) :
    j < keysUsed d n' k := by
  induction h with
  | refl => exact hj
  | step _ ih => exact (lt_keysUsed_succ hd k j).mpr (Or.inl ih)

/-- The keys of a message are not used before. -/
theorem le_of_mem_keysOf {k j : Nat} (h : (k, j) ∈ keysOf d n) :
    k = n / (2 ^ d - 1) ∧ keysUsed d n k ≤ j ∧ j < 2 ^ d := by
  have hpow := two_le_pow hd
  have hlt := mod_lt_messages (n := n) hd
  have hfirst : k = n / (2 ^ d - 1) ∧ (j = n % (2 ^ d - 1) ∨ j = 2 ^ d - 1) := by
    rw [keysOf] at h
    split at h
    · simp only [List.mem_cons, Prod.mk.injEq, List.not_mem_nil, or_false] at h
      omega
    · simp only [List.mem_singleton, Prod.mk.injEq] at h
      omega
  obtain ⟨rfl, hj⟩ := hfirst
  rw [keysUsed, if_neg (by omega), if_pos rfl]
  omega

/-- No key is used for two messages. -/
theorem nodup_keysOf (N : Nat) : ((List.range N).flatMap (keysOf d)).Nodup := by
  rw [List.nodup_flatMap]
  refine ⟨?_, ?_⟩
  · intro n _
    have hlt := mod_lt_messages (n := n) hd
    rw [keysOf]
    split
    · simp only [List.nodup_cons, List.mem_singleton, Prod.mk.injEq, List.not_mem_nil,
        not_false_eq_true, List.nodup_nil, and_true]
      omega
    · exact List.nodup_singleton _
  · refine List.pairwise_lt_range.imp fun {n n'} hnn' => ?_
    rintro ⟨k, j⟩ hkey hkey'
    have hused := keysUsed_mono hd hnn' ((lt_keysUsed_succ hd k j).mpr (Or.inr hkey))
    have hfresh := le_of_mem_keysOf hd hkey'
    omega

end Arithmetic

/-! ## The search -/

section Search

variable (D : MamChannels M) (seed : Hash243) (d n : Nat)

/-- The IDs on the channel `k` after `n` messages. -/
def usedIds (k : Nat) : Finset MsgId :=
  (Finset.range (keysUsed d n k)).image (D.msgId (D.chan seed d k))

variable {D seed d n} {keys : MamEncryptKey} {chid : Hash243} {J : M.Api → Prop} {api : M.Api}
  {found : KeySearch M} {j : Nat} {ids : Finset MsgId}

theorem mem_usedIds {k : Nat} {id : MsgId} :
    id ∈ usedIds D seed d n k ↔ ∃ j < keysUsed d n k, D.msgId (D.chan seed d k) j = id := by
  rw [usedIds, Finset.mem_image]
  simp only [Finset.mem_range]

variable (hd : 1 ≤ d ∧ d ≤ 20)
include hd

theorem pow_le_max : 2 ^ d ≤ 2 ^ 20 := Nat.pow_le_pow_right (by decide) hd.2

theorem card_usedIds (k : Nat) : (usedIds D seed d n k).card = keysUsed d n k := by
  rw [usedIds, Finset.card_image_of_injOn, Finset.card_range]
  intro i hi j hj hij
  rw [Finset.coe_range, Set.mem_Iio] at hi hj
  have hle := keysUsed_le (n := n) hd.1 k
  have hmax := pow_le_max hd
  exact D.msgId_inj _ i j (by omega) (by omega) hij

/-- A key is among the used ones exactly if its ordinal is. -/
theorem msgId_mem_usedIds {k i : Nat} (hi : i < 2 ^ d) :
    D.msgId (D.chan seed d k) i ∈ usedIds D seed d n k ↔ i < keysUsed d n k := by
  rw [mem_usedIds]
  constructor
  · rintro ⟨j, hj, hij⟩
    have hle := keysUsed_le (n := n) hd.1 k
    have hmax := pow_le_max hd
    rwa [← D.msgId_inj _ j i (by omega) (by omega) hij]
  · intro hlt
    exact ⟨i, hlt, rfl⟩

variable {k : Nat} (hfresh : D.headers api (D.chan seed d k) = 0)
  (hstops : Stops D.toMamIds keys (D.chan seed d k) (usedIds D seed d n k) J (2 ^ d)
    (usedIds D seed d n k).card api found j)
include hfresh hstops

/-- The search goes to the end of a full channel, and to the first unused key of another. -/
theorem stops_at : j = min (keysUsed d n k) (2 ^ d - 1) := by
  have hlt := hstops.lt
  have hremain := hstops.remain_eq
  have hle := keysUsed_le (n := n) hd.1 k
  have hearlier : ∀ i < j, i < keysUsed d n k := by
    intro i hi
    have hmem := hstops.earlier i hi
    rwa [hfresh, Nat.zero_add, msgId_mem_usedIds hd (by omega)] at hmem
  have hlast : j < keysUsed d n k → found.remain = 0 := by
    intro hj
    apply hstops.last
    rwa [hfresh, Nat.zero_add, msgId_mem_usedIds hd hlt]
  by_cases hj : j < keysUsed d n k
  · have := hlast hj
    omega
  · have hj' : j ≤ keysUsed d n k := by
      by_contra hgt
      exact absurd (hearlier (keysUsed d n k) (by omega)) (lt_irrefl _)
    omega

/-- Exactly the full channels are skipped. -/
theorem stops_skip_iff (hk : k ≤ n / (2 ^ d - 1)) :
    found.remain = 0 ∧ found.used = 0 ↔ k < n / (2 ^ d - 1) := by
  have hat := stops_at hd hfresh hstops
  have hremain := hstops.remain_eq
  have hused := hstops.used_eq
  have hpow := two_le_pow hd.1
  have hlt := mod_lt_messages (n := n) hd.1
  rw [card_usedIds hd] at hused
  rw [hremain, hused]
  simp only [keysUsed] at hat ⊢
  split_ifs at hat ⊢ <;> omega

end Search

/-- Where the search for the key of message `n` ends. -/
structure Arrives (D : MamChannels M) (seed : Hash243) (d n : Nat) (k : KeySearch M) : Prop where
  place : D.place k.api = (seed, n / (2 ^ d - 1) + 1)
  headers : D.headers k.api (D.chan seed d (n / (2 ^ d - 1))) = n % (2 ^ d - 1) + 1
  msgId : k.msgId = D.msgId (D.chan seed d (n / (2 ^ d - 1))) (n % (2 ^ d - 1))
  bundle_ne : k.bundle ≠ []
  bundle : ∀ tx ∈ k.bundle, tx.address = D.chan seed d (n / (2 ^ d - 1)) ∧ msgIdOf tx.tag = k.msgId

/-- What the node must return on the channels of the seed. -/
def Known (D : MamChannels M) (seed : Hash243) (d n : Nat) (x : Hash243 × List Transaction) :
    Prop :=
  ∀ k ≤ n / (2 ^ d - 1), x.1 = D.chan seed d k → idsOf x.2 = usedIds D seed d n k

theorem Stops.arrives {D : MamChannels M} {seed : Hash243} {d n k j : Nat} {keys : MamEncryptKey}
    {api : M.Api} {found : KeySearch M} (hd : 1 ≤ d ∧ d ≤ 20) (hk : k = n / (2 ^ d - 1))
    (hfresh : D.headers api (D.chan seed d k) = 0)
    (hstops : Stops D.toMamIds keys (D.chan seed d k) (usedIds D seed d n k)
      (fun api => D.place api = (seed, k + 1)) (2 ^ d) (usedIds D seed d n k).card api found j) :
    Arrives D seed d n found ∧ (found.remain = 1 ↔ n % (2 ^ d - 1) + 1 = 2 ^ d - 1) := by
  have hat := stops_at hd hfresh hstops
  have hlt := mod_lt_messages (n := n) hd.1
  rw [keysUsed, if_neg (by omega), if_pos hk, Nat.min_eq_left (by omega)] at hat
  have hremain := hstops.remain_eq
  obtain ⟨api₁, hplace, hheaders, hbundle, hid, hapi⟩ := hstops.written
  rw [hfresh, Nat.zero_add] at hheaders
  subst hk hat
  have hmsgId := hid.trans (D.header_id api₁ _ keys)
  have htxns := D.header_txns api₁ (D.chan seed d (n / (2 ^ d - 1))) keys
  rw [← hbundle, ← hmsgId] at htxns
  refine ⟨⟨?_, ?_, by rw [hmsgId, hheaders], by rw [hbundle]; simp, htxns⟩, by omega⟩
  · rcases hapi with hapi | hapi
    · rw [hapi, D.place_write, hplace]
    · rw [hapi, D.place_next, D.place_write, hplace]
  · rcases hapi with hapi | hapi
    · rw [hapi, D.headers_write, hheaders]
    · rw [hapi, D.headers_next, D.headers_write, hheaders]

/-- The search skips the full channels and stops at the first unused key. -/
theorem searchChannel_arrives (D : MamChannels M) {seed : Hash243} {d n k fuel : Nat}
    {keys : MamEncryptKey} {chid₀ : Hash243} {api : M.Api}
    {found : Option (Hash243 × MamSendOperation × KeySearch M)}
    (hd : 1 ≤ d ∧ d ≤ 20) (hk : k ≤ n / (2 ^ d - 1)) (hfuel : n / (2 ^ d - 1) < k + fuel)
    (hplace : D.place api = (seed, k)) (hknown : ∀ x ∈ fetched τ, Known D seed d n x)
    (h : Path (searchChannel M keys d fuel false chid₀ api).run τ (.ok found)) :
    ∃ ks, Arrives D seed d n ks ∧ found = some (D.chan seed d (n / (2 ^ d - 1)),
      if n % (2 ^ d - 1) + 1 = 2 ^ d - 1 then .announceChid else .sendMessage, ks) := by
  induction fuel generalizing k chid₀ api τ with
  | zero => omega
  | succ fuel ih =>
      have hcreate : D.place (M.channelCreate api d).2 = (seed, k + 1) := by
        rw [D.place_create, hplace]
      have hkeep : ∀ chid api, D.place api = (seed, k + 1) →
          D.place (M.mssNext (M.writeHeaderOnChannel api chid keys).2.2.2 chid) =
            (seed, k + 1) := by
        intro chid api hapi
        rw [D.place_next, D.place_write, hapi]
      obtain ⟨ch, txs, τ₁, τ₂, rfl, hch, hfetch, hpass⟩ := path_searchChannel_succ D.toMamIds
        (J := fun api => D.place api = (seed, k + 1)) hkeep (by exact hcreate) h
      rw [if_neg (by decide)] at hch
      have hchan : ch.1 = D.chan seed d k := by
        rw [hch, D.create_id, hplace]
      have hfresh : D.headers ch.2 (D.chan seed d k) = 0 := by
        rw [← hchan, hch]
        exact D.headers_create api d
      rw [fetched, List.foldl_append, hfetch] at hknown
      cases hpass with
      | chosen stops left done =>
          subst done
          have hids := hknown _ List.mem_cons_self k hk hchan
          rw [hchan, hids] at stops
          have hlast : k = n / (2 ^ d - 1) := by
            rw [stops_skip_iff hd hfresh stops hk] at left
            omega
          obtain ⟨harrives, hone⟩ := stops.arrives hd hlast hfresh
          refine ⟨_, harrives, ?_⟩
          rw [hchan, hlast]
          simp only [hone]
      | skipped stops remain used next =>
          rw [searchChannel_fetched D.toMamIds next, List.forall_mem_append,
            List.forall_mem_singleton] at hknown
          have hids := hknown.2 k hk hchan
          rw [hchan, hids] at stops
          have hmore := (stops_skip_iff hd hfresh stops hk).mp ⟨remain, used⟩
          obtain ⟨api₁, hplace₁, -, -, -, hapi⟩ := stops.written
          refine ih (k := k + 1) (by omega) (by omega) ?_ hknown.1 next
          rcases hapi with hapi | hapi
          · rw [hapi, D.place_write, hplace₁]
          · rw [hapi, D.place_next, D.place_write, hplace₁]

/-! ## A call -/

/-- What is written for message `n`. -/
structure Writes (D : MamChannels M) (seed : Hash243) (d n : Nat) (wr : Written M) : Prop where
  place : D.place wr.api = (seed, n / (2 ^ d - 1) + 1)
  headers : D.headers wr.api (D.chan seed d (n / (2 ^ d - 1))) = n % (2 ^ d - 1) + 1
  chid : wr.chid = D.chan seed d (n / (2 ^ d - 1))
  msgId : wr.msgId = D.msgId (D.chan seed d (n / (2 ^ d - 1))) (n % (2 ^ d - 1))
  operation : wr.operation =
    if n % (2 ^ d - 1) + 1 = 2 ^ d - 1 then .announceChid else .sendMessage
  bundle_ne : wr.bundle ≠ []
  bundle : ∀ tx ∈ wr.bundle, tx.address = wr.chid ∧ msgIdOf tx.tag = wr.msgId

theorem taMamWrittenMsgToBundle_writes (D : MamChannels M) {seed : Hash243} {d n fuel : Nat}
    {keys : MamEncryptKey} {payload : String} {written : Option (Written M)}
    (hd : 1 ≤ d ∧ d ≤ 20) (hfuel : n / (2 ^ d - 1) < fuel)
    (hknown : ∀ x ∈ fetched τ, Known D seed d n x)
    (h : Path (taMamWrittenMsgToBundle M fuel (M.apiInit seed) d none keys payload).run τ
      (.ok written)) :
    ∃ wr, written = some wr ∧ Writes D seed d n wr := by
  rw [taMamWrittenMsgToBundle, path_run_bind_ok] at h
  obtain ⟨_, τ₁, τ₂, rfl, hensure, h⟩ := h
  obtain ⟨rfl, -⟩ := (path_run_ensure ..).mp hensure
  rw [path_run_bind_ok] at h
  obtain ⟨ch, τ₃, τ₄, rfl, hstart, h⟩ := h
  obtain ⟨rfl, hch⟩ := (path_run_pure ..).mp hstart
  cases hch
  rw [path_run_bind_ok] at h
  obtain ⟨found, τ₅, τ₆, rfl, hsearch, h⟩ := h
  rw [List.nil_append, List.nil_append] at hknown
  have hnothing : ∀ e ∈ τ₆, e.cmd.FetchesNothing := by
    cases found with
    | none =>
        obtain ⟨rfl, -⟩ := (path_run_pure ..).mp h
        exact List.forall_mem_nil _
    | some found =>
        obtain ⟨_, τ₇, τ₈, rfl, hpacket, h⟩ := (path_run_bind_ok ..).mp h
        obtain ⟨rfl, -⟩ := (path_run_pure ..).mp h
        rw [path_mamCall.mp hpacket]
        exact List.forall_mem_singleton.mpr trivial
  rw [fetched, List.foldl_append, foldl_fetchStep_of_nothing hnothing] at hknown
  obtain ⟨ks, harrives, rfl⟩ := searchChannel_arrives D hd (Nat.zero_le _)
    (by rwa [Nat.zero_add]) (D.place_init seed) hknown hsearch
  rw [path_run_bind_ok] at h
  obtain ⟨_, τ₇, τ₈, rfl, -, h⟩ := h
  obtain ⟨-, hres⟩ := (path_run_pure ..).mp h
  cases hres
  have hpacket := D.packet_txns ks.api ks.msgId (M.asciiToTrytes payload) ks.bundle _
    harrives.bundle_ne harrives.bundle
  refine ⟨_, rfl, ?_, ?_, rfl, harrives.msgId, rfl, hpacket.1, hpacket.2⟩
  · rw [D.place_packet, harrives.place]
  · rw [D.headers_packet, harrives.headers]

/-- The labels of the bundles the node accepted. -/
def published (I : Iota) (τ : List (Event sig)) : List (List (Hash243 × Hash81)) :=
  (stored τ).map (labelsOf I)

@[simp] theorem published_append (τ₁ τ₂ : List (Event sig)) :
    published I (τ₁ ++ τ₂) = published I τ₁ ++ published I τ₂ := by
  simp [published]

theorem published_eq_nil (h : ∀ e ∈ τ, e.cmd.StoresNothing) : published I τ = [] := by
  rw [published, stored_eq_nil h]
  rfl

/-- The labels of a bundle made with the key `j` of a channel. -/
def Signed (D : MamIds M) (chid : Hash243) (j : Nat) (labels : List (Hash243 × Hash81)) : Prop :=
  labels ≠ [] ∧ ∀ l ∈ labels, l.1 = chid ∧ msgIdOf l.2 = D.msgId chid j

theorem taSendBundle_signed (D : MamIds M) (L : IotaLabels I) {bundle sent : List Transaction}
    {chid : Hash243} {j : Nat} (hne : bundle ≠ [])
    (hbundle : ∀ tx ∈ bundle, tx.address = chid ∧ msgIdOf tx.tag = D.msgId chid j)
    (hgood : ∀ e ∈ τ, CallFails e = false)
    (h : Path (taSendBundle I info iconf bundle).run τ (.ok sent)) :
    ∃ labels, published I τ = [labels] ∧ Signed D chid j labels := by
  have hsend : ∀ e ∈ τ, SendFails e = false := by
    intro e he
    have hok := hgood e he
    rw [CallFails, Bool.or_eq_false_iff, Bool.or_eq_false_iff] at hok
    exact hok.1.1
  obtain ⟨attached, hstored, hlabels⟩ := taSendBundle_labels L hne hsend h
  refine ⟨bundle.map label, ?_, ?_, ?_⟩
  · rw [published, hstored, List.map_singleton, hlabels]
  · rwa [Ne, List.map_eq_nil_iff]
  · intro l hl
    obtain ⟨tx, htx, rfl⟩ := List.mem_map.mp hl
    exact hbundle tx htx

/-- What a call for message `n` did. -/
structure RolledOver (I : Iota) (D : MamChannels M) (seed : Hash243) (d n : Nat)
    (τ : List (Event sig)) (res : SendMamRes) : Prop where
  chid : res.chid = some (D.chan seed d (n / (2 ^ d - 1)))
  msgId : res.msgId = some (D.msgId (D.chan seed d (n / (2 ^ d - 1))) (n % (2 ^ d - 1)))
  /-- The next channel is announced after the last message of a channel, and only there. -/
  chid1 : res.chid1 = if n % (2 ^ d - 1) + 1 = 2 ^ d - 1 then
    some (D.chan seed d (n / (2 ^ d - 1) + 1)) else none
  /-- The node accepted the bundle of the message, and that of the announcement. -/
  keys : List.Forall₂ (fun labels key => Signed D.toMamIds (D.chan seed d key.1) key.2 labels)
    (published I τ) (keysOf d n)

theorem SendsWritten.fetchesNothing {d : Nat} {keys : MamEncryptKey} {wr : Written M}
    {res : SendMamRes} {sends : Sends} (h : SendsWritten I info iconf d keys wr τ res sends) :
    ∀ e ∈ τ, e.cmd.FetchesNothing := by
  have hattaches : ∀ c : Cmd, c.Attaches → c.FetchesNothing := by
    intro c hc
    cases c with
    | findTransactions req => exact hc.elim
    | getTransactionObjects hashes => exact hc.elim
    | _ => trivial
  have hsend : ∀ {σ bundle sent}, Path (taSendBundle I info iconf bundle).run σ (.ok sent) →
      ∀ e ∈ σ, e.cmd.FetchesNothing := by
    intro σ bundle sent hpath
    exact (uses_taSendBundle hattaches (fun _ => trivial) I info iconf bundle).path hpath
  cases h with
  | message operation send => exact hsend send
  | announced operation send create write sendAnnounce =>
      refine List.forall_mem_append.mpr ⟨hsend send, List.forall_mem_append.mpr ⟨?_, ?_⟩⟩
      · intro e he
        rcases List.mem_cons.mp he with rfl | he
        · trivial
        · rw [List.mem_singleton.mp he]
          trivial
      · exact hsend sendAnnounce

theorem SendsWritten.rolledOver {D : MamChannels M} (L : IotaLabels I) {seed : Hash243}
    {d n : Nat} {keys : MamEncryptKey} {wr : Written M} {res : SendMamRes} {sends : Sends}
    (hne : n % (2 ^ d - 1) + 1 = 2 ^ d - 1 →
      D.chan seed d (n / (2 ^ d - 1)) ≠ D.chan seed d (n / (2 ^ d - 1) + 1))
    (hwr : Writes D seed d n wr) (hgood : ∀ e ∈ τ, CallFails e = false)
    (h : SendsWritten I info iconf d keys wr τ res sends) : RolledOver I D seed d n τ res := by
  have hbundle : ∀ tx ∈ wr.bundle, tx.address = D.chan seed d (n / (2 ^ d - 1)) ∧
      msgIdOf tx.tag = D.msgId (D.chan seed d (n / (2 ^ d - 1))) (n % (2 ^ d - 1)) := by
    rw [← hwr.msgId, ← hwr.chid]
    exact hwr.bundle
  cases h with
  | message operation send =>
      have hlast : ¬ n % (2 ^ d - 1) + 1 = 2 ^ d - 1 := by
        intro hlast
        rw [hwr.operation, if_pos hlast] at operation
        cases operation
      obtain ⟨labels, hpub, hsigned⟩ :=
        taSendBundle_signed D.toMamIds L hwr.bundle_ne hbundle hgood send
      refine ⟨by rw [hwr.chid], by rw [hwr.msgId], by rw [if_neg hlast], ?_⟩
      rw [hpub, keysOf, if_neg hlast]
      exact .cons hsigned .nil
  | announced operation send create write sendAnnounce =>
      have hlast : n % (2 ^ d - 1) + 1 = 2 ^ d - 1 := by
        by_contra hlast
        rw [hwr.operation, if_neg hlast] at operation
        cases operation
      rw [List.forall_mem_append, List.forall_mem_append] at hgood
      obtain ⟨labels, hpub, hsigned⟩ :=
        taSendBundle_signed D.toMamIds L hwr.bundle_ne hbundle hgood.1 send
      have hch : (M.channelCreate wr.api d).1 = D.chan seed d (n / (2 ^ d - 1) + 1) := by
        rw [D.create_id, hwr.place]
      subst create write
      have hannounce := D.announce_txns (M.channelCreate wr.api d).2 wr.chid
        (M.channelCreate wr.api d).1 keys
      rw [hwr.chid, D.headers_create_of_ne _ _ _ (by rw [hch]; exact hne hlast), hwr.headers,
        hlast] at hannounce
      rw [hwr.chid] at sendAnnounce
      obtain ⟨labels', hpub', hsigned'⟩ :=
        taSendBundle_signed D.toMamIds L hannounce.1 hannounce.2 hgood.2.2 sendAnnounce
      refine ⟨by rw [hwr.chid], by rw [hwr.msgId], by rw [if_pos hlast, hch], ?_⟩
      have hcalls : published I ([⟨.mam .channelCreate, true⟩, ⟨.mam .announceChannel, true⟩] :
          List (Event sig)) = [] := rfl
      rw [published_append, published_append, hpub, hpub', hcalls, keysOf, if_pos hlast]
      exact .cons hsigned (.cons hsigned' .nil)

theorem Cmd.SetsUp.storesNothing {c : Cmd} (h : c.SetsUp) : c.StoresNothing := by
  cases c with
  | storeAndBroadcast trytes => exact h.elim
  | _ => trivial

theorem Cmd.SetsUp.fetchesNothing {c : Cmd} (h : c.SetsUp) : c.FetchesNothing := by
  cases c with
  | findTransactions req => exact h.elim
  | getTransactionObjects hashes => exact h.elim
  | _ => trivial

/-- A call for message `n`, from what the node returns on the channels of the seed. -/
theorem taSendMamMessage_rolledOver (D : MamChannels M) (L : IotaLabels I) {seed : Hash243}
    {d n fuel : Nat} {req : SendMamReq} {r : Except Status (Option SendMamRes)}
    (hd : 1 ≤ d ∧ d ≤ 20) (hfuel : n / (2 ^ d - 1) < fuel)
    (hne : n % (2 ^ d - 1) + 1 = 2 ^ d - 1 →
      D.chan seed d (n / (2 ^ d - 1)) ≠ D.chan seed d (n / (2 ^ d - 1) + 1))
    (hreq : req.seed = some seed ∧ req.chMssDepth = d ∧ req.chid = none)
    (hgood : ∀ e ∈ τ, CallFails e = false) (hknown : ∀ x ∈ fetched τ, Known D seed d n x)
    (h : Path (taSendMamMessage I M fuel info iconf req).run τ r) :
    ∃ res, r = .ok (some res) ∧ RolledOver I D seed d n τ res := by
  obtain ⟨hseed, hdepth, hchid⟩ := hreq
  obtain ⟨o, rfl⟩ := failsOnlyAt_taSendMamMessage hseed (by omega) hchid τ r h hgood
  obtain ⟨sends, hcourse⟩ := path_taSendMamMessage h
  cases hcourse with
  | outOfFuel init before write =>
      rw [init seed hseed, hdepth, hchid] at write
      rw [fetched, List.foldl_append,
        foldl_fetchStep_of_nothing fun e he => (before e he).fetchesNothing] at hknown
      obtain ⟨wr, hwr, -⟩ := taMamWrittenMsgToBundle_writes D hd hfuel hknown write
      cases hwr
  | sent init before write send after =>
      rename_i res τ₀ τ₁ τ₂ τ₃
      rw [init seed hseed, hdepth, hchid] at write
      rw [hdepth, Int.toNat_natCast] at send
      have hnothing : ∀ e ∈ τ₂ ++ τ₃, e.cmd.FetchesNothing := List.forall_mem_append.mpr
        ⟨send.fetchesNothing, fun e he => (after e he).fetchesNothing⟩
      rw [fetched, List.foldl_append, List.foldl_append,
        foldl_fetchStep_of_nothing fun e he => (before e he).fetchesNothing,
        foldl_fetchStep_of_nothing hnothing] at hknown
      obtain ⟨wr, hwr, hwrites⟩ := taMamWrittenMsgToBundle_writes D hd hfuel hknown write
      cases hwr
      have hgood₂ : ∀ e ∈ τ₂, CallFails e = false := by
        intro e he
        apply hgood
        simp [he]
      refine ⟨res, rfl, ?_⟩
      have hrolled := send.rolledOver L hne hwrites hgood₂
      have hpub : published I (τ₀ ++ (τ₁ ++ (τ₂ ++ τ₃))) = published I τ₂ := by
        have hwrite := (uses_taMamWrittenMsgToBundle M (fun _ hc => hc.quiet.storesNothing)
          fuel (M.apiInit seed) d none _ _).path write
        rw [published_append, published_append, published_append,
          published_eq_nil fun e he => (before e he).storesNothing, published_eq_nil hwrite,
          published_eq_nil fun e he => (after e he).storesNothing, List.nil_append,
          List.nil_append, List.append_nil]
      exact ⟨hrolled.chid, hrolled.msgId, hrolled.chid1, by rw [hpub]; exact hrolled.keys⟩

/-! ## The ledger -/

/-- The transactions the node accepted, as it reads them. -/
def ledgerOf (I : Iota) (τ : List (Event sig)) : List Transaction :=
  (stored τ).flatten.map (I.deserialize · true)

/-- The node returns what is on the address, and nothing else is there. -/
def Returns (ledger : List Transaction) (x : Hash243 × List Transaction) : Prop :=
  (∀ tx ∈ x.2, tx ∈ ledger ∧ tx.address = x.1) ∧ ∀ tx ∈ ledger, tx.address = x.1 → tx ∈ x.2

/-- There is a transaction with this ID on the address. -/
def OnAddress (ledger : List Transaction) (address : Hash243) (id : MsgId) : Prop :=
  ∃ tx ∈ ledger, tx.address = address ∧ msgIdOf tx.tag = id

theorem onAddress_append {ledger ledger' : List Transaction} {address : Hash243} {id : MsgId} :
    OnAddress (ledger ++ ledger') address id ↔
      OnAddress ledger address id ∨ OnAddress ledger' address id := by
  simp only [OnAddress, List.mem_append, or_and_right, exists_or]

theorem onAddress_ledgerOf {address : Hash243} {id : MsgId} :
    OnAddress (ledgerOf I τ) address id ↔
      ∃ labels ∈ published I τ, ∃ l ∈ labels, l.1 = address ∧ msgIdOf l.2 = id := by
  simp only [OnAddress, ledgerOf, published, labelsOf, List.mem_map, List.mem_flatten]
  constructor
  · rintro ⟨_, ⟨t, ⟨trytes, htrytes, ht⟩, rfl⟩, hlabel⟩
    exact ⟨_, ⟨trytes, htrytes, rfl⟩, _, List.mem_map.mpr ⟨t, ht, rfl⟩, hlabel⟩
  · rintro ⟨_, ⟨trytes, htrytes, rfl⟩, l, hl, hlabel⟩
    obtain ⟨t, ht, rfl⟩ := List.mem_map.mp hl
    exact ⟨_, ⟨t, ⟨trytes, htrytes, ht⟩, rfl⟩, hlabel⟩

/-- After `n` messages, a channel holds the IDs of its first keys. -/
def Ledger (D : MamChannels M) (seed : Hash243) (d K n : Nat) (ledger : List Transaction) : Prop :=
  ∀ k ≤ K, ∀ id, OnAddress ledger (D.chan seed d k) id ↔ id ∈ usedIds D seed d n k

/-- The keys of the channels up to `K` have different IDs. -/
def Distinct (D : MamChannels M) (seed : Hash243) (d K : Nat) : Prop :=
  ∀ k k' j j', k ≤ K → k' ≤ K → j < 2 ^ d → j' < 2 ^ d →
    D.msgId (D.chan seed d k) j = D.msgId (D.chan seed d k') j' → k = k' ∧ j = j'

section Ledger

variable {D : MamChannels M} {seed : Hash243} {d K n : Nat} {ledger : List Transaction}

theorem Distinct.chan_inj (h : Distinct D seed d K) {k k' : Nat} (hk : k ≤ K) (hk' : k' ≤ K)
    (heq : D.chan seed d k = D.chan seed d k') : k = k' :=
  (h k k' 0 0 hk hk' (Nat.two_pow_pos d) (Nat.two_pow_pos d) (by rw [heq])).1

theorem ledger_nil (hd : 1 ≤ d) : Ledger D seed d K 0 [] := by
  intro k _ id
  have hpow := two_le_pow hd
  have hzero : keysUsed d 0 k = 0 := by
    rw [keysUsed, Nat.zero_div, Nat.zero_mod]
    split_ifs <;> omega
  rw [usedIds, hzero]
  simp [OnAddress]

theorem Ledger.known (h : Ledger D seed d K n ledger) (hn : n / (2 ^ d - 1) ≤ K)
    {x : Hash243 × List Transaction} (hx : Returns ledger x) : Known D seed d n x := by
  intro k hk hchan
  ext id
  rw [← h k (by omega) id, mem_idsOf, ← hchan]
  constructor
  · rintro ⟨tx, htx, hid⟩
    exact ⟨tx, (hx.1 tx htx).1, (hx.1 tx htx).2, hid⟩
  · rintro ⟨tx, htx, haddr, hid⟩
    exact ⟨tx, hx.2 tx htx haddr, hid⟩

theorem exists_of_forall₂ {α β : Type} {R : α → β → Prop} {as : List α} {bs : List β}
    (h : List.Forall₂ R as bs) :
    (∀ a ∈ as, ∃ b ∈ bs, R a b) ∧ ∀ b ∈ bs, ∃ a ∈ as, R a b := by
  induction h with
  | nil => exact ⟨by simp, by simp⟩
  | cons hab _ ih =>
      simp only [List.forall_mem_cons]
      refine ⟨⟨⟨_, List.mem_cons_self, hab⟩, fun a ha => ?_⟩, ⟨_, List.mem_cons_self, hab⟩,
        fun b hb => ?_⟩
      · obtain ⟨b, hb, h⟩ := ih.1 a ha
        exact ⟨b, List.mem_cons_of_mem _ hb, h⟩
      · obtain ⟨a, ha, h⟩ := ih.2 b hb
        exact ⟨a, List.mem_cons_of_mem _ ha, h⟩

/-- What a call adds to the ledger. -/
theorem RolledOver.onAddress_iff (hd : 1 ≤ d) (hdistinct : Distinct D seed d K)
    (hn : n / (2 ^ d - 1) ≤ K) {res : SendMamRes} (h : RolledOver I D seed d n τ res) {k : Nat}
    (hk : k ≤ K) {id : MsgId} :
    OnAddress (ledgerOf I τ) (D.chan seed d k) id ↔
      ∃ j, (k, j) ∈ keysOf d n ∧ D.msgId (D.chan seed d k) j = id := by
  obtain ⟨hleft, hright⟩ := exists_of_forall₂ h.keys
  rw [onAddress_ledgerOf]
  constructor
  · rintro ⟨labels, hlabels, l, hl, haddr, hid⟩
    obtain ⟨⟨k', j⟩, hkey, hsigned⟩ := hleft labels hlabels
    have hmem := hsigned.2 l hl
    have hk' := (le_of_mem_keysOf hd hkey).1
    obtain rfl := hdistinct.chan_inj (by omega) hk (hmem.1.symm.trans haddr)
    exact ⟨j, hkey, hmem.2.symm.trans hid⟩
  · rintro ⟨j, hkey, hid⟩
    obtain ⟨labels, hlabels, hne, hsigned⟩ := hright _ hkey
    obtain ⟨l, hl⟩ := List.exists_mem_of_ne_nil _ hne
    exact ⟨labels, hlabels, l, hl, (hsigned l hl).1, (hsigned l hl).2.trans hid⟩

theorem Ledger.succ (hd : 1 ≤ d) (hdistinct : Distinct D seed d K) (hn : n / (2 ^ d - 1) ≤ K)
    (h : Ledger D seed d K n ledger) {res : SendMamRes} (hcall : RolledOver I D seed d n τ res) :
    Ledger D seed d K (n + 1) (ledger ++ ledgerOf I τ) := by
  intro k hk id
  rw [onAddress_append, h k hk id, hcall.onAddress_iff hd hdistinct hn hk, mem_usedIds, mem_usedIds]
  simp only [lt_keysUsed_succ hd, or_and_right, exists_or]

end Ledger

/-! ## All calls -/

/-- A call of `ta_send_mam_message`. -/
structure SendCall where
  req : SendMamReq
  trace : List (Event sig)
  result : Except Status (Option SendMamRes)

/-- The calls, in this order, in which nothing fails, for one seed and depth and no channel. -/
def Calls (I : Iota) (M : MamLib) (fuel : Nat) (info : TaConfig) (iconf : IotaConfig)
    (seed : Hash243) (d : Nat) (calls : List SendCall) : Prop :=
  ∀ c ∈ calls, Path (taSendMamMessage I M fuel info iconf c.req).run c.trace c.result ∧
    (c.req.seed = some seed ∧ c.req.chMssDepth = d ∧ c.req.chid = none) ∧
    ∀ e ∈ c.trace, CallFails e = false

/-- In every call the node returns the bundles of the calls before it, and nobody else writes
on the addresses that are queried. -/
def Faithful (I : Iota) : List Transaction → List SendCall → Prop
  | _, [] => True
  | ledger, c :: calls =>
      (∀ x ∈ fetched c.trace, Returns ledger x) ∧ Faithful I (ledger ++ ledgerOf I c.trace) calls

/-- The calls from message `n` on, from a ledger with `n` messages. -/
theorem calls_rolledOver (D : MamChannels M) (L : IotaLabels I) {seed : Hash243}
    {d K n fuel : Nat} {calls : List SendCall} {ledger : List Transaction}
    (hd : 1 ≤ d ∧ d ≤ 20) (hdistinct : Distinct D seed d K)
    (hK : (n + calls.length) / (2 ^ d - 1) ≤ K) (hfuel : K < fuel)
    (hcalls : Calls I M fuel info iconf seed d calls) (hfaithful : Faithful I ledger calls)
    (hledger : Ledger D seed d K n ledger) (i : Nat) (hi : i < calls.length) :
    ∃ res, calls[i].result = .ok (some res) ∧
      RolledOver I D seed d (n + i) calls[i].trace res := by
  induction calls generalizing n ledger i with
  | nil => exact absurd hi (Nat.not_lt_zero i)
  | cons c calls ih =>
      rw [Calls, List.forall_mem_cons] at hcalls
      obtain ⟨⟨hpath, hreq, hgood⟩, hrest⟩ := hcalls
      obtain ⟨hreturns, hfaithful⟩ := hfaithful
      have hn : n / (2 ^ d - 1) ≤ K := (Nat.div_le_div_right (Nat.le_add_right _ _)).trans hK
      have hsucc : (n + 1) / (2 ^ d - 1) ≤ K := by
        refine (Nat.div_le_div_right ?_).trans hK
        rw [List.length_cons]
        omega
      have hne : n % (2 ^ d - 1) + 1 = 2 ^ d - 1 →
          D.chan seed d (n / (2 ^ d - 1)) ≠ D.chan seed d (n / (2 ^ d - 1) + 1) := by
        intro hlast heq
        rw [(succ_last hd.1 hlast).1] at hsucc
        have := hdistinct.chan_inj hn hsucc heq
        omega
      have hknown : ∀ x ∈ fetched c.trace, Known D seed d n x :=
        fun x hx => hledger.known hn (hreturns x hx)
      obtain ⟨res, hres, hcall⟩ := taSendMamMessage_rolledOver D L hd (hn.trans_lt hfuel) hne hreq
        hgood hknown hpath
      cases i with
      | zero => exact ⟨res, hres, hcall⟩
      | succ i =>
          have hnext := hledger.succ hd.1 hdistinct hn hcall
          have hlength : (n + 1 + calls.length) / (2 ^ d - 1) ≤ K := by
            rwa [Nat.add_assoc, Nat.add_comm 1]
          have := ih hlength hrest hfaithful hnext i (Nat.lt_of_succ_lt_succ hi)
          rwa [Nat.add_assoc, Nat.add_comm 1] at this

namespace Sample

/-- The channels of `counting`. -/
def countingChannels : MamChannels counting where
  toMamIds := countingIds
  chan _ _ := channelId
  place api := (api.1, api.2.1)
  place_init _ := rfl
  create_id _ _ := rfl
  place_create _ _ := rfl
  place_write _ _ _ := rfl
  place_next _ _ := rfl
  place_packet _ _ _ _ := rfl
  headers_create_of_ne _ _ _ h := if_neg h
  headers_packet _ _ _ _ _ := rfl
  header_txns _ _ _ tx htx := by
    rw [List.mem_singleton.mp htx]
    exact ⟨rfl, msgIdOf_header ..⟩
  packet_txns _ _ _ _ _ hne htxns := ⟨hne, htxns⟩
  announce_txns _ _ _ _ := by
    refine ⟨by simp [counting], fun tx htx => ?_⟩
    rw [List.mem_singleton.mp htx]
    exact ⟨rfl, msgIdOf_header ..⟩

theorem distinct_counting (seed : Hash243) {d K : Nat} (hd : d ≤ 20) (hK : K < 27) :
    Distinct countingChannels seed d K := by
  intro k k' j j' hk hk' hj hj' heq
  have hpow : 2 ^ d ≤ 2 ^ 20 := Nat.pow_le_pow_right (by decide) hd
  have heq' : headerId (channelId k) j = headerId (channelId k') j' := heq
  refine ⟨?_, headerId_inj (by omega) (by omega) heq'⟩
  have hval : (headerId (channelId k) j)[5].val = (headerId (channelId k') j')[5].val := by
    rw [heq']
  simp only [headerId, channelId, Vector.getElem_ofFn, Vector.getElem_replicate, Fin.val_ofNat,
    lt_irrefl, if_false] at hval
  omega

/-- Trytes that hold an address and a tag. -/
def labelled : Iota where
  serialize tx := Vector.ofFn fun i : Fin 2673 =>
    if h : i.val < 81 then tx.address[i.val]
    else if h : i.val - 81 < 27 then tx.tag[i.val - 81] else 0
  deserialize trytes _ :=
    { txn with
      address := Vector.ofFn fun i : Fin 81 => trytes[i.val]
      tag := Vector.ofFn fun i : Fin 27 => trytes[81 + i.val] }
  digest _ := Vector.replicate 81 0
  finalize txs := txs
  freshTips := (Vector.replicate 81 0, Vector.replicate 81 0)
  fromTrytes _ := trytes

theorem labelled_labels : IotaLabels labelled where
  finalize _ := rfl
  deserialize tx hash := by
    have haddr : (labelled.deserialize (labelled.serialize tx) hash).address = tx.address := by
      ext i hi
      simp [labelled]
    have htag : (labelled.deserialize (labelled.serialize tx) hash).tag = tx.tag := by
      ext i hi
      simp [labelled]
    rw [label, haddr, htag]
    rfl

theorem deserialize_serialize {tx : Transaction} {chid : Hash243} {j : Nat}
    (h : label tx = label (header chid j)) :
    labelled.deserialize (labelled.serialize tx) true = header chid j := by
  have hlabel := (labelled_labels.deserialize tx true).trans h
  rw [label, label, Prod.mk.injEq] at hlabel
  calc labelled.deserialize (labelled.serialize tx) true
    _ = { txn with
          address := (labelled.deserialize (labelled.serialize tx) true).address
          tag := (labelled.deserialize (labelled.serialize tx) true).tag } := rfl
    _ = header chid j := by rw [hlabel.1, hlabel.2]; rfl

/-- A node with this ledger.  An address stands for the hashes on it. -/
def node (ledger : List Transaction) : (c : Cmd) → Choice c
  | .findTransactions req => some req.addresses
  | .getTransactionObjects hashes => some (ledger.filter fun tx => tx.address ∈ hashes)
  | c => good c

/-- A request for channels of depth one. -/
def sendReq : SendMamReq := ⟨some (Vector.replicate 81 0), 1, none, "", [], []⟩

/-- A call for a node with this ledger. -/
def sendCall (ledger : List Transaction) : SendCall where
  req := sendReq
  trace := (exec world
    (taSendMamMessage labelled counting 3 core.taConf core.iotaConf sendReq).run
    (fun _ => node ledger) buffered).1
  result := (exec world
    (taSendMamMessage labelled counting 3 core.taConf core.iotaConf sendReq).run
    (fun _ => node ledger) buffered).2.1

theorem path_sendCall (ledger : List Transaction) :
    Path (taSendMamMessage labelled counting 3 core.taConf core.iotaConf (sendCall ledger).req).run
      (sendCall ledger).trace (sendCall ledger).result := by
  simp only [sendCall]
  exact path_exec (V := world) _ _ _

/-- What the first call leaves. -/
def firstLedger : List Transaction := [header (channelId 0) 0, header (channelId 0) 1]

theorem ledgerOf_first : ledgerOf labelled (sendCall []).trace = firstLedger := by
  obtain ⟨tx, tx', hstored, htx, htx'⟩ : ∃ tx tx', stored (sendCall []).trace =
      [[labelled.serialize tx], [labelled.serialize tx']] ∧
      label tx = label (header (channelId 0) 0) ∧ label tx' = label (header (channelId 0) 1) :=
    ⟨_, _, rfl, labelled_labels.deserialize _ true, labelled_labels.deserialize _ true⟩
  rw [ledgerOf, hstored, firstLedger, ← deserialize_serialize htx, ← deserialize_serialize htx']
  rfl

/-- Two calls, the second one for a node that has the bundles of the first. -/
def sendCalls : List SendCall := [sendCall [], sendCall firstLedger]

theorem calls_sendCalls : Calls labelled counting 3 core.taConf core.iotaConf
    (Vector.replicate 81 0) 1 sendCalls := by
  rw [Calls, sendCalls, List.forall_mem_cons, List.forall_mem_singleton]
  refine ⟨⟨path_sendCall [], ⟨rfl, rfl, rfl⟩, ?_⟩, path_sendCall firstLedger, ⟨rfl, rfl, rfl⟩, ?_⟩
  · decide
  · decide

theorem returns_filter (ledger : List Transaction) (chid : Hash243) :
    Returns ledger (chid, ledger.filter fun tx => tx.address ∈ [chid]) := by
  constructor
  · intro tx htx
    rw [List.mem_filter] at htx
    exact ⟨htx.1, List.mem_singleton.mp (of_decide_eq_true htx.2)⟩
  · intro tx htx haddr
    exact List.mem_filter.mpr ⟨htx, decide_eq_true (List.mem_singleton.mpr haddr)⟩

theorem faithful_sendCalls : Faithful labelled [] sendCalls := by
  have hfirst : fetched (sendCall []).trace = [(channelId 0, [])] := rfl
  have hsecond : fetched (sendCall firstLedger).trace =
      [(channelId 1, firstLedger.filter fun tx => tx.address ∈ [channelId 1]),
        (channelId 0, firstLedger.filter fun tx => tx.address ∈ [channelId 0])] := rfl
  refine ⟨?_, ?_, trivial⟩
  · rw [hfirst, List.forall_mem_singleton]
    exact returns_filter [] (channelId 0)
  · rw [ledgerOf_first, List.nil_append, hsecond, List.forall_mem_cons, List.forall_mem_singleton]
    exact ⟨returns_filter .., returns_filter ..⟩

end Sample

end TangleAccelerator
