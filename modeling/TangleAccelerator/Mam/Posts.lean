import TangleAccelerator.Mam.Receive
import TangleAccelerator.Tangle.Ledger

/-!
# What a sender leaves on the Tangle

A call of `ta_send_mam_message` leaves one or two bundles on a channel: the message, and after the
last message of a channel the announcement of the next one.  `Mam.Rollover` says with which keys
they are made.  Here it is said what they hold: a message bundle is made of the header of an unused
key and a packet with the time and the message of the request, under the encryption keys of the
request.

`Entry` is a bundle on the Tangle with what it is for, and `Told` is what a call leaves: its
entries, which are all that the call adds to the ledger.
-/

namespace TangleAccelerator

open Effect

/-! ## Entries of a channel -/

/-- What a bundle on a channel is for. -/
inductive Content where
  | message (text : String)
  | next (chid1 : Hash243)

/-- The bundle was written on the channel, under the keys, for this. -/
def Tells (M : MamLib) (chid : Hash243) (keys : MamEncryptKey) (bundle : List Transaction) :
    Content → Prop
  | .message text => ∃ api header, header = M.writeHeaderOnChannel api chid keys ∧
      bundle = (M.writePacket header.2.2.2 header.2.2.1 (M.asciiToTrytes text)
        (header.1 :: header.2.1)).1
  | .next chid1 => ∃ api, bundle = (M.announceChannel api chid chid1 keys).1

/-- A bundle on the Tangle, and what it is for. -/
structure Entry where
  post : Posted
  content : Content

variable {I : Iota} {M : MamLib} {τ : List (Event sig)} {info : TaConfig} {iconf : IotaConfig}
  {keys : MamEncryptKey}

/-! ## The header of a message -/

/-- The search has ended with a header that was just written.  If its ID is not on the channel,
nothing was done to the library state since. -/
def Headed (keys : MamEncryptKey) (chid : Hash243) (txs : List Transaction) (k : KeySearch M) :
    Prop :=
  ∃ api header, header = M.writeHeaderOnChannel api chid keys ∧
    k.bundle = header.1 :: header.2.1 ∧ k.msgId = header.2.2.1 ∧
    (k.msgId ∉ idsOf txs → k.api = header.2.2.2)

theorem path_searchKey_header (D : MamIds M) {chid : Hash243} {txs : List Transaction}
    {remain : Nat} {used : Int} {api : M.Api} {k : KeySearch M}
    (h : Path (searchKey M keys chid (collectTags txs []) remain used api).run τ (.ok (some k))) :
    Headed keys chid txs k := by
  induction remain generalizing used api τ with
  | zero =>
      obtain ⟨-, hk⟩ := (path_run_pure ..).mp h
      cases hk
  | succ remain ih =>
      rw [searchKey, path_run_bind_ok] at h
      obtain ⟨_, τ₁, τ₂, -, -, h⟩ := h
      dsimp only at h
      split at h
      · rename_i hused
        split at h
        · obtain ⟨-, hk⟩ := (path_run_pure ..).mp h
          cases hk
          refine ⟨api, _, rfl, rfl, rfl, fun hnot => absurd ?_ hnot⟩
          rwa [msgIdExist_collectTags, D.header_tag, ← D.header_id api chid keys] at hused
        · exact ih h
      · obtain ⟨-, hk⟩ := (path_run_pure ..).mp h
        cases hk
        exact ⟨api, _, rfl, rfl, rfl, fun _ => rfl⟩

theorem path_searchChannel_header (D : MamIds M) {d fuel : Nat} {firstIter : Bool}
    {chid₀ chid : Hash243} {api : M.Api} {op : MamSendOperation} {k : KeySearch M}
    (h : Path (searchChannel M keys d fuel firstIter chid₀ api).run τ (.ok (some (chid, op, k)))) :
    ∃ txs, (chid, txs) ∈ fetched τ ∧ Headed keys chid txs k := by
  induction fuel generalizing firstIter chid₀ api τ with
  | zero =>
      obtain ⟨-, hres⟩ := (path_run_pure ..).mp h
      cases hres
  | succ fuel ih =>
      rw [searchChannel, path_run_bind_ok] at h
      obtain ⟨⟨tags, ch⟩, τ₁, τ₂, rfl, hfetch, h⟩ := h
      obtain ⟨txs, τ₃, τ₄, rfl, hnothing, hquery, rfl, -⟩ :=
        path_createChannelFetchAllTransactions hfetch
      rw [path_run_bind_ok] at h
      obtain ⟨result, τ₅, τ₆, rfl, hsearch, h⟩ := h
      have hfetched : fetched ((τ₃ ++ τ₄) ++ (τ₅ ++ τ₆)) = τ₆.foldl fetchStep [(ch.1, txs)] := by
        rw [fetched, List.foldl_append, List.foldl_append, List.foldl_append,
          foldl_fetchStep_of_nothing hnothing, foldl_fetchStep_query hquery,
          foldl_fetchStep_of_nothing ((uses_searchKey M trivial ..).path hsearch)]
      have hhere : ∀ k', result = some k' → τ₆ = [] →
          ∃ txs, (ch.1, txs) ∈ fetched ((τ₃ ++ τ₄) ++ (τ₅ ++ τ₆)) ∧ Headed keys ch.1 txs k' := by
        rintro k' rfl rfl
        rw [hfetched]
        exact ⟨txs, List.mem_cons_self .., path_searchKey_header D hsearch⟩
      cases result with
      | none =>
          obtain ⟨-, hres⟩ := (path_run_pure ..).mp h
          cases hres
      | some k' =>
          dsimp only at h
          split at h
          · obtain ⟨hdone, hres⟩ := (path_run_pure ..).mp h
            cases hres
            exact hhere _ rfl hdone
          · split at h
            · obtain ⟨txs', hmem, hheader⟩ := ih h
              refine ⟨txs', ?_, hheader⟩
              rw [hfetched, searchChannel_fetched D h]
              exact List.mem_append_left _ hmem
            · obtain ⟨hdone, hres⟩ := (path_run_pure ..).mp h
              cases hres
              exact hhere _ rfl hdone

/-- What is written for message `n` is that message. -/
theorem taMamWrittenMsgToBundle_tells (D : MamChannels M) {seed : Hash243} {d n fuel : Nat}
    {payload : String} {wr : Written M} (hd : 1 ≤ d ∧ d ≤ 20)
    (hknown : ∀ x ∈ fetched τ, Known D seed d n x) (hwr : Writes D seed d n wr)
    (h : Path (taMamWrittenMsgToBundle M fuel (M.apiInit seed) d none keys payload).run τ
      (.ok (some wr))) :
    Tells M wr.chid keys wr.bundle (.message payload) := by
  rw [taMamWrittenMsgToBundle, path_run_bind_ok] at h
  obtain ⟨_, τ₁, τ₂, rfl, hensure, h⟩ := h
  obtain ⟨rfl, -⟩ := (path_run_ensure ..).mp hensure
  rw [path_run_bind_ok] at h
  obtain ⟨ch, τ₃, τ₄, rfl, hstart, h⟩ := h
  obtain ⟨rfl, hch⟩ := (path_run_pure ..).mp hstart
  cases hch
  rw [path_run_bind_ok] at h
  obtain ⟨found, τ₅, τ₆, rfl, hsearch, h⟩ := h
  cases found with
  | none =>
      obtain ⟨-, hres⟩ := (path_run_pure ..).mp h
      cases hres
  | some found =>
      obtain ⟨chid, op, k⟩ := found
      rw [path_run_bind_ok] at h
      obtain ⟨_, τ₇, τ₈, rfl, hpacket, h⟩ := h
      obtain ⟨rfl, hres⟩ := (path_run_pure ..).mp h
      cases hres
      obtain ⟨txs, hmem, api₁, header, hheader, hbundle, hid, hapi⟩ :=
        path_searchChannel_header D.toMamIds hsearch
      have hnothing : ∀ e ∈ τ₇ ++ [], e.cmd.FetchesNothing := by
        rw [path_mamCall.mp hpacket]
        exact List.forall_mem_singleton.mpr trivial
      have hfetched : (chid, txs) ∈ fetched ([] ++ ([] ++ (τ₅ ++ (τ₇ ++ [])))) := by
        rw [List.nil_append, List.nil_append, fetched, List.foldl_append,
          foldl_fetchStep_of_nothing hnothing]
        exact hmem
      -- the key of message `n` is not used yet
      have hids : idsOf txs = usedIds D seed d n (n / (2 ^ d - 1)) :=
        hknown _ hfetched _ (le_refl _) hwr.chid
      have hlt := mod_lt_messages (n := n) hd.1
      have hmsgId : k.msgId = D.msgId (D.chan seed d (n / (2 ^ d - 1))) (n % (2 ^ d - 1)) :=
        hwr.msgId
      have hunused : k.msgId ∉ idsOf txs := by
        rw [hids, hmsgId, msgId_mem_usedIds hd (by omega), keysUsed, if_neg (by omega),
          if_pos rfl]
        omega
      refine ⟨api₁, header, hheader, ?_⟩
      dsimp only
      rw [hapi hunused, hid, hbundle]

/-! ## The phases of a call -/

/-- A call that returns a result: its trace, its result, its keys and what it has written. -/
inductive Speaks (I : Iota) (M : MamLib) (fuel : Nat) (info : TaConfig) (iconf : IotaConfig)
    (req : SendMamReq) : List (Event sig) → SendMamRes → MamEncryptKey → String → Prop where
  | intro {api : M.Api} {keys : MamEncryptKey} {sec : Nat} {wr : Written M} {res : SendMamRes}
      {sends : Sends} {τ₀ τ₁ τ₂ τ₃ : List (Event sig)}
      (init : ∀ s, req.seed = some s → api = M.apiInit s) (before : ∀ e ∈ τ₀, e.cmd.SetsUp)
      (time : (⟨.clockGettime, sec⟩ : Event sig) ∈ τ₀)
      (keyed : ∃ τ, Path (taSetMamKey req.pskArray req.ntruArray).run τ (.ok keys))
      (write : Path (taMamWrittenMsgToBundle M fuel api req.chMssDepth req.chid keys
        (timestamped sec req.message)).run τ₁ (.ok (some wr)))
      (send : SendsWritten I info iconf req.chMssDepth.toNat keys wr τ₂ res sends)
      (after : ∀ e ∈ τ₃, e.cmd.SetsUp) :
      Speaks I M fuel info iconf req (τ₀ ++ (τ₁ ++ (τ₂ ++ τ₃))) res keys
        (timestamped sec req.message)

theorem path_taSendMamMessage_speaks {fuel : Nat} {req : SendMamReq} {res : SendMamRes}
    (h : Path (taSendMamMessage I M fuel info iconf req).run τ (.ok (some res))) :
    ∃ keys text, Speaks I M fuel info iconf req τ res keys text := by
  rw [taSendMamMessage, path_run_bind_ok] at h
  obtain ⟨api, τ₀, τ₁, rfl, hinit, h⟩ := h
  obtain ⟨hbefore, hapi⟩ := path_taMamInit hinit
  rw [path_run_attempt_bind] at h
  obtain ⟨ret, τ₂, τ₃, rfl, hbody, h⟩ := h
  rcases ret with ⟨e, api'⟩ | ⟨o, api'⟩
  · dsimp only at h
    rw [map_eq_pure_bind, path_run_bind_ok] at h
    obtain ⟨res, τ₄, τ₅, -, hdone, -⟩ := h
    cases (path_mamDone hdone).2
  · rw [sendMamBody, path_run_bind_ok] at hbody
    obtain ⟨keys, τ₄, τ₅, rfl, hkeys, hbody⟩ := hbody
    rw [path_withApi] at hkeys
    rw [path_run_request_bind] at hbody
    obtain ⟨sec, τ₆, rfl, hbody⟩ := hbody
    rw [path_run_bind_ok] at hbody
    obtain ⟨written, τ₇, τ₈, rfl, hwrite, hbody⟩ := hbody
    cases written with
    | none =>
        obtain ⟨-, hres⟩ := (path_run_pure ..).mp hbody
        cases hres
        cases ((path_run_pure ..).mp h).2
    | some wr =>
        rw [path_run_bind_ok] at hbody
        obtain ⟨⟨res', api''⟩, τ₉, τ₁₀, rfl, hsend, hbody⟩ := hbody
        obtain ⟨rfl, hres⟩ := (path_run_pure ..).mp hbody
        cases hres
        dsimp only at h
        rw [map_eq_pure_bind, path_run_bind_ok] at h
        obtain ⟨res'', τ₁₁, τ₁₂, rfl, hdone, h⟩ := h
        obtain ⟨rfl, hres⟩ := (path_run_pure ..).mp h
        cases hres
        obtain ⟨hafter, hres⟩ := path_mamDone hdone
        cases hres
        obtain ⟨sends, hsends⟩ := path_sendWritten hsend
        have hsetup : ∀ e ∈ τ₀ ++ (τ₄ ++ [⟨.clockGettime, sec⟩]), e.cmd.SetsUp := by
          have huses : Uses (S := sig) Cmd.SetsUp (taSetMamKey req.pskArray req.ntruArray).run :=
            uses_taSetMamKey (fun _ hc => hc) _ _
          rw [List.forall_mem_append, List.forall_mem_append, List.forall_mem_singleton]
          exact ⟨hbefore, huses.path hkeys, trivial⟩
        have htrace : τ₀ ++ (τ₄ ++ ⟨.clockGettime, sec⟩ :: (τ₇ ++ (τ₉ ++ [])) ++ (τ₁₁ ++ [])) =
            (τ₀ ++ (τ₄ ++ [⟨.clockGettime, sec⟩])) ++ (τ₇ ++ (τ₉ ++ τ₁₁)) := by
          simp
        rw [htrace]
        exact ⟨keys, _, .intro hapi hsetup (by simp) ⟨τ₄, hkeys⟩ hwrite hsends hafter⟩

/-! ## What a call leaves -/

@[simp] theorem ledgerOf_append (τ₁ τ₂ : List (Event sig)) :
    ledgerOf I (τ₁ ++ τ₂) = ledgerOf I τ₁ ++ ledgerOf I τ₂ := by
  simp [ledgerOf]

theorem ledgerOf_eq_nil (h : ∀ e ∈ τ, e.cmd.StoresNothing) : ledgerOf I τ = [] := by
  rw [ledgerOf, stored_eq_nil h]
  rfl

/-- A bundle that was sent is a post. -/
theorem taSendBundle_bySend {limit : Nat} (C : IotaCodec I limit) {bundle sent : List Transaction}
    (hne : bundle ≠ []) (hgood : ∀ e ∈ τ, CallFails e = false)
    (h : Path (taSendBundle I info iconf bundle).run τ (.ok sent)) :
    ∃ p : Posted, p.BySend I info iconf ∧ p.bundle = bundle ∧ p.txs = ledgerOf I τ := by
  have hfinal : I.finalize bundle ≠ [] := by
    rw [← List.length_pos_iff, C.length_finalize]
    exact List.length_pos_iff.mpr hne
  obtain ⟨tail, rest, hcons⟩ := List.exists_cons_of_ne_nil hfinal
  obtain rfl := (path_taSendBundle h).1
  rw [hcons] at h
  refine ⟨⟨bundle, tail.bundle, _⟩, ⟨τ, tail, rest, h, fun e he => ?_, rfl, rfl⟩, rfl, rfl⟩
  have hok := hgood e he
  rw [CallFails, Bool.or_eq_false_iff, Bool.or_eq_false_iff] at hok
  exact hok.1.1

/-- The entries are on the channels and made with the keys. -/
def MadeWith (D : MamChannels M) (seed : Hash243) (d : Nat) (e : Entry) (key : Nat × Nat) : Prop :=
  ∀ tx ∈ e.post.bundle, tx.address = D.chan seed d key.1 ∧
    msgIdOf tx.tag = D.msgId (D.chan seed d key.1) key.2

/-- What the call for message `n` leaves. -/
structure Told (I : Iota) (info : TaConfig) (iconf : IotaConfig) (D : MamChannels M)
    (seed : Hash243) (d n : Nat) (c : SendCall) (text : String) (entries : List Entry) : Prop where
  time : ∃ sec, (⟨.clockGettime, sec⟩ : Event sig) ∈ c.trace ∧
    text = timestamped sec c.req.message
  content : entries.map (·.content) = .message text ::
    if n % (2 ^ d - 1) + 1 = 2 ^ d - 1 then [.next (D.chan seed d (n / (2 ^ d - 1) + 1))] else []
  sent : ∀ e ∈ entries, e.post.BySend I info iconf ∧ e.post.bundle ≠ []
  madeWith : List.Forall₂ (MadeWith D seed d) entries (keysOf d n)
  tells : ∃ keys, keys.psks = pskSet c.req.pskArray ∧
    (c.req.ntruArray = [] → keys.ntruPks = []) ∧
    ∀ e ∈ entries, Tells M (D.chan seed d (n / (2 ^ d - 1))) keys e.post.bundle e.content
  ledger : ledgerOf I c.trace = entries.flatMap (·.post.txs)

/-- What is sent of a written message. -/
theorem SendsWritten.entries {limit : Nat} (C : IotaCodec I limit) {D : MamChannels M}
    {seed : Hash243} {d n : Nat} {wr : Written M} {res : SendMamRes} {sends : Sends}
    {text : String}
    (hne : n % (2 ^ d - 1) + 1 = 2 ^ d - 1 →
      D.chan seed d (n / (2 ^ d - 1)) ≠ D.chan seed d (n / (2 ^ d - 1) + 1))
    (hwr : Writes D seed d n wr) (htells : Tells M wr.chid keys wr.bundle (.message text))
    (hgood : ∀ e ∈ τ, CallFails e = false)
    (h : SendsWritten I info iconf d keys wr τ res sends) :
    ∃ entries : List Entry,
      entries.map (·.content) = (.message text ::
        if n % (2 ^ d - 1) + 1 = 2 ^ d - 1 then [.next (D.chan seed d (n / (2 ^ d - 1) + 1))]
        else []) ∧
      (∀ e ∈ entries, e.post.BySend I info iconf ∧ e.post.bundle ≠ []) ∧
      List.Forall₂ (MadeWith D seed d) entries (keysOf d n) ∧
      (∀ e ∈ entries,
        Tells M (D.chan seed d (n / (2 ^ d - 1))) keys e.post.bundle e.content) ∧
      ledgerOf I τ = entries.flatMap (·.post.txs) := by
  have hbundle : ∀ tx ∈ wr.bundle, tx.address = D.chan seed d (n / (2 ^ d - 1)) ∧
      msgIdOf tx.tag = D.msgId (D.chan seed d (n / (2 ^ d - 1))) (n % (2 ^ d - 1)) := by
    rw [← hwr.msgId, ← hwr.chid]
    exact hwr.bundle
  rw [hwr.chid] at htells
  cases h with
  | message operation send =>
      have hlast : ¬ n % (2 ^ d - 1) + 1 = 2 ^ d - 1 := by
        intro hlast
        rw [hwr.operation, if_pos hlast] at operation
        cases operation
      obtain ⟨p, hsent, hp, htxs⟩ := taSendBundle_bySend C hwr.bundle_ne hgood send
      rw [← hp] at htells hbundle
      refine ⟨[⟨p, .message text⟩], by rw [if_neg hlast]; rfl, ?_, ?_, ?_, ?_⟩
      · exact List.forall_mem_singleton.mpr ⟨hsent, hp ▸ hwr.bundle_ne⟩
      · rw [keysOf, if_neg hlast]
        exact .cons hbundle .nil
      · exact List.forall_mem_singleton.mpr htells
      · rw [List.flatMap_singleton, htxs]
  | announced operation send create write sendAnnounce =>
      have hlast : n % (2 ^ d - 1) + 1 = 2 ^ d - 1 := by
        by_contra hlast
        rw [hwr.operation, if_neg hlast] at operation
        cases operation
      rw [List.forall_mem_append, List.forall_mem_append] at hgood
      have hch : (M.channelCreate wr.api d).1 = D.chan seed d (n / (2 ^ d - 1) + 1) := by
        rw [D.create_id, hwr.place]
      subst create write
      have hannounce := D.announce_txns (M.channelCreate wr.api d).2 wr.chid
        (M.channelCreate wr.api d).1 keys
      rw [hwr.chid, D.headers_create_of_ne _ _ _ (by rw [hch]; exact hne hlast), hwr.headers,
        hlast] at hannounce
      rw [hwr.chid] at sendAnnounce
      obtain ⟨p, hsent, hp, htxs⟩ := taSendBundle_bySend C hwr.bundle_ne hgood.1 send
      obtain ⟨q, hsent', hq, htxs'⟩ := taSendBundle_bySend C hannounce.1 hgood.2.2 sendAnnounce
      have hquiet : ledgerOf I ([⟨.mam .channelCreate, true⟩, ⟨.mam .announceChannel, true⟩] :
          List (Event sig)) = [] := rfl
      rw [← hp] at htells hbundle
      have htells' : Tells M (D.chan seed d (n / (2 ^ d - 1))) keys q.bundle
          (.next (D.chan seed d (n / (2 ^ d - 1) + 1))) :=
        ⟨(M.channelCreate wr.api d).2, by rw [hq, hch]⟩
      rw [← hq] at hannounce
      refine ⟨[⟨p, .message text⟩, ⟨q, .next _⟩], by rw [if_pos hlast]; rfl, ?_, ?_, ?_, ?_⟩
      · rw [List.forall_mem_cons, List.forall_mem_singleton]
        exact ⟨⟨hsent, hp ▸ hwr.bundle_ne⟩, hsent', hannounce.1⟩
      · rw [keysOf, if_pos hlast]
        exact .cons hbundle (.cons hannounce.2 .nil)
      · rw [List.forall_mem_cons, List.forall_mem_singleton]
        exact ⟨htells, htells'⟩
      · rw [ledgerOf_append, ledgerOf_append, hquiet, List.flatMap_cons, List.flatMap_singleton,
          htxs, htxs', List.nil_append]

theorem path_setPsks_pks {psks : List (Vector Tryte 81)} {keys' : MamEncryptKey}
    (h : Path (setPsks psks keys).run τ (.ok keys')) : keys'.ntruPks = keys.ntruPks := by
  induction psks generalizing keys τ with
  | nil =>
      obtain ⟨-, he⟩ := (path_run_pure ..).mp h
      cases he
      rfl
  | cons psk psks ih =>
      rw [setPsks, fillNines_zero, path_run_bind_ok] at h
      obtain ⟨pskId, τ₁, τ₂, rfl, -, h⟩ := h
      rw [path_run_request_bind] at h
      obtain ⟨ok, τ₃, rfl, h⟩ := h
      rw [path_run_bind_ok] at h
      obtain ⟨_, τ₄, τ₅, rfl, -, h⟩ := h
      rw [ih h]

/-- Without NTRU keys in the request there are none. -/
theorem path_taSetMamKey_pks {psks : List (Vector Tryte 81)}
    (h : Path (taSetMamKey psks []).run τ (.ok keys)) : keys.ntruPks = [] := by
  rw [taSetMamKey, path_run_bind_ok] at h
  obtain ⟨keys₁, τ₁, τ₂, rfl, hpsks, hpks⟩ := h
  obtain ⟨-, he⟩ := (path_run_pure ..).mp hpks
  cases he
  rw [path_setPsks_pks hpsks]

/-- The call for message `n`, from what the node returns on the channels of the seed. -/
theorem taSendMamMessage_told {limit : Nat} (C : IotaCodec I limit) (D : MamChannels M)
    {seed : Hash243} {d n fuel : Nat} {c : SendCall} (hd : 1 ≤ d ∧ d ≤ 20)
    (hfuel : n / (2 ^ d - 1) < fuel)
    (hne : n % (2 ^ d - 1) + 1 = 2 ^ d - 1 →
      D.chan seed d (n / (2 ^ d - 1)) ≠ D.chan seed d (n / (2 ^ d - 1) + 1))
    (hreq : c.req.seed = some seed ∧ c.req.chMssDepth = d ∧ c.req.chid = none)
    (hgood : ∀ e ∈ c.trace, CallFails e = false)
    (hknown : ∀ x ∈ fetched c.trace, Known D seed d n x)
    (h : Path (taSendMamMessage I M fuel info iconf c.req).run c.trace c.result) :
    ∃ text entries, Told I info iconf D seed d n c text entries := by
  obtain ⟨res, hres, -⟩ :=
    taSendMamMessage_rolledOver D C.toIotaLabels hd hfuel hne hreq hgood hknown h
  rw [hres] at h
  obtain ⟨keys, text, hspeaks⟩ := path_taSendMamMessage_speaks h
  obtain ⟨hseed, hdepth, hchid⟩ := hreq
  obtain ⟨req, trace, result⟩ := c
  dsimp only at hseed hdepth hchid hgood hknown hspeaks
  cases hspeaks with
  | intro init before time keyed write send after =>
      rename_i sec wr sends τ₀ τ₁ τ₂ τ₃
      rw [init seed hseed, hdepth, hchid] at write
      rw [hdepth, Int.toNat_natCast] at send
      have hnothing : ∀ e ∈ τ₂ ++ τ₃, e.cmd.FetchesNothing := List.forall_mem_append.mpr
        ⟨send.fetchesNothing, fun e he => (after e he).fetchesNothing⟩
      rw [fetched, List.foldl_append, List.foldl_append,
        foldl_fetchStep_of_nothing fun e he => (before e he).fetchesNothing,
        foldl_fetchStep_of_nothing hnothing] at hknown
      obtain ⟨wr', hwr', hwrites⟩ := taMamWrittenMsgToBundle_writes D hd hfuel hknown write
      cases hwr'
      have htells := taMamWrittenMsgToBundle_tells D hd hknown hwrites write
      have hgood₂ : ∀ e ∈ τ₂, CallFails e = false := by
        intro e he
        apply hgood
        simp [he]
      obtain ⟨entries, hcontent, hsent, hmade, hall, hledger⟩ :=
        send.entries C hne hwrites htells hgood₂
      obtain ⟨τk, hkeys⟩ := keyed
      refine ⟨_, entries, ⟨sec, List.mem_append_left _ time, rfl⟩, hcontent, hsent, hmade,
        ⟨keys, path_taSetMamKey hkeys, ?_, hall⟩, ?_⟩
      · intro hntru
        dsimp only at hntru
        rw [hntru] at hkeys
        exact path_taSetMamKey_pks hkeys
      · have hwrite := (uses_taMamWrittenMsgToBundle M (fun _ hc => hc.quiet.storesNothing)
          fuel (M.apiInit seed) d none _ _).path write
        rw [ledgerOf_append, ledgerOf_append, ledgerOf_append,
          ledgerOf_eq_nil fun e he => (before e he).storesNothing, ledgerOf_eq_nil hwrite,
          ledgerOf_eq_nil fun e he => (after e he).storesNothing, hledger, List.nil_append,
          List.nil_append, List.append_nil]

/-! ## All calls -/

/-- What the first calls have left. -/
def postedBy (I : Iota) (calls : List SendCall) : List Transaction :=
  calls.flatMap fun c => ledgerOf I c.trace

theorem faithful_getElem {calls : List SendCall} {ledger : List Transaction}
    (h : Faithful I ledger calls) (i : Nat) (hi : i < calls.length) :
    ∀ x ∈ fetched calls[i].trace, Returns (ledger ++ postedBy I (calls.take i)) x := by
  induction calls generalizing ledger i with
  | nil => exact absurd hi (Nat.not_lt_zero i)
  | cons c calls ih =>
      cases i with
      | zero => simpa [postedBy] using h.1
      | succ i =>
          have hrest := ih h.2 i (Nat.lt_of_succ_lt_succ hi)
          rwa [List.append_assoc] at hrest

section Calls

variable {D : MamChannels M} {seed : Hash243} {d K fuel limit : Nat} {calls : List SendCall}
  (C : IotaCodec I limit) (hd : 1 ≤ d ∧ d ≤ 20) (hdistinct : Distinct D seed d K)
  (hK : calls.length / (2 ^ d - 1) ≤ K) (hfuel : K < fuel)
  (hcalls : Calls I M fuel info iconf seed d calls) (hfaithful : Faithful I [] calls)
include C hd hdistinct hK hfuel hcalls hfaithful

theorem ledger_postedBy (i : Nat) (hi : i ≤ calls.length) :
    Ledger D seed d K i (postedBy I (calls.take i)) := by
  induction i with
  | zero => exact ledger_nil hd.1
  | succ i ih =>
      obtain ⟨res, -, hrolled⟩ := calls_rolledOver D C.toIotaLabels hd hdistinct
        (by rwa [Nat.zero_add]) hfuel hcalls hfaithful (ledger_nil hd.1) i hi
      rw [Nat.zero_add] at hrolled
      have hle : i / (2 ^ d - 1) ≤ K := (Nat.div_le_div_right (Nat.le_of_succ_le hi)).trans hK
      have hnext := (ih (Nat.le_of_succ_le hi)).succ hd.1 hdistinct hle hrolled
      rw [List.take_succ_eq_append_getElem hi, postedBy, List.flatMap_append,
        List.flatMap_singleton]
      exact hnext

/-- Every call leaves what it was asked to send. -/
theorem calls_told (i : Nat) (hi : i < calls.length) :
    ∃ text entries, Told I info iconf D seed d i calls[i] text entries := by
  obtain ⟨hpath, hreq, hgood⟩ := hcalls _ (List.getElem_mem hi)
  have hle : ∀ j ≤ calls.length, j / (2 ^ d - 1) ≤ K := fun j hj =>
    (Nat.div_le_div_right hj).trans hK
  have hne : i % (2 ^ d - 1) + 1 = 2 ^ d - 1 →
      D.chan seed d (i / (2 ^ d - 1)) ≠ D.chan seed d (i / (2 ^ d - 1) + 1) := by
    intro hlast heq
    have hsucc := hle (i + 1) hi
    rw [(succ_last hd.1 hlast).1] at hsucc
    have := hdistinct.chan_inj (hle i (by omega)) hsucc heq
    omega
  have hledger := ledger_postedBy C hd hdistinct hK hfuel hcalls hfaithful i (by omega)
  refine taSendMamMessage_told C D hd ((hle i (by omega)).trans_lt hfuel) hne hreq hgood ?_ hpath
  intro x hx
  exact hledger.known (hle i (by omega)) (faithful_getElem hfaithful i hi x hx)

end Calls

end TangleAccelerator
