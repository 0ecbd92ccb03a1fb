import TangleAccelerator.Mam.Posts

/-!
# Reading what was sent

What a call of `ta_recv_mam_message` returns for a channel, where the answers come from a ledger.

`MamReads` is what is assumed of reading: on a channel that is trusted, and with the key, a bundle
is read as what was written.  The call finds the bundles of the channel with
`ta_get_bundles_by_addr`, in some order, and reads each of them.  A message becomes a payload, and
an announcement makes the channel it names trusted, which is how `chid1` is found.
-/

namespace TangleAccelerator

open Effect

/-! ## Reading -/

/-- The payload of a bundle.  An announcement has none. -/
def Content.payload (M : MamLib) : Content → List Tryte
  | .message text => M.asciiToTrytes text
  | .next _ => []

/-- The entry that is added to the payloads. -/
def Content.text : Content → Option String
  | .message text => some text
  | .next _ => none

/-- The channels that are trusted after a bundle was read. -/
def Content.trust (trusted : List Hash243) : Content → List Hash243
  | .message _ => trusted
  | .next chid1 => setAdd trusted chid1

/-- What is assumed of the MAM library: reading undoes writing.  A bundle of a payload of at most
`capacity` trytes has at most `limit` transactions. -/
structure MamReads (R : MamReader) (limit capacity : Nat) where
  /-- The pre-shared keys that were added. -/
  held : R.Api → List (List Tryte × Vector Tryte 81)
  trusted_init : ∀ seed, R.trustedChannelPks (R.apiInit seed) = []
  trusted_add : ∀ api chid, R.trustedChannelPks (R.addTrustedChannelPk api chid) =
    setAdd (R.trustedChannelPks api) chid
  trusted_psk : ∀ api psk, R.trustedChannelPks (R.addPsk api psk) = R.trustedChannelPks api
  held_psk : ∀ api psk, psk ∈ held (R.addPsk api psk)
  /-- A bundle is read by what it says.  It has to be on a trusted channel, and it has to be plain
  or encrypted for a key that is held. -/
  reads : ∀ api chid keys bundle content txs, Tells R.toMamLib chid keys bundle content →
    txs.map said = bundle.map said → chid ∈ R.trustedChannelPks api →
    (keys.psks = [] ∧ keys.ntruPks = [] ∨ ∃ psk ∈ keys.psks, psk ∈ held api) →
    ∃ api', R.bundleRead api (some txs) = (some (content.payload R.toMamLib), api') ∧
      R.trustedChannelPks api' = content.trust (R.trustedChannelPks api) ∧ held api' = held api
  size : ∀ chid keys bundle content, Tells R.toMamLib chid keys bundle content →
    (content.payload R.toMamLib).length ≤ capacity → bundle.length ≤ limit
  ascii : ∀ text, Json.Tree.Ascii text → R.trytesToAscii (R.asciiToTrytes text) = text
  ascii_ne : ∀ text, text ≠ "" → R.asciiToTrytes text ≠ []

/-- A text that comes through. -/
def Content.Legible : Content → Prop
  | .message text => Json.Tree.Ascii text ∧ text ≠ ""
  | .next _ => True

section Reading

variable {R : MamReader} {limit capacity : Nat} (X : MamReads R limit capacity) {api : R.Api}

/-- The entry can be read on this channel in this state. -/
structure MamReads.Open (api : R.Api) (chid : Hash243) (e : Entry) : Prop where
  said_eq : e.post.txs.map said = e.post.bundle.map said
  tells : ∃ keys, Tells R.toMamLib chid keys e.post.bundle e.content ∧
    (keys.psks = [] ∧ keys.ntruPks = [] ∨ ∃ psk ∈ keys.psks, psk ∈ X.held api)
  legible : e.content.Legible

theorem mem_trust {trusted : List Hash243} {content : Content} {chid : Hash243} :
    chid ∈ content.trust trusted ↔ chid ∈ trusted ∨ content = .next chid := by
  cases content with
  | message text => simp [Content.trust]
  | next chid1 =>
      by_cases h : chid1 ∈ trusted
      · simp only [Content.trust, setAdd, if_pos h, Content.next.injEq]
        exact ⟨Or.inl, fun hc => hc.elim id fun he => he ▸ h⟩
      · simp [Content.trust, setAdd, if_neg h, eq_comm]

variable {X}

/-- What `ta_mam_api_bundle_read` makes of an entry. -/
theorem MamReads.Open.read {chid : Hash243} {e : Entry} (h : X.Open api chid e)
    (htrusted : chid ∈ R.trustedChannelPks api) :
    ∃ api', isReadable R api (some e.post.txs) = true ∧
      payloadOf R api (some e.post.txs) = e.content.text ∧
      (R.bundleRead api (some e.post.txs)).2 = api' ∧
      R.trustedChannelPks api' = e.content.trust (R.trustedChannelPks api) ∧
      X.held api' = X.held api := by
  obtain ⟨keys, htells, hkeys⟩ := h.tells
  obtain ⟨api', hread, htrust, hheld⟩ :=
    X.reads api chid keys _ _ _ htells h.said_eq htrusted hkeys
  refine ⟨api', ?_, ?_, by rw [hread], htrust, hheld⟩
  · rw [isReadable, hread]
    rfl
  · rw [payloadOf, taMamApiBundleRead, hread]
    have hlegible := h.legible
    generalize e.content = content at hlegible
    cases content with
    | message text =>
        obtain ⟨t, trytes, hcons⟩ := List.exists_cons_of_ne_nil (X.ascii_ne text hlegible.2)
        have hback := X.ascii text hlegible.1
        rw [hcons] at hback
        simp only [Content.payload, hcons, hback]
        rfl
    | next chid1 => rfl

/-- The loop over the bundles reads every entry. -/
theorem MamReads.readBundles_open {chid : Hash243} {entries : List Entry}
    (hopen : ∀ e ∈ entries, X.Open api chid e) (htrusted : chid ∈ R.trustedChannelPks api)
    (payloadArray : List (Option String)) :
    ∃ api', readBundles R (entries.map fun e => some e.post.txs) api payloadArray =
        (payloadArray ++ entries.map (·.content.text), true, api') ∧
      ∀ c, c ∈ R.trustedChannelPks api' ↔
        c ∈ R.trustedChannelPks api ∨ ∃ e ∈ entries, e.content = .next c := by
  induction entries generalizing api payloadArray with
  | nil => exact ⟨api, by simp [readBundles], by simp⟩
  | cons e entries ih =>
      rw [List.forall_mem_cons] at hopen
      obtain ⟨api₁, hreadable, hpayload, hapi, htrust, hheld⟩ := hopen.1.read htrusted
      have hopen₁ : ∀ e' ∈ entries, X.Open api₁ chid e' := by
        intro e' he'
        obtain ⟨hsaid, htells, hlegible⟩ := hopen.2 e' he'
        exact ⟨hsaid, by rwa [hheld], hlegible⟩
      have htrusted₁ : chid ∈ R.trustedChannelPks api₁ := by
        rw [htrust, mem_trust]
        exact Or.inl htrusted
      obtain ⟨api', hread, hmem⟩ := ih hopen₁ htrusted₁
        (payloadArray ++ [e.content.text])
      refine ⟨api', ?_, fun c => ?_⟩
      · rw [List.map_cons, readBundles_cons, if_pos hreadable, hapi, hpayload, hread]
        simp
      · rw [hmem, htrust, mem_trust, or_assoc]
        simp only [List.mem_cons, exists_eq_or_imp]

end Reading

/-- Without a new channel `chid1` stays, and where all new channels are one it is that one. -/
theorem chid1_writeChid1 {init trusted : List Hash243} (res : RecvMamRes) :
    ((∀ c ∈ trusted, c ∈ init) → (writeChid1 init trusted res).chid1 = res.chid1) ∧
    ∀ chid1, (∀ c ∈ trusted, c ∉ init → c = chid1) → (∃ c ∈ trusted, c ∉ init) →
      (writeChid1 init trusted res).chid1 = tryteText chid1.toList := by
  induction trusted generalizing res with
  | nil => exact ⟨fun _ => rfl, fun _ _ h => absurd h (by simp)⟩
  | cons c trusted ih =>
      rw [writeChid1]
      refine ⟨fun hall => ?_, fun chid1 hone hnew => ?_⟩
      · rw [List.forall_mem_cons] at hall
        rw [(ih _).1 hall.2, if_pos hall.1]
      · rw [List.forall_mem_cons] at hone
        simp only [List.mem_cons, exists_eq_or_imp] at hnew
        by_cases hrest : ∃ c' ∈ trusted, c' ∉ init
        · exact (ih _).2 chid1 hone.2 hrest
        · have hc := hnew.resolve_right hrest
          have hold : ∀ c' ∈ trusted, c' ∈ init := by
            intro c' hc'
            by_contra hnot
            exact hrest ⟨c', hc', hnot⟩
          rw [(ih _).1 hold, if_neg hc, hone.1 hc]

/-! ## A call of the receiver -/

section Receiving

variable {I : Iota} {ledger : List Transaction} {R : MamReader} {api : R.Api}

theorem succeeds_mamCall {M : MamLib} {api : M.Api} {f : MamCall} {e : Status} :
    Succeeds (AnsweredFrom I ledger) (mamCall M api f e) fun _ => True := by
  refine (succeeds_command fun ok (hok : ok = true) => hok).bind fun ok hok => ?_
  exact succeeds_ensure hok

theorem succeeds_withApi {M : MamLib} {api : M.Api} {α : Type} {x : Proc α} {P : α → Prop}
    (hx : Succeeds (AnsweredFrom I ledger) x P) :
    Succeeds (AnsweredFrom I ledger) (withApi M api x) P := by
  refine (succeeds_lift hx).bind ?_
  rintro r ⟨a, rfl, ha⟩
  exact succeeds_pure ha

theorem succeeds_setPsks (psks : List (Vector Tryte 81)) (keys : MamEncryptKey) :
    Succeeds (AnsweredFrom I ledger) (setPsks psks keys) fun _ => True := by
  induction psks generalizing keys with
  | nil => exact succeeds_pure trivial
  | cons psk psks ih =>
      rw [setPsks, fillNines_zero]
      refine (succeeds_pure (P := fun _ => True) trivial).bind fun pskId _ => ?_
      refine (succeeds_command fun ok (hok : ok = true) => hok).bind fun ok hok => ?_
      exact (succeeds_ensure hok).bind fun _ _ => ih _

theorem succeeds_setNtruSks (sks : List (Vector Tryte 1024)) (keys : MamEncryptKey) :
    Succeeds (AnsweredFrom I ledger) (setNtruSks sks keys) fun _ => True := by
  induction sks generalizing keys with
  | nil => exact succeeds_pure trivial
  | cons sk sks ih =>
      refine (succeeds_command fun ok (hok : ok = true) => hok).bind fun ok hok => ?_
      exact (succeeds_ensure hok).bind fun _ _ => ih _

theorem succeeds_taSetMamKeyForReading (psks : List (Vector Tryte 81))
    (sks : List (Vector Tryte 1024)) :
    Succeeds (AnsweredFrom I ledger) (taSetMamKeyForReading psks sks) fun keys =>
      keys.psks = pskSet psks := by
  have hall : Succeeds (AnsweredFrom I ledger) (taSetMamKeyForReading psks sks) fun _ => True :=
    (succeeds_setPsks psks {}).bind fun keys _ => succeeds_setNtruSks sks keys
  exact (hall.and_path fun τ keys hpath => path_taSetMamKeyForReading hpath).mono
    fun keys hkeys => hkeys.2

/-- The first pre-shared key of the request is held. -/
theorem MamReads.succeeds_addPsks {limit capacity : Nat} (X : MamReads R limit capacity)
    (psks : List (Vector Tryte 81)) :
    Succeeds (AnsweredFrom I ledger) (addPsks R (pskSet psks) api) fun out =>
      out.1 = true ∧ R.trustedChannelPks out.2 = R.trustedChannelPks api ∧
        ∀ psk, psks.head? = some psk → (zeroPskId, psk) ∈ X.held out.2 := by
  cases psks with
  | nil => exact succeeds_pure ⟨rfl, rfl, by simp⟩
  | cons psk psks =>
      refine (succeeds_command fun ok (hok : ok = true) => hok).bind ?_
      rintro ok rfl
      refine succeeds_pure ⟨rfl, X.trusted_psk .., ?_⟩
      rintro psk' ⟨⟩
      exact X.held_psk ..

theorem succeeds_recvDone (res : RecvMamRes) :
    Succeeds (AnsweredFrom I ledger) (recvDone R api res (.ok ())) fun out =>
      out = (res, .ok ()) := by
  refine (succeeds_command (P := fun _ => True) fun _ _ => trivial).bind fun saved _ => ?_
  refine (succeeds_command fun ok (hok : ok = true) => hok).bind ?_
  rintro destroyed rfl
  exact succeeds_pure rfl

end Receiving

/-- The entry is meant for a receiver with these pre-shared keys. -/
structure MeantFor (R : MamReader) (psks : List (Vector Tryte 81)) (chid : Hash243) (e : Entry) :
    Prop where
  tells : ∃ keys, Tells R.toMamLib chid keys e.post.bundle e.content ∧
    (keys.psks = [] ∧ keys.ntruPks = [] ∨
      ∃ psk, psks.head? = some psk ∧ (zeroPskId, psk) ∈ keys.psks)
  legible : e.content.Legible

/-- The entries of a channel among all that were left, without repetition. -/
structure OnChannel (chid : Hash243) (entries mine : List Entry) : Prop where
  mem_iff : ∀ e, e ∈ mine ↔ e ∈ entries ∧ e.post.On chid
  nodup : (mine.map (·.post.hash)).Nodup
  inj : ∀ e ∈ entries, ∀ e' ∈ entries, e.post.hash = e'.post.hash → e = e'

/-- Bundles with the hashes of the channel are its entries, in some order. -/
theorem OnChannel.perm {chid : Hash243} {entries mine : List Entry}
    (h : OnChannel chid entries mine) {found : List Posted}
    (hposts : ∀ p ∈ found, p ∈ entries.map (·.post)) (hnodup : (found.map (·.hash)).Nodup)
    (hmem : ∀ b, b ∈ found.map (·.hash) ↔
      ∃ p ∈ entries.map (·.post), p.On chid ∧ p.hash = b) :
    ∃ read : List Entry, read.Perm mine ∧ found = read.map (·.post) := by
  have hinj : ∀ p ∈ entries.map (·.post), ∀ q ∈ entries.map (·.post), p.hash = q.hash → p = q := by
    rw [List.forall_mem_map]
    intro e he
    rw [List.forall_mem_map]
    intro e' he' hhash
    rw [h.inj e he e' he' hhash]
  have hmine : (mine.map (·.post)).Nodup := by
    refine List.Nodup.of_map (·.hash) ?_
    rw [List.map_map]
    exact h.nodup
  have hperm : found.Perm (mine.map (·.post)) := by
    rw [List.perm_ext_iff_of_nodup hnodup.of_map hmine]
    intro p
    constructor
    · intro hp
      obtain ⟨q, hq, hon, hhash⟩ := (hmem p.hash).mp (List.mem_map_of_mem hp)
      obtain rfl := hinj q hq p (hposts p hp) hhash
      obtain ⟨e, he, rfl⟩ := List.mem_map.mp hq
      exact List.mem_map_of_mem ((h.mem_iff e).mpr ⟨he, hon⟩)
    · intro hp
      obtain ⟨e, he, rfl⟩ := List.mem_map.mp hp
      obtain ⟨hentry, hon⟩ := (h.mem_iff e).mp he
      have hhash := (hmem e.post.hash).mpr ⟨e.post, List.mem_map_of_mem hentry, hon, rfl⟩
      obtain ⟨q, hq, hhash⟩ := List.mem_map.mp hhash
      rwa [← hinj q (hposts q hq) e.post (List.mem_map_of_mem hentry) hhash]
  have hself : List.Forall₂ (fun (p : Posted) (e : Entry) => p = e.post) (mine.map (·.post)) mine :=
    List.forall₂_map_left_iff.mpr (List.forall₂_same.mpr fun _ _ => rfl)
  obtain ⟨read, hread, hperm'⟩ := List.perm_comp_forall₂ hperm hself
  refine ⟨read, hperm', ?_⟩
  rwa [← List.forall₂_eq_eq_eq, List.forall₂_map_right_iff]

section Receiver

variable {I : Iota} {info : TaConfig} {iconf riconf : IotaConfig} {limit capacity : Nat}
  {R : MamReader} {chid chid1 : Hash243} {ledger : List Transaction} {state : Bool}
  {sort : List Transaction → List Transaction} {req : RecvMamReq} {entries mine : List Entry}

/-- What a receiver gets of a channel. -/
structure Receives (mine : List Entry) (chid1 : Hash243) (out : RecvMamRes × Except Status Unit) :
    Prop where
  status : out.2 = .ok ()
  payloads : (payloads out.1).Perm (mine.filterMap (·.content.text))
  last : (∀ e ∈ mine, ∀ c, e.content ≠ .next c) → out.1.chid1 = ""
  next : (∃ e ∈ mine, ∃ c, e.content = .next c) → out.1.chid1 = tryteText chid1.toList

/-- The part after the keys were added. -/
theorem MamReads.recvPayloads_receives (X : MamReads R limit capacity) {api : R.Api}
    {read : List Entry} (htrusted : R.trustedChannelPks api = [chid])
    (hopen : ∀ e ∈ read, X.Open api chid e) (hperm : read.Perm mine)
    (hnext : ∀ e ∈ mine, ∀ c, e.content = .next c → c = chid1 ∧ c ≠ chid) :
    Receives mine chid1
      ((recvPayloads R (read.map fun e => some e.post.txs) api).1, .ok ()) := by
  obtain ⟨api', hread, hmem⟩ := MamReads.readBundles_open hopen
    (by rw [htrusted]; exact List.mem_singleton_self _) []
  have hres : (recvPayloads R (read.map fun e => some e.post.txs) api).1 =
      writeChid1 [chid] (R.trustedChannelPks api')
        { recvMamResNew with payloadArray := read.map (·.content.text) } := by
    rw [recvPayloads, hread, htrusted]
    rfl
  simp only [htrusted, List.mem_singleton] at hmem
  refine ⟨rfl, ?_, fun hlast => ?_, fun hex => ?_⟩
  · rw [hres, TangleAccelerator.payloads, payloadArray_writeChid1, List.reduceOption,
      List.filterMap_map]
    exact hperm.filterMap _
  · rw [hres, (chid1_writeChid1 _).1]
    · rfl
    · intro c hc
      rcases (hmem c).mp hc with rfl | ⟨e, he, hcontent⟩
      · exact List.mem_singleton_self _
      · exact absurd hcontent (hlast e (hperm.mem_iff.mp he) c)
  · rw [hres]
    refine (chid1_writeChid1 _).2 chid1 ?_ ?_
    · intro c hc hnew
      rcases (hmem c).mp hc with rfl | ⟨e, he, hcontent⟩
      · exact absurd (List.mem_singleton_self _) hnew
      · exact (hnext e (hperm.mem_iff.mp he) c hcontent).1
    · obtain ⟨e, he, c, hcontent⟩ := hex
      refine ⟨c, (hmem c).mpr (Or.inr ⟨e, hperm.mem_iff.mpr he, hcontent⟩), ?_⟩
      rw [List.mem_singleton]
      exact (hnext e he c hcontent).2

/-- The bundles of the channel are found, in some order, and the channel is trusted. -/
theorem MamReads.succeeds_recvSetup (X : MamReads R limit capacity) (C : IotaCodec I limit)
    (hsort : Sorts sort) (H : HasPosts I info iconf limit chid (entries.map (·.post)) ledger)
    (hchannel : OnChannel chid entries mine) (hsome : mine ≠ [])
    (hreq : req.bundleHash = none ∧ req.chid = some chid) (seed : Hash243) :
    Succeeds (AnsweredFrom I ledger) (recvSetup I state sort R req (R.apiInit seed)) fun out =>
      (∃ read : List Entry, read.Perm mine ∧ out.1 = read.map fun e => some e.post.txs) ∧
        out.2.1.psks = pskSet req.pskArray ∧ R.trustedChannelPks out.2.2 = [chid] := by
  have hon : ∃ p ∈ entries.map (·.post), p.On chid := by
    obtain ⟨e, he⟩ := List.exists_mem_of_ne_nil _ hsome
    obtain ⟨hentry, hon⟩ := (hchannel.mem_iff e).mp he
    exact ⟨e.post, List.mem_map_of_mem hentry, hon⟩
  rw [recvSetup, hreq.2]
  refine (succeeds_mamCall.bind (Q := fun api => R.trustedChannelPks api = [chid])
    fun _ _ => succeeds_pure ?_).bind fun api hapi => ?_
  · rw [X.trusted_add, X.trusted_init]
    rfl
  · rw [recvBundles, hreq.1, hreq.2]
    refine (succeeds_withApi (H.succeeds_taGetBundlesByAddr C hsort hon [])).bind ?_
    rintro out ⟨found, rfl, hposts, hnodup, hmem⟩
    obtain ⟨read, hperm, rfl⟩ := hchannel.perm hposts hnodup hmem
    refine (succeeds_withApi (succeeds_taSetMamKeyForReading _ _)).bind fun keys hkeys => ?_
    exact succeeds_pure ⟨⟨read, hperm, by rw [List.map_map]; rfl⟩, hkeys, hapi⟩

/-- A call for a channel that something was sent on. -/
theorem MamReads.succeeds_taRecvMamMessage (X : MamReads R limit capacity) (C : IotaCodec I limit)
    (hsort : Sorts sort) (H : HasPosts I info iconf limit chid (entries.map (·.post)) ledger)
    (hchannel : OnChannel chid entries mine) (hsome : mine ≠ [])
    (hreq : req.bundleHash = none ∧ req.chid = some chid)
    (hmeant : ∀ e ∈ mine, MeantFor R req.pskArray chid e)
    (hnext : ∀ e ∈ mine, ∀ c, e.content = .next c → c = chid1 ∧ c ≠ chid) :
    Succeeds (AnsweredFrom I ledger) (taRecvMamMessage I state sort R riconf req)
      (Receives mine chid1) := by
  refine (succeeds_command fun ok (hok : ok = true) => hok).bind ?_
  rintro ok rfl
  have hbody : Succeeds (AnsweredFrom I ledger)
      (recvBody I state sort R req (R.apiInit riconf.seed)) fun out =>
        Receives mine chid1 (out.1, .ok ()) := by
    refine (X.succeeds_recvSetup C hsort H hchannel hsome hreq _).bind ?_
    rintro ⟨bundleArray, keys, api⟩ ⟨⟨read, hperm, rfl⟩, hkeys, htrusted⟩
    dsimp only at hkeys htrusted ⊢
    rw [hkeys]
    refine (X.succeeds_addPsks _).bind ?_
    rintro ⟨added, api'⟩ ⟨rfl, htrusted', hheld⟩
    refine succeeds_pure ?_
    refine X.recvPayloads_receives (htrusted'.trans htrusted) ?_ hperm hnext
    intro e he
    have hmine := hperm.mem_iff.mp he
    obtain ⟨⟨keys', htells, hplain⟩, hlegible⟩ := hmeant e hmine
    have hentry := ((hchannel.mem_iff e).mp hmine).1
    refine ⟨(H.survives C (List.mem_map_of_mem hentry)).said_eq, ⟨keys', htells, ?_⟩, hlegible⟩
    refine hplain.imp_right ?_
    rintro ⟨psk, hpsk, hmem⟩
    exact ⟨_, hmem, hheld psk hpsk⟩
  refine (succeeds_lift hbody).bind ?_
  rintro r ⟨⟨res, api⟩, rfl, hreceives⟩
  refine (succeeds_recvDone res).mono ?_
  rintro out rfl
  exact hreceives

section Nothing

variable (H : HasPosts I info iconf limit chid (entries.map (·.post)) ledger)
  (hnone : ∀ p ∈ entries.map (·.post), ¬ p.On chid)
  (hreq : req.bundleHash = none ∧ req.chid = some chid) {τ : List (Event sig)}
  (hτ : ∀ e ∈ τ, AnsweredFrom I ledger e)
include H hnone hreq hτ

theorem HasPosts.path_recvSetup_none {api : R.Api} {body}
    (hpath : Path (recvSetup I state sort R req api).run τ body) :
    ∃ api', body = .error (.cclientNotFound, api') := by
  rw [recvSetup, hreq.2, path_run_bind] at hpath
  rcases hpath with ⟨e, rfl, htrust⟩ | ⟨api', τ₁, τ₂, rfl, -, hpath⟩
  · obtain ⟨_, he, -⟩ := succeeds_mamCall.bind
      (fun _ _ => succeeds_pure (P := fun _ => True) trivial) τ _ htrust hτ
    cases he
  · rw [recvBundles, hreq.1, hreq.2, path_run_bind] at hpath
    rw [List.forall_mem_append] at hτ
    rcases hpath with ⟨e, rfl, hbundles⟩ | ⟨found, τ₃, τ₄, rfl, hbundles, -⟩
    · obtain ⟨answer, τ₃, τ₄, rfl, hanswer, hrest⟩ := (path_run_attempt_bind ..).mp hbundles
      rw [List.forall_mem_append] at hτ
      cases H.path_taGetBundlesByAddr_none hnone hanswer hτ.2.1
      cases ((path_run_throw ..).mp hrest).2
      exact ⟨api', rfl⟩
    · rw [path_withApi] at hbundles
      rw [List.forall_mem_append] at hτ
      cases H.path_taGetBundlesByAddr_none hnone hbundles hτ.2.1

/-- A call for a channel that nothing was sent on. -/
theorem HasPosts.path_taRecvMamMessage_none {r : Except Status (RecvMamRes × Except Status Unit)}
    (hpath : Path (taRecvMamMessage I state sort R riconf req).run τ r) :
    r = .ok (recvMamResNew, .error .cclientNotFound) := by
  rw [taRecvMamMessage, path_run_request_bind] at hpath
  obtain ⟨ok, τ₀, rfl, hpath⟩ := hpath
  rw [List.forall_mem_cons] at hτ
  obtain rfl : ok = true := hτ.1
  obtain ⟨body, τ₁, τ₂, rfl, hbody, hdone⟩ := (path_run_attempt_bind ..).mp hpath
  rw [List.forall_mem_append] at hτ
  rw [recvBody, path_run_bind] at hbody
  rcases hbody with ⟨e, rfl, hbody⟩ | ⟨out, τ₃, τ₄, rfl, hbody, -⟩
  · obtain ⟨api', he⟩ := H.path_recvSetup_none hnone hreq hτ.2.1 hbody
    cases he
    obtain ⟨saved, τ₃, rfl, destroyed, τ₄, rfl, hend⟩ := hdone
    obtain rfl : destroyed = true := hτ.2.2 ⟨.mam .destroy, destroyed⟩ (by simp)
    exact ((path_run_pure ..).mp hend).2
  · obtain ⟨api', he⟩ := H.path_recvSetup_none hnone hreq
      (fun e he => hτ.2.1 e (List.mem_append_left _ he)) hbody
    cases he

end Nothing

end Receiver

namespace Sample

/-- Trytes at the front of a message. -/
def wordOf (trytes : List Tryte) : Vector Tryte 2187 :=
  Vector.ofFn fun i : Fin 2187 => trytes.getD i.val 0

/-- The tryte at a place of a message. -/
def tryteAt (message : Vector Tryte 2187) (i : Nat) : Tryte := message.toList.getD i 0

theorem tryteAt_wordOf (trytes : List Tryte) {i : Nat} (hi : i < 2187) :
    tryteAt (wordOf trytes) i = trytes.getD i 0 := by
  simp [tryteAt, wordOf, hi]

/-- The two trytes of a character. -/
def charTrytes (c : Char) : List Tryte := [Fin.ofNat 27 c.toNat, Fin.ofNat 27 (c.toNat / 27)]

/-- The characters of pairs of trytes. -/
def tryteChars : List Tryte → List Char
  | low :: high :: trytes => Char.ofNat (low.val + 27 * high.val) :: tryteChars trytes
  | _ => []

theorem tryteChars_flatMap {chars : List Char} (h : ∀ c ∈ chars, 0 < c.toNat ∧ c.toNat < 128) :
    tryteChars (chars.flatMap charTrytes) = chars := by
  induction chars with
  | nil => rfl
  | cons c chars ih =>
      rw [List.forall_mem_cons] at h
      have hvalue : (Fin.ofNat 27 c.toNat).val + 27 * (Fin.ofNat 27 (c.toNat / 27)).val =
          c.toNat := by
        simp only [Fin.val_ofNat]
        omega
      rw [List.flatMap_cons, charTrytes, List.cons_append, List.cons_append, List.nil_append,
        tryteChars, hvalue, ih h.2, Char.ofNat_toNat]

/-- A transaction with another message. -/
def withMessage (tx : Transaction) (message : Vector Tryte 2187) : Transaction :=
  { tx with message := message }

theorem said_withMessage (tx : Transaction) (message : Vector Tryte 2187) :
    said (withMessage tx message) = (message, tx.address, tx.tag) := rfl

theorem of_said_eq {x y : Transaction} (h : said x = said y) :
    x.message = y.message ∧ x.address = y.address :=
  ⟨congrArg (·.1) h, congrArg (·.2.1) h⟩

theorem message_withMessage (tx : Transaction) (message : Vector Tryte 2187) :
    (withMessage tx message).message = message := rfl

theorem address_header (chid : Hash243) (j : Nat) : (header chid j).address = chid := rfl

theorem address_withMessage (tx : Transaction) (message : Vector Tryte 2187) :
    (withMessage tx message).address = tx.address := rfl

theorem tag_withMessage (tx : Transaction) (message : Vector Tryte 2187) :
    (withMessage tx message).tag = tx.tag := rfl

/-- The announcement of a channel. -/
def announcement (chid : Hash243) (j : Nat) (chid1 : Hash243) : Transaction :=
  withMessage (header chid j) (wordOf (1 :: chid1.toList))

/-- A transaction with a tryte of a payload. -/
def packet (tx : Transaction) (t : Tryte) : Transaction := withMessage tx (wordOf [t])

theorem tryteAt_header (chid : Hash243) (j : Nat) : tryteAt (header chid j).message 0 = 0 := by
  have hmessage : (header chid j).message = Vector.replicate 2187 0 := rfl
  rw [hmessage, tryteAt, Vector.toList_replicate, List.getD_eq_getElem?_getD,
    List.getElem?_replicate, if_pos (by decide), Option.getD_some]

/-- A library that counts like `counting` and writes a tryte of a payload to each transaction. -/
def speaking : MamReader where
  Api := counting.Api × List Hash243 × List (List Tryte × Vector Tryte 81)
  apiInit seed := (counting.apiInit seed, [], [])
  apiLoad bytes := (counting.apiLoad bytes, [], [])
  apiSave _ := []
  channelCreate api d :=
    ((counting.channelCreate api.1 d).1, (counting.channelCreate api.1 d).2, api.2)
  writeHeaderOnChannel api chid keys :=
    ((counting.writeHeaderOnChannel api.1 chid keys).1, [],
      (counting.writeHeaderOnChannel api.1 chid keys).2.2.1,
      (counting.writeHeaderOnChannel api.1 chid keys).2.2.2, api.2)
  mssNext api _ := api
  asciiToTrytes text := text.toList.flatMap charTrytes
  writePacket api _ payload bundle :=
    (bundle ++ payload.map (packet (bundle.headD txn)), api)
  announceChannel api chid chid1 _ :=
    ([announcement chid (api.1.2.2 chid) chid1], headerId chid (api.1.2.2 chid), api)
  zeroId := Vector.replicate 81 0
  addTrustedChannelPk api chid := (api.1, setAdd api.2.1 chid, api.2.2)
  addPsk api psk := (api.1, api.2.1, api.2.2 ++ [psk])
  trustedChannelPks api := api.2.1
  bundleRead api
    | some (tx :: txs) =>
        if tx.address ∈ api.2.1 then
          if tryteAt tx.message 0 = 1 then
            (some [], api.1,
              setAdd api.2.1 (Vector.ofFn fun i : Fin 81 => tryteAt tx.message (i + 1)), api.2.2)
          else (some (txs.map fun tx => tryteAt tx.message 0), api)
        else (none, api)
    | _ => (none, api)
  trytesToAscii trytes := String.ofList (tryteChars trytes)

/-- The channels of `speaking`. -/
def speakingChannels : MamChannels speaking.toMamLib where
  headers api chid := api.1.2.2 chid
  msgId := headerId
  headers_create api d := countingIds.headers_create api.1 d
  header_id _ _ _ := rfl
  header_tag _ _ _ := msgIdOf_header ..
  headers_write api chid keys := countingIds.headers_write api.1 chid keys
  headers_next _ _ := rfl
  msgId_inj _ _ _ hi hj h := headerId_inj hi hj h
  chan _ _ := channelId
  place api := (api.1.1, api.1.2.1)
  place_init _ := rfl
  create_id _ _ := rfl
  place_create _ _ := rfl
  place_write _ _ _ := rfl
  place_next _ _ := rfl
  place_packet _ _ _ _ := rfl
  headers_create_of_ne api d chid h := countingChannels.headers_create_of_ne api.1 d chid h
  headers_packet _ _ _ _ _ := rfl
  header_txns api chid keys tx htx := countingChannels.header_txns api.1 chid keys tx htx
  packet_txns api id payload bundle chid hne htxns := by
    obtain ⟨tx, txs, rfl⟩ := List.exists_cons_of_ne_nil hne
    refine ⟨by simp [speaking], fun tx' htx' => ?_⟩
    rcases List.mem_append.mp htx' with htx' | htx'
    · exact htxns tx' htx'
    · obtain ⟨t, -, rfl⟩ := List.mem_map.mp htx'
      rw [packet, address_withMessage, tag_withMessage]
      exact htxns tx (List.mem_cons_self ..)
  announce_txns api chid chid1 keys := by
    refine ⟨List.cons_ne_nil _ _, fun tx htx => ?_⟩
    obtain rfl : tx = announcement chid (api.1.2.2 chid) chid1 := List.mem_singleton.mp htx
    rw [announcement, address_withMessage, tag_withMessage]
    exact ⟨rfl, msgIdOf_header chid _⟩

theorem distinct_speaking (seed : Hash243) {d K : Nat} (hd : d ≤ 20) (hK : K < 27) :
    Distinct speakingChannels seed d K :=
  distinct_counting seed hd hK

theorem bundleRead_payload {api : speaking.Api} {tx : Transaction} {txs : List Transaction}
    (htrusted : tx.address ∈ api.2.1) (hmessage : tryteAt tx.message 0 = 0) :
    speaking.bundleRead api (some (tx :: txs)) =
      (some (txs.map fun tx => tryteAt tx.message 0), api) := by
  have hne : ¬ tryteAt tx.message 0 = 1 := by
    rw [hmessage]
    decide
  exact (if_pos htrusted).trans (if_neg hne)

theorem bundleRead_announcement {api : speaking.Api} {tx : Transaction} {chid1 : Hash243}
    (htrusted : tx.address ∈ api.2.1) (hmessage : tx.message = wordOf (1 :: chid1.toList)) :
    speaking.bundleRead api (some [tx]) = (some [], api.1, setAdd api.2.1 chid1, api.2.2) := by
  have hmark : tryteAt tx.message 0 = 1 := by
    rw [hmessage, tryteAt_wordOf _ (by decide)]
    rfl
  have hchid1 : (Vector.ofFn fun i : Fin 81 => tryteAt tx.message (i + 1)) = chid1 := by
    ext i hi
    rw [Vector.getElem_ofFn, hmessage, tryteAt_wordOf _ (by omega)]
    simp [hi]
  refine ((if_pos htrusted).trans (if_pos hmark)).trans ?_
  rw [hchid1]

/-- What is read of the packets is the payload. -/
theorem map_tryteAt_packet {tx : Transaction} {txs : List Transaction} {payload : List Tryte}
    (h : txs.map said = (payload.map (packet tx)).map said) :
    txs.map (fun tx => tryteAt tx.message 0) = payload := by
  have hmessages := congrArg (List.map fun s => tryteAt s.1 0) h
  rw [List.map_map, List.map_map, List.map_map] at hmessages
  refine hmessages.trans ((List.map_congr_left fun t _ => ?_).trans (List.map_id _))
  rw [Function.comp_apply, Function.comp_apply, packet, said_withMessage,
    tryteAt_wordOf _ (by decide)]
  rfl

section Tells

variable {chid chid1 : Hash243} {keys : MamEncryptKey} {bundle : List Transaction} {text : String}

theorem tells_message (h : Tells speaking.toMamLib chid keys bundle (.message text)) :
    ∃ j, bundle =
      header chid j :: (text.toList.flatMap charTrytes).map (packet (header chid j)) := by
  obtain ⟨api, header, hheader, hbundle⟩ := h
  subst hheader
  exact ⟨api.1.2.2 chid, hbundle⟩

theorem tells_next (h : Tells speaking.toMamLib chid keys bundle (.next chid1)) :
    ∃ j, bundle = [announcement chid j chid1] := by
  obtain ⟨api, hbundle⟩ := h
  exact ⟨api.1.2.2 chid, hbundle⟩

end Tells

/-- Reading with `speaking` undoes writing. -/
def readsSpeaking : MamReads speaking 729 728 where
  held api := api.2.2
  trusted_init _ := rfl
  trusted_add _ _ := rfl
  trusted_psk _ _ := rfl
  held_psk _ _ := List.mem_append_right _ (List.mem_singleton_self _)
  reads api chid keys bundle content txs htells hsaid htrusted _ := by
    cases content with
    | message text =>
        obtain ⟨j, hbundle⟩ := tells_message htells
        rw [hbundle, List.map_cons] at hsaid
        obtain ⟨tx, rest, rfl, htx, hrest⟩ := List.map_eq_cons_iff.mp hsaid
        have heq := of_said_eq htx
        rw [address_header] at heq
        refine ⟨api, ?_, rfl, rfl⟩
        rw [bundleRead_payload (heq.2 ▸ htrusted) (heq.1 ▸ tryteAt_header chid j),
          map_tryteAt_packet hrest]
        rfl
    | next chid1 =>
        obtain ⟨j, hbundle⟩ := tells_next htells
        rw [hbundle, List.map_singleton] at hsaid
        obtain ⟨tx, rfl, htx⟩ := List.map_eq_singleton_iff.mp hsaid
        have heq := of_said_eq htx
        rw [announcement, message_withMessage, address_withMessage, address_header] at heq
        exact ⟨_, bundleRead_announcement (heq.2 ▸ htrusted) heq.1, rfl, rfl⟩
  size chid keys bundle content htells hsize := by
    cases content with
    | message text =>
        obtain ⟨j, rfl⟩ := tells_message htells
        have hlen : (text.toList.flatMap charTrytes).length ≤ 728 := hsize
        rw [List.length_cons, List.length_map]
        omega
    | next chid1 =>
        obtain ⟨j, rfl⟩ := tells_next htells
        exact Nat.le_of_ble_eq_true rfl
  ascii text h := (congrArg String.ofList (tryteChars_flatMap h)).trans String.ofList_toList
  ascii_ne text h htrytes := by
    refine h (String.toList_eq_nil_iff.mp ?_)
    rw [List.eq_nil_iff_forall_not_mem]
    intro c hc
    exact List.cons_ne_nil _ _ (List.flatMap_eq_nil_iff.mp htrytes c hc)

end Sample

end TangleAccelerator
