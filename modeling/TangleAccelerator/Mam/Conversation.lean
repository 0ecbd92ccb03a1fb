import TangleAccelerator.Mam.Reading

/-!
# A conversation

What is sent with `ta_send_mam_message` is what is received with `ta_recv_mam_message`.

A sender calls `ta_send_mam_message` again and again for one seed.  The messages go to the channels
of the seed, `2 ^ d - 1` to each one, and the last one of a channel is followed by an announcement
of the next channel.  A receiver that asks for a channel gets the messages of that channel, in the
order in which the node returns them, and the ID of the next channel exactly if the channel is full.
So a receiver that knows the first channel can follow the announcements and gets every message.
-/

namespace TangleAccelerator

open Effect

/-! ## The channels of a sender -/

/-- The ledger has what was sent.  Nothing else is on the channels of the seed or in one of the
bundles, and the hashes are those of what they are made of. -/
structure PublicLedger (I : Iota) {M : MamLib} (D : MamChannels M) (seed : Hash243) (d K : Nat)
    (posted ledger : List Transaction) : Prop where
  there : ∀ tx ∈ posted, tx ∈ ledger
  only : ∀ tx ∈ ledger, ((∃ k ≤ K, tx.address = D.chan seed d k) ∨
    ∃ tx' ∈ posted, tx.bundle = tx'.bundle) → tx ∈ posted
  hashInj : HashInj ledger
  /-- The transactions of one bundle carry one message ID. -/
  oneId : ∀ x ∈ posted, ∀ y ∈ posted, x.bundle = y.bundle → msgIdOf x.tag = msgIdOf y.tag
  present : ∀ tx ∈ posted, (I.serialize tx).all (· == 0) = false

theorem ascii_timestamped (sec : Nat) {message : String} (h : Json.Tree.Ascii message) :
    Json.Tree.Ascii (timestamped sec message) := by
  intro c hc
  rw [timestamped, String.toList_append, String.toList_append, List.mem_append, List.mem_append,
    String.toList_ofList] at hc
  rcases hc with (hc | hc) | hc
  · rw [(List.mem_replicate.mp hc).2]
    decide
  · have hdigit : c.isDigit = true := by
      rw [Nat.toString_eq_repr, Nat.toList_repr] at hc
      exact Nat.isDigit_of_mem_toDigits (by decide) (by decide) hc
    simp only [Char.isDigit, Bool.and_eq_true, decide_eq_true_eq] at hdigit
    have hlow : 48 ≤ c.toNat := hdigit.1
    have hhigh : c.toNat ≤ 57 := hdigit.2
    omega
  · exact h c hc

theorem timestamped_ne (sec : Nat) (message : String) : timestamped sec message ≠ "" := by
  intro h
  have hlen := congrArg String.length h
  rw [timestamped, String.length_append, String.length_append, String.length_ofList,
    List.length_replicate] at hlen
  simp at hlen

/-- What is on the Tangle was made with the key of what was handed over. -/
theorem Survives.madeWith {bundle txs : List Transaction} {hash address : Hash243} {id : MsgId}
    (h : Survives bundle hash txs)
    (hbundle : ∀ tx ∈ bundle, tx.address = address ∧ msgIdOf tx.tag = id) :
    ∀ tx ∈ txs, tx.address = address ∧ msgIdOf tx.tag = id := by
  intro tx htx
  have hmem : said tx ∈ bundle.map said := h.said_eq ▸ List.mem_map_of_mem htx
  obtain ⟨tx', htx', hsaid⟩ := List.mem_map.mp hmem
  simp only [said, Prod.mk.injEq] at hsaid
  obtain ⟨-, haddress, htag⟩ := hsaid
  rw [← haddress, ← htag]
  exact hbundle tx' htx'

section Sender

variable {I : Iota} {info : TaConfig} {iconf : IotaConfig} {limit : Nat} {M : MamLib}
  {D : MamChannels M} {seed : Hash243} {d K : Nat} {calls : List SendCall}
  {ledger : List Transaction} {text : Nat → String} {left : Nat → List Entry}

/-- The entries of the first calls. -/
def allEntries (left : Nat → List Entry) (N : Nat) : List Entry := (List.range N).flatMap left

/-- The calls whose messages are on the channel `k`. -/
def callsOn (d N k : Nat) : List Nat := (List.range N).filter fun i => i / (2 ^ d - 1) = k

/-- The entries of the channel `k`. -/
def entriesOn (left : Nat → List Entry) (d N k : Nat) : List Entry :=
  (callsOn d N k).flatMap left

theorem mem_allEntries {N : Nat} {e : Entry} : e ∈ allEntries left N ↔ ∃ i < N, e ∈ left i := by
  simp [allEntries]

theorem mem_entriesOn {N k : Nat} {e : Entry} :
    e ∈ entriesOn left d N k ↔ ∃ i < N, i / (2 ^ d - 1) = k ∧ e ∈ left i := by
  simp [entriesOn, callsOn, and_assoc]

/-- The calls have left these texts and entries. -/
structure Spoken (I : Iota) (info : TaConfig) (iconf : IotaConfig) (limit : Nat)
    (D : MamChannels M) (seed : Hash243) (d K : Nat) (calls : List SendCall)
    (text : Nat → String) (left : Nat → List Entry) : Prop where
  codec : IotaCodec I limit
  depth : 1 ≤ d
  distinct : Distinct D seed d K
  channels : calls.length / (2 ^ d - 1) ≤ K
  told : ∀ i (hi : i < calls.length), Told I info iconf D seed d i calls[i] (text i) (left i)
  size : ∀ e ∈ allEntries left calls.length, e.post.bundle.length ≤ limit

namespace Spoken

variable (S : Spoken I info iconf limit D seed d K calls text left)
include S

theorem channel_le {i : Nat} (hi : i < calls.length) : i / (2 ^ d - 1) ≤ K :=
  (Nat.div_le_div_right hi.le).trans S.channels

/-- A channel has one message of each of its calls. -/
theorem filterMap_text_entriesOn (k : Nat) :
    (entriesOn left d calls.length k).filterMap (·.content.text) =
      (callsOn d calls.length k).map text := by
  have hone : ∀ i ∈ callsOn d calls.length k,
      (left i).filterMap (·.content.text) = [text i] := by
    intro i hi
    have hlt : i < calls.length := List.mem_range.mp (List.mem_filter.mp hi).1
    have hcontent := congrArg (List.filterMap Content.text) (S.told i hlt).content
    rw [List.filterMap_map] at hcontent
    refine hcontent.trans ?_
    split
    · rfl
    · rfl
  rw [entriesOn, List.filterMap_flatMap, List.flatMap_congr hone, List.map_eq_flatMap]

/-- Only the last message of a channel is followed by an announcement, which is of the next one. -/
theorem next_mem_entriesOn {k : Nat} :
    (∀ e ∈ entriesOn left d calls.length k, ∀ c, e.content = .next c →
      c = D.chan seed d (k + 1) ∧ (k + 1) * (2 ^ d - 1) ≤ calls.length) ∧
    ((k + 1) * (2 ^ d - 1) ≤ calls.length →
      ∃ e ∈ entriesOn left d calls.length k, ∃ c, e.content = .next c) := by
  have hpow := two_le_pow S.depth
  constructor
  · intro e he c hc
    obtain ⟨i, hi, rfl, hei⟩ := mem_entriesOn.mp he
    have hmem : e.content ∈ (left i).map (·.content) := List.mem_map_of_mem hei
    rw [(S.told i hi).content, hc, List.mem_cons] at hmem
    rcases hmem with hmem | hmem
    · cases hmem
    · split at hmem
      · rename_i hlast
        cases List.mem_singleton.mp hmem
        refine ⟨rfl, ?_⟩
        have hdiv := Nat.mod_add_div i (2 ^ d - 1)
        rw [Nat.succ_mul, Nat.mul_comm]
        omega
      · cases hmem
  · intro hfull
    rw [Nat.succ_mul, Nat.mul_comm] at hfull
    have hi : (2 ^ d - 1) * k + (2 ^ d - 1 - 1) < calls.length := by omega
    have hunique : ((2 ^ d - 1) * k + (2 ^ d - 1 - 1)) / (2 ^ d - 1) = k ∧
        ((2 ^ d - 1) * k + (2 ^ d - 1 - 1)) % (2 ^ d - 1) = 2 ^ d - 1 - 1 := by
      rw [Nat.div_mod_unique (by omega)]
      omega
    have hcontent := (S.told _ hi).content
    rw [hunique.1, hunique.2, if_pos (by omega)] at hcontent
    have hmem : Content.next (D.chan seed d (k + 1)) ∈
        (left ((2 ^ d - 1) * k + (2 ^ d - 1 - 1))).map (·.content) := by
      rw [hcontent]
      simp
    obtain ⟨e, he, hcontent⟩ := List.mem_map.mp hmem
    exact ⟨e, mem_entriesOn.mpr ⟨_, hi, hunique.1, he⟩, _, hcontent⟩

/-- The entries are all that the calls have left. -/
theorem mem_postedBy {tx : Transaction} :
    tx ∈ postedBy I calls ↔ ∃ e ∈ allEntries left calls.length, tx ∈ e.post.txs := by
  rw [postedBy, List.mem_flatMap]
  constructor
  · rintro ⟨c, hc, htx⟩
    obtain ⟨i, hi, rfl⟩ := List.mem_iff_getElem.mp hc
    rw [(S.told i hi).ledger, List.mem_flatMap] at htx
    obtain ⟨e, he, htx⟩ := htx
    exact ⟨e, mem_allEntries.mpr ⟨i, hi, he⟩, htx⟩
  · rintro ⟨e, he, htx⟩
    obtain ⟨i, hi, he⟩ := mem_allEntries.mp he
    refine ⟨calls[i], List.getElem_mem hi, ?_⟩
    rw [(S.told i hi).ledger, List.mem_flatMap]
    exact ⟨e, he, htx⟩

/-- Every entry has a key of its own. -/
theorem forall₂_allEntries : List.Forall₂ (MadeWith D seed d) (allEntries left calls.length)
    ((List.range calls.length).flatMap (keysOf d)) := by
  have hself : List.Forall₂ (fun i j => i = j ∧ i < calls.length) (List.range calls.length)
      (List.range calls.length) :=
    List.forall₂_same.mpr fun i hi => ⟨rfl, List.mem_range.mp hi⟩
  refine List.rel_flatMap hself ?_
  rintro i j ⟨rfl, hi⟩
  exact (S.told i hi).madeWith

theorem bySend {e : Entry} (he : e ∈ allEntries left calls.length) :
    e.post.BySend I info iconf := by
  obtain ⟨i, hi, hei⟩ := mem_allEntries.mp he
  exact ((S.told i hi).sent e hei).1

theorem bundle_ne {e : Entry} (he : e ∈ allEntries left calls.length) : e.post.bundle ≠ [] := by
  obtain ⟨i, hi, hei⟩ := mem_allEntries.mp he
  exact ((S.told i hi).sent e hei).2

theorem survives {e : Entry} (he : e ∈ allEntries left calls.length) :
    Survives e.post.bundle e.post.hash e.post.txs :=
  (S.bySend he).survives S.codec (S.bundle_ne he) (S.size e he)

/-- What is on the Tangle of an entry. -/
theorem txs_allEntries {j : Nat} (hj : j < (allEntries left calls.length).length)
    (hj' : j < ((List.range calls.length).flatMap (keysOf d)).length) :
    ∀ tx ∈ ((allEntries left calls.length)[j]).post.txs,
      tx.address = D.chan seed d (((List.range calls.length).flatMap (keysOf d))[j]).1 ∧
      msgIdOf tx.tag = D.msgId
        (D.chan seed d (((List.range calls.length).flatMap (keysOf d))[j]).1)
        (((List.range calls.length).flatMap (keysOf d))[j]).2 := by
  have hmade := (List.forall₂_iff_get.mp S.forall₂_allEntries).2 j hj hj'
  exact (S.survives (List.getElem_mem hj)).madeWith hmade

theorem exists_mem_txs {e : Entry} (he : e ∈ allEntries left calls.length) :
    ∃ tx ∈ e.post.txs, tx.bundle = e.post.hash := by
  have hsurvives := S.survives he
  have hne := S.bundle_ne he
  have hpos : 0 < e.post.txs.length := by
    rw [hsurvives.length_eq]
    exact List.length_pos_iff.mpr hne
  exact ⟨_, List.getElem_mem hpos, hsurvives.bundle_eq _ (List.getElem_mem hpos)⟩

/-- The channel and the key of an entry. -/
theorem key_bounds {j : Nat} (hj : j < ((List.range calls.length).flatMap (keysOf d)).length) :
    (((List.range calls.length).flatMap (keysOf d))[j]).1 ≤ K ∧
      (((List.range calls.length).flatMap (keysOf d))[j]).2 < 2 ^ d := by
  obtain ⟨i, hi, hmem⟩ := List.mem_flatMap.mp (List.getElem_mem hj)
  obtain ⟨hchannel, -, hlt⟩ := le_of_mem_keysOf S.depth hmem
  exact ⟨hchannel.trans_le (S.channel_le (List.mem_range.mp hi)), hlt⟩

/-- The ID of a transaction tells the entry it belongs to. -/
theorem index_eq_of_msgId {j j' : Nat} (hj : j < (allEntries left calls.length).length)
    (hj' : j' < (allEntries left calls.length).length) {tx tx' : Transaction}
    (htx : tx ∈ ((allEntries left calls.length)[j]).post.txs)
    (htx' : tx' ∈ ((allEntries left calls.length)[j']).post.txs)
    (hid : msgIdOf tx.tag = msgIdOf tx'.tag) : j = j' := by
  have hlen := S.forall₂_allEntries.length_eq
  rw [(S.txs_allEntries hj (by omega) tx htx).2,
    (S.txs_allEntries hj' (by omega) tx' htx').2] at hid
  have hbounds := S.key_bounds (j := j) (by omega)
  have hbounds' := S.key_bounds (j := j') (by omega)
  have hkeys := S.distinct _ _ _ _ hbounds.1 hbounds'.1 hbounds.2 hbounds'.2 hid
  exact (nodup_keysOf S.depth calls.length).getElem_inj_iff.mp (Prod.ext hkeys.1 hkeys.2)

/-- The entries of a call are on the channel of its message. -/
theorem on_chan_iff {i k : Nat} (hi : i < calls.length) (hk : k ≤ K) {e : Entry}
    (he : e ∈ left i) : e.post.On (D.chan seed d k) ↔ i / (2 ^ d - 1) = k := by
  have hentry := mem_allEntries.mpr ⟨i, hi, he⟩
  have hsurvives := S.survives hentry
  obtain ⟨key, hkey, hmade⟩ := (exists_of_forall₂ (S.told i hi).madeWith).1 e he
  have htxs := hsurvives.madeWith hmade
  have hchannel := (le_of_mem_keysOf S.depth hkey).1
  constructor
  · rintro ⟨tx, htx, haddress⟩
    rw [(htxs tx htx).1, hchannel] at haddress
    exact S.distinct.chan_inj (S.channel_le hi) hk haddress
  · rintro rfl
    obtain ⟨tx, htx, -⟩ := S.exists_mem_txs hentry
    exact ⟨tx, htx, by rw [(htxs tx htx).1, hchannel]⟩

variable (P : PublicLedger I D seed d K (postedBy I calls) ledger)
include P

/-- Two entries of one bundle hash are one. -/
theorem index_eq_of_hash {j j' : Nat} (hj : j < (allEntries left calls.length).length)
    (hj' : j' < (allEntries left calls.length).length)
    (hhash : ((allEntries left calls.length)[j]).post.hash =
      ((allEntries left calls.length)[j']).post.hash) : j = j' := by
  obtain ⟨tx, htx, hbundle⟩ := S.exists_mem_txs (List.getElem_mem hj)
  obtain ⟨tx', htx', hbundle'⟩ := S.exists_mem_txs (List.getElem_mem hj')
  refine S.index_eq_of_msgId hj hj' htx htx' ?_
  exact P.oneId tx (S.mem_postedBy.mpr ⟨_, List.getElem_mem hj, htx⟩) tx'
    (S.mem_postedBy.mpr ⟨_, List.getElem_mem hj', htx'⟩) (by rw [hbundle, hbundle', hhash])

theorem entry_eq_of_hash {e e' : Entry} (he : e ∈ allEntries left calls.length)
    (he' : e' ∈ allEntries left calls.length) (hhash : e.post.hash = e'.post.hash) : e = e' := by
  obtain ⟨j, hj, rfl⟩ := List.mem_iff_getElem.mp he
  obtain ⟨j', hj', rfl⟩ := List.mem_iff_getElem.mp he'
  obtain rfl := S.index_eq_of_hash P hj hj' hhash
  rfl

theorem nodup_hash_allEntries : ((allEntries left calls.length).map (·.post.hash)).Nodup := by
  rw [List.Nodup, List.pairwise_map, List.pairwise_iff_getElem]
  intro j j' hj hj' hlt hhash
  have hindex := S.index_eq_of_hash P hj hj' hhash
  omega

theorem onChannel_entriesOn {k : Nat} (hk : k ≤ K) :
    OnChannel (D.chan seed d k) (allEntries left calls.length)
      (entriesOn left d calls.length k) where
  mem_iff e := by
    rw [mem_entriesOn, mem_allEntries]
    constructor
    · rintro ⟨i, hi, hik, he⟩
      exact ⟨⟨i, hi, he⟩,
        (S.on_chan_iff hi hk he).mpr hik⟩
    · rintro ⟨⟨i, hi, he⟩, hon⟩
      exact ⟨i, hi, (S.on_chan_iff hi hk he).mp hon, he⟩
  nodup := (S.nodup_hash_allEntries P).sublist
    ((List.Sublist.flatMap List.filter_sublist left).map _)
  inj _ he _ he' := S.entry_eq_of_hash P he he'

/-- The ledger, for a query of the channel `k`. -/
theorem hasPosts_allEntries {k : Nat} (hk : k ≤ K) :
    HasPosts I info iconf limit (D.chan seed d k) ((allEntries left calls.length).map (·.post))
      ledger where
  sent := by
    rw [List.forall_mem_map]
    exact fun e he => S.bySend he
  size := by
    rw [List.forall_mem_map]
    exact fun e he => ⟨S.bundle_ne he, S.size e he⟩
  there := by
    rw [List.forall_mem_map]
    exact fun e he tx htx => P.there tx (S.mem_postedBy.mpr ⟨e, he, htx⟩)
  only tx htx hcase := by
    have hposted : tx ∈ postedBy I calls := by
      refine P.only tx htx (hcase.imp (fun haddress => ⟨k, hk, haddress⟩) ?_)
      rintro ⟨p, hp, hbundle⟩
      obtain ⟨e, he, rfl⟩ := List.mem_map.mp hp
      obtain ⟨tx', htx', hbundle'⟩ := S.exists_mem_txs he
      exact ⟨tx', S.mem_postedBy.mpr ⟨e, he, htx'⟩, by rw [hbundle, hbundle']⟩
    obtain ⟨e, he, htxe⟩ := S.mem_postedBy.mp hposted
    exact ⟨e.post, List.mem_map_of_mem he, htxe⟩
  said_eq := by
    rw [List.forall_mem_map]
    intro e he
    rw [List.forall_mem_map]
    intro e' he' hhash
    rw [S.entry_eq_of_hash P he he' hhash]
  apart := by
    rw [List.forall_mem_map]
    intro e he
    rw [List.forall_mem_map]
    intro e' he' hne tx htx htx'
    have hhash : e.post.hash = e'.post.hash := by
      rw [← (S.survives he).bundle_eq tx htx,
        ← (S.survives he').bundle_eq tx htx']
    exact hne (by rw [S.entry_eq_of_hash P he he' hhash])
  hashInj := P.hashInj
  present := by
    rw [List.forall_mem_map]
    exact fun e he tx htx => P.present tx (S.mem_postedBy.mpr ⟨e, he, htx⟩)

end Spoken

end Sender

/-! ## The conversation -/

section Conversation

variable {I : Iota} {info : TaConfig} {iconf riconf : IotaConfig} {limit capacity : Nat}
  {R : MamReader} {D : MamChannels R.toMamLib} {seed : Hash243} {d K : Nat}
  {calls : List SendCall} {ledger : List Transaction} {text : Nat → String}
  {left : Nat → List Entry} {state : Bool} {sort : List Transaction → List Transaction}

/-- The messages are plain, or encrypted for the first pre-shared key of the receiver. -/
def Shared (calls : List SendCall) (psks : List (Vector Tryte 81)) : Prop :=
  ∀ c ∈ calls, c.req.ntruArray = [] ∧
    ∀ psk, c.req.pskArray.head? = some psk → psks.head? = some psk

theorem Spoken.meantFor (S : Spoken I info iconf limit D seed d K calls text left)
    {psks : List (Vector Tryte 81)} (hshared : Shared calls psks)
    (hascii : ∀ c ∈ calls, Json.Tree.Ascii c.req.message) {k : Nat} {e : Entry}
    (he : e ∈ entriesOn left d calls.length k) : MeantFor R psks (D.chan seed d k) e := by
  obtain ⟨i, hi, rfl, hei⟩ := mem_entriesOn.mp he
  have htold := S.told i hi
  have hcall := List.getElem_mem hi
  refine ⟨?_, ?_⟩
  · obtain ⟨keys, hpsks, hpks, htells⟩ := htold.tells
    obtain ⟨hntru, hhead⟩ := hshared _ hcall
    refine ⟨keys, htells e hei, ?_⟩
    rw [hpsks, pskSet]
    cases hkey : calls[i].req.pskArray.head? with
    | none => exact Or.inl ⟨rfl, hpks hntru⟩
    | some psk => exact Or.inr ⟨psk, hhead psk hkey, List.mem_singleton_self _⟩
  · have hmem : e.content ∈ (left i).map (·.content) := List.mem_map_of_mem hei
    rw [htold.content, List.mem_cons] at hmem
    rcases hmem with hmem | hmem
    · obtain ⟨sec, -, htext⟩ := htold.time
      rw [hmem, htext]
      exact ⟨ascii_timestamped sec (hascii _ hcall), timestamped_ne sec _⟩
    · split at hmem
      · rw [List.mem_singleton.mp hmem]
        trivial
      · cases hmem

/-- What a receiver who asks for the channel `k` gets. -/
structure Heard (D : MamChannels R.toMamLib) (seed : Hash243) (d N : Nat) (text : Nat → String)
    (k : Nat) (res : RecvMamRes) : Prop where
  /-- The messages of the channel, in some order. -/
  messages : (payloads res).Perm ((callsOn d N k).map text)
  /-- The next channel, if the channel is full. -/
  next : res.chid1 =
    if (k + 1) * (2 ^ d - 1) ≤ N then tryteText (D.chan seed d (k + 1)).toList else ""

/-- A call for a channel with messages. -/
theorem Spoken.heard (S : Spoken I info iconf limit D seed d K calls text left)
    (P : PublicLedger I D seed d K (postedBy I calls) ledger) (X : MamReads R limit capacity)
    (hsort : Sorts sort) (hascii : ∀ c ∈ calls, Json.Tree.Ascii c.req.message) {k : Nat}
    (hk : k * (2 ^ d - 1) < calls.length) {req : RecvMamReq}
    (hreq : req.bundleHash = none ∧ req.chid = some (D.chan seed d k))
    (hshared : Shared calls req.pskArray) {τ : List (Event sig)}
    {r : Except Status (RecvMamRes × Except Status Unit)}
    (hpath : Path (taRecvMamMessage I state sort R riconf req).run τ r)
    (hτ : ∀ e ∈ τ, AnsweredFrom I ledger e) :
    ∃ res, r = .ok (res, .ok ()) ∧ Heard D seed d calls.length text k res := by
  have hpow := two_le_pow S.depth
  have hdiv : k * (2 ^ d - 1) / (2 ^ d - 1) = k := Nat.mul_div_cancel k (by omega)
  have hkK : k ≤ K := by
    rw [← hdiv]
    exact S.channel_le hk
  obtain ⟨hnext, hfull⟩ := S.next_mem_entriesOn (k := k)
  have hsome : entriesOn left d calls.length k ≠ [] := by
    have hmem : Content.message (text (k * (2 ^ d - 1))) ∈
        (left (k * (2 ^ d - 1))).map (·.content) := by
      rw [(S.told _ hk).content]
      exact List.mem_cons_self ..
    obtain ⟨e, he, -⟩ := List.mem_map.mp hmem
    exact List.ne_nil_of_mem (mem_entriesOn.mpr ⟨_, hk, hdiv, he⟩)
  have hdiffer : ∀ e ∈ entriesOn left d calls.length k, ∀ c, e.content = .next c →
      c = D.chan seed d (k + 1) ∧ c ≠ D.chan seed d k := by
    intro e he c hc
    obtain ⟨rfl, hlen⟩ := hnext e he c hc
    refine ⟨rfl, fun heq => ?_⟩
    have hle : k + 1 ≤ K := ((Nat.le_div_iff_mul_le (by omega)).mpr hlen).trans S.channels
    have := S.distinct.chan_inj hle hkK heq
    omega
  obtain ⟨⟨res, status⟩, rfl, hreceives⟩ := X.succeeds_taRecvMamMessage S.codec hsort
    (S.hasPosts_allEntries P hkK) (S.onChannel_entriesOn P hkK) hsome hreq
    (fun e he => S.meantFor hshared hascii he) hdiffer τ r hpath hτ
  obtain ⟨hstatus, hpayloads, hlast, hchid1⟩ := hreceives
  dsimp only at hstatus hpayloads hlast hchid1
  rw [S.filterMap_text_entriesOn k] at hpayloads
  refine ⟨res, by rw [hstatus], hpayloads, ?_⟩
  split
  · rename_i hlen
    exact hchid1 (hfull hlen)
  · rename_i hlen
    exact hlast fun e he c hc => hlen (hnext e he c hc).2

/-- A call for a channel that nothing was sent on. -/
theorem Spoken.unheard (S : Spoken I info iconf limit D seed d K calls text left)
    (P : PublicLedger I D seed d K (postedBy I calls) ledger) {k : Nat} (hkK : k ≤ K)
    (hk : calls.length ≤ k * (2 ^ d - 1)) {req : RecvMamReq}
    (hreq : req.bundleHash = none ∧ req.chid = some (D.chan seed d k)) {τ : List (Event sig)}
    {r : Except Status (RecvMamRes × Except Status Unit)}
    (hpath : Path (taRecvMamMessage I state sort R riconf req).run τ r)
    (hτ : ∀ e ∈ τ, AnsweredFrom I ledger e) :
    r = .ok (recvMamResNew, .error .cclientNotFound) := by
  have hpow := two_le_pow S.depth
  have hnone : ∀ p ∈ (allEntries left calls.length).map (·.post),
      ¬ p.On (D.chan seed d k) := by
    rw [List.forall_mem_map]
    intro e he hon
    obtain ⟨i, hi, hei⟩ := mem_allEntries.mp he
    have hik := (S.on_chan_iff hi hkK hei).mp hon
    have hlt := Nat.lt_mul_div_succ i (b := 2 ^ d - 1) (by omega)
    have hdiv := Nat.div_mul_le_self i (2 ^ d - 1)
    rw [hik] at hdiv
    omega
  exact (S.hasPosts_allEntries P hkK).path_taRecvMamMessage_none hnone hreq hτ hpath

/-- Every call leaves its text, and the bundles have a length that the library can number. -/
theorem exists_spoken (X : MamReads R limit capacity) (C : IotaCodec I limit)
    (hd : 1 ≤ d ∧ d ≤ 20) (hdistinct : Distinct D seed d K)
    (hK : calls.length / (2 ^ d - 1) ≤ K) {fuel : Nat} (hfuel : K < fuel)
    (hcalls : Calls I R.toMamLib fuel info iconf seed d calls) (hfaithful : Faithful I [] calls)
    (hfits : ∀ c ∈ calls, ∀ sec, (⟨.clockGettime, sec⟩ : Event sig) ∈ c.trace →
      (R.asciiToTrytes (timestamped sec c.req.message)).length ≤ capacity) :
    ∃ text left, Spoken I info iconf limit D seed d K calls text left := by
  have hall : ∀ i, ∃ out : String × List Entry, ∀ hi : i < calls.length,
      Told I info iconf D seed d i calls[i] out.1 out.2 := by
    intro i
    by_cases hi : i < calls.length
    · obtain ⟨text, left, htold⟩ :=
        calls_told C hd hdistinct hK hfuel hcalls hfaithful i hi
      exact ⟨(text, left), fun _ => htold⟩
    · exact ⟨("", []), fun h => absurd h hi⟩
  choose out htold using hall
  refine ⟨fun i => (out i).1, fun i => (out i).2, C, hd.1, hdistinct, hK, htold, ?_⟩
  intro e he
  obtain ⟨i, hi, hei⟩ := mem_allEntries.mp he
  obtain ⟨keys, -, -, htells⟩ := (htold i hi).tells
  refine X.size _ _ _ _ (htells e hei) ?_
  have hmem : e.content ∈ (out i).2.map (·.content) := List.mem_map_of_mem hei
  rw [(htold i hi).content, List.mem_cons] at hmem
  rcases hmem with hmem | hmem
  · obtain ⟨sec, hsec, htext⟩ := (htold i hi).time
    rw [hmem, htext]
    exact hfits _ (List.getElem_mem hi) sec hsec
  · split at hmem
    · rw [List.mem_singleton.mp hmem]
      exact Nat.zero_le _
    · cases hmem

/-- A call of `ta_recv_mam_message`. -/
structure RecvCall where
  req : RecvMamReq
  trace : List (Event sig)
  res : RecvMamRes

/-- The first call is for the channel, and each other one for the channel that the one before it has
found. -/
def Follows : Hash243 → List RecvCall → Prop
  | _, [] => True
  | chid, c :: recvs => (c.req.bundleHash = none ∧ c.req.chid = some chid) ∧
      (recvs ≠ [] → ∃ chid1, c.res.chid1 = tryteText chid1.toList ∧ Follows chid1 recvs)

/-- The calls return `SC_OK`, and the answers come from the ledger. -/
def Received (I : Iota) (state : Bool) (sort : List Transaction → List Transaction) (R : MamReader)
    (riconf : IotaConfig) (calls : List SendCall) (ledger : List Transaction)
    (recvs : List RecvCall) : Prop :=
  ∀ c ∈ recvs, Path (taRecvMamMessage I state sort R riconf c.req).run c.trace
      (.ok (c.res, .ok ())) ∧ Shared calls c.req.pskArray ∧ ∀ e ∈ c.trace, AnsweredFrom I ledger e

/-- The calls for the channels from `k` on. -/
def callsFrom (d N k n : Nat) : List Nat :=
  (List.range N).filter fun i => k ≤ i / (2 ^ d - 1) ∧ i / (2 ^ d - 1) < k + n

theorem callsFrom_zero (d N k : Nat) : callsFrom d N k 0 = [] := by
  rw [callsFrom, List.filter_eq_nil_iff]
  intro i _ hi
  rw [decide_eq_true_eq] at hi
  omega

theorem callsFrom_succ (d N k n : Nat) :
    (callsOn d N k ++ callsFrom d N (k + 1) n).Perm (callsFrom d N k (n + 1)) := by
  have hnodup : ∀ q : Nat → Bool, ((List.range N).filter q).Nodup := fun q =>
    List.nodup_range.filter q
  refine (List.perm_ext_iff_of_nodup ?_ (hnodup _)).mpr fun i => ?_
  · refine (hnodup _).append (hnodup _) ?_
    intro i hi hi'
    simp only [callsFrom, List.mem_filter, decide_eq_true_eq] at hi hi'
    omega
  · simp only [callsOn, callsFrom, List.mem_append, List.mem_filter, decide_eq_true_eq]
    constructor
    · rintro (⟨hi, hk⟩ | ⟨hi, hk⟩)
      · exact ⟨hi, by omega⟩
      · exact ⟨hi, by omega⟩
    · rintro ⟨hi, hk⟩
      by_cases heq : i / (2 ^ d - 1) = k
      · exact Or.inl ⟨hi, heq⟩
      · exact Or.inr ⟨hi, by omega⟩

/-- A text of trytes is empty only without trytes. -/
theorem tryteText_ne (chid : Hash243) : tryteText chid.toList ≠ "" := by
  intro h
  have hlen := congrArg String.length h
  rw [tryteText, String.length_ofList, List.length_map, Vector.length_toList] at hlen
  cases hlen

section Next

variable {N k : Nat} {res : RecvMamRes} (h : Heard D seed d N text k res)
include h

theorem Heard.chid1_eq_empty_iff : res.chid1 = "" ↔ N < (k + 1) * (2 ^ d - 1) := by
  rw [h.next]
  split
  case isTrue hfull => exact iff_of_false (tryteText_ne _) (not_lt.mpr hfull)
  case isFalse hfull => exact iff_of_true rfl (not_le.mp hfull)

/-- A channel that announces another one is full, and the other one is the next. -/
theorem Heard.announces {chid1 : Hash243} (hchid1 : res.chid1 = tryteText chid1.toList) :
    (k + 1) * (2 ^ d - 1) ≤ N ∧ chid1 = D.chan seed d (k + 1) := by
  rw [h.next] at hchid1
  split at hchid1
  case isTrue hfull => exact ⟨hfull, (Vector.toList_inj.mp (tryteText_inj hchid1)).symm⟩
  case isFalse => exact absurd hchid1.symm (tryteText_ne chid1)

end Next

/-- The calls from the channel `k` on. -/
theorem Spoken.followed (S : Spoken I info iconf limit D seed d K calls text left)
    (P : PublicLedger I D seed d K (postedBy I calls) ledger) (X : MamReads R limit capacity)
    (hsort : Sorts sort) (hascii : ∀ c ∈ calls, Json.Tree.Ascii c.req.message)
    {recvs : List RecvCall} {k : Nat} (hk : k ≤ K)
    (hrecvs : Received I state sort R riconf calls ledger recvs)
    (hfollows : Follows (D.chan seed d k) recvs) :
    (recvs.flatMap fun c => payloads c.res).Perm
        ((callsFrom d calls.length k recvs.length).map text) ∧
      ∀ c ∈ recvs.getLast?, (c.res.chid1 = "" ↔
        calls.length < (k + recvs.length) * (2 ^ d - 1)) := by
  induction recvs generalizing k with
  | nil =>
      refine ⟨?_, by simp⟩
      rw [List.length_nil, callsFrom_zero]
      exact .nil
  | cons c recvs ih =>
      rw [Received, List.forall_mem_cons] at hrecvs
      obtain ⟨⟨hpath, hshared, hτ⟩, hrest⟩ := hrecvs
      obtain ⟨hreq, hnext⟩ := hfollows
      have hlt : k * (2 ^ d - 1) < calls.length := by
        by_contra hge
        have hempty := S.unheard P hk (not_lt.mp hge) hreq hpath hτ
        rw [Except.ok.injEq, Prod.mk.injEq] at hempty
        cases hempty.2
      obtain ⟨res, hres, hheard⟩ := S.heard P X hsort hascii hlt hreq hshared hpath hτ
      cases hres
      by_cases hlast : recvs = []
      · subst hlast
        have hone := callsFrom_succ d calls.length k 0
        rw [callsFrom_zero, List.append_nil] at hone
        refine ⟨?_, ?_⟩
        · rw [List.flatMap_singleton]
          exact hheard.messages.trans (hone.map text)
        · intro c' hc'
          obtain rfl : c = c' := Option.some.inj hc'
          rw [hheard.chid1_eq_empty_iff, List.length_singleton]
      · obtain ⟨chid1, hchid1, hfollows⟩ := hnext hlast
        obtain ⟨hfull, rfl⟩ := hheard.announces hchid1
        have hpow := two_le_pow S.depth
        have hkK : k + 1 ≤ K :=
          ((Nat.le_div_iff_mul_le (by omega)).mpr hfull).trans S.channels
        obtain ⟨hperm, hend⟩ := ih hkK hrest hfollows
        refine ⟨?_, fun c' hc' => ?_⟩
        · rw [List.flatMap_cons]
          refine (hheard.messages.append hperm).trans ?_
          rw [← List.map_append]
          exact (callsFrom_succ d calls.length k recvs.length).map text
        · rw [List.getLast?_cons_of_ne_nil hlast] at hc'
          rw [hend c' hc', List.length_cons]
          have : k + 1 + recvs.length = k + (recvs.length + 1) := by omega
          rw [this]

section Results

variable {fuel : Nat} (X : MamReads R limit capacity) (C : IotaCodec I limit) (hsort : Sorts sort)
  (hd : 1 ≤ d ∧ d ≤ 20) (hdistinct : Distinct D seed d K)
  (hK : calls.length / (2 ^ d - 1) ≤ K) (hfuel : K < fuel)
  (hcalls : Calls I R.toMamLib fuel info iconf seed d calls) (hfaithful : Faithful I [] calls)
  (hfits : ∀ c ∈ calls, ∀ sec, (⟨.clockGettime, sec⟩ : Event sig) ∈ c.trace →
    (R.asciiToTrytes (timestamped sec c.req.message)).length ≤ capacity)
  (hascii : ∀ c ∈ calls, Json.Tree.Ascii c.req.message)
  (P : PublicLedger I D seed d K (postedBy I calls) ledger)
include X C hsort hd hdistinct hK hfuel hcalls hfaithful hfits hascii P

end Results

end Conversation

namespace Sample

/-- The tag at the front of a hash. -/
def frontTag (hash : Hash243) : Hash81 := Vector.ofFn fun i : Fin 27 => hash.toList.getD i.val 0

theorem tag_of_hash (trytes : Hash8019) :
    (slotted.deserialize trytes true).tag = frontTag (slotDigest trytes) := by
  ext i hi
  have hi' : i < 81 := by omega
  simp [slotted, part, frontTag, slotDigest, hi']

theorem frontTag_slotBundle (tx : Transaction) (txs : List Transaction) :
    frontTag (slotBundle (tx :: txs)) = tx.tag := by
  ext i hi
  have hi' : i < 81 := by omega
  simp [frontTag, slotBundle, slot, hi']

section Ledger

variable {info : TaConfig} {iconf : IotaConfig} {M : MamLib} {D : MamChannels M} {seed : Hash243}
  {d K : Nat} {calls : List SendCall} {text : Nat → String} {left : Nat → List Entry}

/-- The parts of a transaction that are in its hash. -/
theorem of_mem_postedBy {tx : Transaction} (htx : tx ∈ postedBy slotted calls) :
    tx.tag = frontTag tx.hash ∧ tx.currentIndex =
      indexOf (tx.hash.toList.getD 27 0) (tx.hash.toList.getD 28 0) := by
  obtain ⟨c, -, htx⟩ := List.mem_flatMap.mp htx
  obtain ⟨trytes, -, rfl⟩ := List.mem_map.mp htx
  exact ⟨tag_of_hash trytes, index_of_hash trytes⟩

variable (S : Spoken slotted info iconf 729 D seed d K calls text left)
include S

theorem hashInj_postedBy : HashInj (postedBy slotted calls) := by
  intro x hx y hy hhash
  obtain ⟨e, he, hxe⟩ := S.mem_postedBy.mp hx
  obtain ⟨e', he', hye⟩ := S.mem_postedBy.mp hy
  obtain ⟨j, hj, rfl⟩ := List.mem_iff_getElem.mp he
  obtain ⟨j', hj', rfl⟩ := List.mem_iff_getElem.mp he'
  have htag : x.tag = y.tag := by
    rw [(of_mem_postedBy hx).1, (of_mem_postedBy hy).1, hhash]
  obtain rfl := S.index_eq_of_msgId hj hj' hxe hye (by rw [htag])
  have hsurvives := S.survives he
  obtain ⟨i, hi, rfl⟩ := List.mem_iff_getElem.mp hxe
  obtain ⟨i', hi', rfl⟩ := List.mem_iff_getElem.mp hye
  have hindex : (i : Int) = i' := by
    rw [← (hsurvives.index i hi).current, ← (hsurvives.index i' hi').current,
      (of_mem_postedBy hx).2, (of_mem_postedBy hy).2, hhash]
  obtain rfl := Int.ofNat_inj.mp hindex
  rfl

/-- The ID of a transaction is at the front of the hash of its bundle. -/
theorem msgId_of_bundle {tx : Transaction} (htx : tx ∈ postedBy slotted calls) :
    msgIdOf tx.tag = msgIdOf (frontTag tx.bundle) := by
  obtain ⟨e, he, htxe⟩ := S.mem_postedBy.mp htx
  obtain ⟨key, -, hmade⟩ := (exists_of_forall₂ S.forall₂_allEntries).1 e he
  obtain ⟨τ, tail, rest, hpath, -, hhash, -⟩ := S.bySend he
  obtain ⟨tx₀, txs, hcons⟩ := List.exists_cons_of_ne_nil (S.bundle_ne he)
  have htail : tail ∈ slotted.finalize e.post.bundle := by
    rw [← (path_taSendBundle hpath).1]
    exact List.mem_cons_self ..
  have hfront : frontTag tx.bundle = tx₀.tag := by
    rw [(S.survives he).bundle_eq tx htxe, hhash, bundle_of_mem_finalize htail, hcons,
      frontTag_slotBundle]
  rw [((S.survives he).madeWith hmade tx htxe).2, hfront,
    (hmade tx₀ (by rw [hcons]; exact List.mem_cons_self ..)).2]

theorem publicLedger_postedBy :
    PublicLedger slotted D seed d K (postedBy slotted calls) (postedBy slotted calls) where
  there _ htx := htx
  only _ htx _ := htx
  hashInj := hashInj_postedBy S
  oneId x hx y hy hbundle := by rw [msgId_of_bundle S hx, msgId_of_bundle S hy, hbundle]
  present tx _ := present_slotted tx

end Ledger

theorem fetchStep_of_empty {acc : List (Hash243 × List Transaction)} {e : Event sig}
    (hacc : ∀ x ∈ acc, x.2 = []) (he : AnsweredFrom slotted [] e) :
    ∀ x ∈ fetchStep acc e, x.2 = [] := by
  obtain ⟨c, r⟩ := e
  cases c with
  | findTransactions req =>
      obtain ⟨hs, rfl, -⟩ := he
      simp only [fetchStep]
      split
      · exact List.forall_mem_cons.mpr ⟨rfl, hacc⟩
      · exact hacc
  | getTransactionObjects hashes =>
      obtain ⟨found, rfl, hfound⟩ := he
      have hnone : found = [] := by
        rw [List.eq_nil_iff_forall_not_mem]
        intro tx htx
        exact List.not_mem_nil ((hfound tx).mp htx).1
      subst hnone
      cases acc with
      | nil => exact hacc
      | cons x acc =>
          rw [List.forall_mem_cons] at hacc
          refine List.forall_mem_cons.mpr ⟨?_, hacc.2⟩
          rw [List.append_nil]
          exact hacc.1
  | _ => exact hacc

/-- From an empty ledger nothing is returned. -/
theorem fetched_of_empty {τ : List (Event sig)} {acc : List (Hash243 × List Transaction)}
    (hacc : ∀ x ∈ acc, x.2 = []) (hτ : ∀ e ∈ τ, AnsweredFrom slotted [] e) :
    ∀ x ∈ τ.foldl fetchStep acc, x.2 = [] := by
  induction τ generalizing acc with
  | nil => exact hacc
  | cons e τ ih =>
      rw [List.forall_mem_cons] at hτ
      exact ih (fetchStep_of_empty hacc hτ.1) hτ.2

theorem callFails_ledgerNode (ledger : List Transaction) (c : Cmd) (w : World) :
    CallFails ⟨c, (world.serve c (ledgerNode ledger c) w).1⟩ = false := by
  cases c with
  | _ => rfl

/-- The request for a message. -/
def sayReq (d : Nat) : SendMamReq := ⟨some (Vector.replicate 81 0), d, none, "A", [], []⟩

/-- The run of the call for the message, for a node that has nothing yet. -/
def sayCall (d : Nat) : SendCall where
  req := sayReq d
  trace := (exec world (taSendMamMessage slotted speaking.toMamLib 2 core.taConf core.iotaConf
    (sayReq d)).run (fun _ => ledgerNode []) buffered).1
  result := (exec world (taSendMamMessage slotted speaking.toMamLib 2 core.taConf core.iotaConf
    (sayReq d)).run (fun _ => ledgerNode []) buffered).2.1

theorem calls_sayCall (d : Nat) : Calls slotted speaking.toMamLib 2 core.taConf core.iotaConf
    (Vector.replicate 81 0) d [sayCall d] := by
  rw [Calls, List.forall_mem_singleton]
  refine ⟨?_, ⟨rfl, rfl, rfl⟩, ?_⟩
  · simp only [sayCall]
    exact path_exec (V := world) _ _ _
  · simp only [sayCall]
    exact forall_mem_exec _ _ fun _ => callFails_ledgerNode []

theorem faithful_sayCall (d : Nat) : Faithful slotted [] [sayCall d] := by
  refine ⟨fun x hx => ?_, trivial⟩
  have hτ : ∀ e ∈ (sayCall d).trace, AnsweredFrom slotted [] e := by
    rw [sayCall]
    exact forall_mem_exec _ _ fun _ => answeredFrom_ledgerNode slotted []
  rw [Returns, fetched_of_empty (List.forall_mem_nil _) hτ x hx]
  simp

theorem clock_ledgerNode (ledger : List Transaction) (c : Cmd) (w : World) (sec : Nat) :
    (⟨c, (world.serve c (ledgerNode ledger c) w).1⟩ : Event sig) = ⟨.clockGettime, sec⟩ →
      sec = 0 := by
  intro h
  cases c with
  | clockGettime =>
      cases h
      rfl
  | _ => cases h

theorem clock_sayCall {d sec : Nat}
    (hsec : (⟨.clockGettime, sec⟩ : Event sig) ∈ (sayCall d).trace) : sec = 0 := by
  have hall : ∀ e ∈ (sayCall d).trace, ∀ sec, e = ⟨.clockGettime, sec⟩ → sec = 0 := by
    simp only [sayCall]
    exact forall_mem_exec _ _ fun _ => clock_ledgerNode []
  exact hall _ hsec sec rfl

theorem fits_sayCall (d : Nat) : ∀ c ∈ [sayCall d], ∀ sec,
    (⟨.clockGettime, sec⟩ : Event sig) ∈ c.trace →
      (speaking.asciiToTrytes (timestamped sec c.req.message)).length ≤ 728 := by
  rw [List.forall_mem_singleton]
  intro sec hsec
  rw [clock_sayCall hsec]
  have hmessage : (sayCall d).req.message = "A" := rfl
  rw [hmessage]
  decide

theorem ascii_sayCall (d : Nat) : ∀ c ∈ [sayCall d], Json.Tree.Ascii c.req.message := by
  have hascii : Json.Tree.Ascii "A" := by simp [Json.Tree.Ascii]
  rw [List.forall_mem_singleton]
  exact hascii

theorem publicLedger_sayCall {d : Nat} (hd : 1 ≤ d ∧ d ≤ 20) :
    PublicLedger slotted speakingChannels (Vector.replicate 81 0) d 1
      (postedBy slotted [sayCall d]) (postedBy slotted [sayCall d]) := by
  obtain ⟨text, left, S⟩ := exists_spoken readsSpeaking codec_slotted hd
    (distinct_speaking _ (K := 1) hd.2 (by decide)) (Nat.div_le_self ..) (by decide)
    (calls_sayCall d) (faithful_sayCall d) (fits_sayCall d)
  exact publicLedger_postedBy S

/-- A request for a channel. -/
def hearReq (k : Nat) : RecvMamReq := ⟨none, some (channelId k), [], []⟩

theorem shared_sayCall (d : Nat) : Shared [sayCall d] [] := by
  rw [Shared, List.forall_mem_singleton]
  exact ⟨rfl, by simp [sayCall, sayReq]⟩

/-- Asking for a channel gives a run whose answers come from the ledger. -/
theorem exists_hearing (ledger : List Transaction) (k : Nat) : ∃ τ r,
    Path (taRecvMamMessage slotted true sortByIndex speaking core.iotaConf (hearReq k)).run τ r ∧
      ∀ e ∈ τ, AnsweredFrom slotted ledger e :=
  ⟨_, _, path_exec (V := world) _ (fun _ => ledgerNode ledger) buffered,
    forall_mem_exec _ _ fun _ => answeredFrom_ledgerNode slotted ledger⟩

end Sample

end TangleAccelerator
