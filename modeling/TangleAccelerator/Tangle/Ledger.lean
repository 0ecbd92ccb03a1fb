import TangleAccelerator.Effect.Answered
import TangleAccelerator.Tangle.Address
import TangleAccelerator.Tangle.Survival

/-!
# Reading the ledger

What `ta_get_bundle` and `ta_get_bundles_by_addr` return where all answers come from one ledger.

The node returns the hashes of a query in any order, and the object of each hash.  What the cache
has of a transaction is that transaction.  The objects that `ta_find_transaction_objects` puts
together have copies among them, but nothing that is not on the ledger, and every transaction that
was asked for.  The loop over them looks at bundle hashes only, so it calls `ta_get_bundle` once for
each bundle hash on the address, and each call puts one attachment together.

`HasPosts` says what the ledger has: bundles that were sent, each one any number of times, and
whatever else there is on other addresses and in other bundles.
-/

namespace TangleAccelerator

open Effect

/-! ## The answers of a ledger -/

/-- The transaction meets every part of the query that is there. -/
def Asked (req : FindTransactionsReq) (tx : Transaction) : Prop :=
  (req.addresses ≠ [] → tx.address ∈ req.addresses) ∧
    (req.bundles ≠ [] → tx.bundle ∈ req.bundles) ∧ (req.tags ≠ [] → tx.tag ∈ req.tags)

/-- The event is what a node with this ledger, and a cache with transactions of it, may answer. -/
def AnsweredFrom (I : Iota) (ledger : List Transaction) : Event sig → Prop
  | ⟨.findTransactions req, hashes⟩ => ∃ hs, hashes = some hs ∧
      ∀ h, h ∈ hs ↔ ∃ tx ∈ ledger, Asked req tx ∧ tx.hash = h
  | ⟨.getTransactionObjects hs, txs⟩ => ∃ found, txs = some found ∧
      ∀ tx, tx ∈ found ↔ tx ∈ ledger ∧ tx.hash ∈ hs
  | ⟨.redis (.get (.txn h)), .bulk text⟩ =>
      I.deserialize (I.fromTrytes text) true ∈ ledger ∧
        (I.deserialize (I.fromTrytes text) true).hash = h
  | ⟨.transactionSerialize _, ok⟩ => ok = true
  | ⟨.mam _, ok⟩ => ok = true
  | _ => True

section Objects

variable {I : Iota} {ledger : List Transaction} {state : Bool}

theorem succeeds_getTxnObjects (hs : List Hash243) :
    Succeeds (AnsweredFrom I ledger) (getTxnObjects hs) fun txs =>
      ∀ tx, tx ∈ txs ↔ tx ∈ ledger ∧ tx.hash ∈ hs := by
  induction hs with
  | nil => exact succeeds_pure (by simp)
  | cons h hs ih =>
      refine (succeeds_command fun answer hanswer => hanswer).bind fun answer hanswer => ?_
      refine (succeeds_demand hanswer).bind fun txs htxs => ?_
      refine ih.bind fun rest hrest => succeeds_pure fun tx => ?_
      rw [List.mem_append, htxs, hrest, List.mem_singleton, List.mem_cons, and_or_left]

/-- The hash of a transaction says which one it is. -/
def HashInj (ledger : List Transaction) : Prop :=
  ∀ x ∈ ledger, ∀ y ∈ ledger, x.hash = y.hash → x = y

/-- The objects of a query are the transactions that meet it. -/
theorem succeeds_taGetTxnObjectsWithTxnHash (hinj : HashInj ledger) (req : FindTransactionsReq) :
    Succeeds (AnsweredFrom I ledger) (taGetTxnObjectsWithTxnHash req) fun txs =>
      ∀ tx, tx ∈ txs ↔ tx ∈ ledger ∧ Asked req tx := by
  refine (succeeds_command fun answer hanswer => hanswer).bind fun answer hanswer => ?_
  refine (succeeds_demand hanswer).bind fun hs hhs => ?_
  refine (succeeds_getTxnObjects hs).mono fun txs htxs tx => ?_
  rw [htxs, hhs]
  constructor
  · rintro ⟨htx, tx', htx', hasked, hhash⟩
    rw [hinj tx htx tx' htx' hhash.symm]
    exact ⟨htx', hasked⟩
  · rintro ⟨htx, hasked⟩
    exact ⟨htx, tx, htx, hasked, rfl⟩

/-- What the cache has of a hash is a transaction of the ledger. -/
theorem path_cacheGet_answered {h : Hash243} {τ : List (Event sig)} {text : String}
    (hpath : Path (cacheGet state (.txn h)).run τ (.ok text))
    (hτ : ∀ e ∈ τ, AnsweredFrom I ledger e) :
    I.deserialize (I.fromTrytes text) true ∈ ledger ∧
      (I.deserialize (I.fromTrytes text) true).hash = h := by
  rw [cacheGet, cacheOn, path_run_bind_ok] at hpath
  obtain ⟨_, τ₁, τ₂, rfl, -, hpath⟩ := hpath
  obtain ⟨reply, τ₃, rfl, hreply⟩ := hpath
  have hanswer := hτ ⟨.redis (.get (.txn h)), reply⟩ (by simp)
  cases reply with
  | bulk value =>
      cases ((path_run_settle ..).mp hreply).2
      exact hanswer
  | _ => cases ((path_run_settle ..).mp hreply).2

/-- The loop over the cache: transactions of the ledger, and the hashes that are left. -/
theorem succeeds_cachedObjects (hs : List Hash243) :
    Succeeds (AnsweredFrom I ledger) (cachedObjects I state hs) fun out =>
      (∀ tx ∈ out.1, tx ∈ ledger ∧ tx.hash ∈ hs) ∧ (∀ h ∈ out.2, h ∈ hs) ∧
        ∀ h ∈ hs, h ∈ out.2 ∨ ∃ tx ∈ out.1, tx.hash = h := by
  induction hs with
  | nil => exact succeeds_pure (by simp)
  | cons h hs ih =>
      refine (succeeds_lift (P := fun value => ∀ text, value = .ok text →
        I.deserialize (I.fromTrytes text) true ∈ ledger ∧
          (I.deserialize (I.fromTrytes text) true).hash = h) ?_).bind fun value hvalue => ?_
      · rintro τ value hpath hτ text rfl
        exact path_cacheGet_answered hpath hτ
      refine ih.bind ?_
      rintro ⟨found, uncached⟩ ⟨hfound, huncached, hall⟩
      cases value with
      | ok text =>
          obtain ⟨hmem, hhash⟩ := hvalue text rfl
          refine succeeds_pure ⟨?_, fun h' hh' => List.mem_cons_of_mem _ (huncached h' hh'), ?_⟩
          · rw [List.forall_mem_cons]
            exact ⟨⟨hmem, by simp [hhash]⟩,
              fun tx htx => ⟨(hfound tx htx).1, List.mem_cons_of_mem _ (hfound tx htx).2⟩⟩
          · rw [List.forall_mem_cons]
            refine ⟨Or.inr ⟨_, List.mem_cons_self .., hhash⟩, fun h' hh' => ?_⟩
            rcases hall h' hh' with hleft | ⟨tx, htx, hhash'⟩
            · exact Or.inl hleft
            · exact Or.inr ⟨tx, List.mem_cons_of_mem _ htx, hhash'⟩
      | error e =>
          refine succeeds_pure ⟨fun tx htx => ?_, ?_, ?_⟩
          · exact ⟨(hfound tx htx).1, List.mem_cons_of_mem _ (hfound tx htx).2⟩
          · rw [List.forall_mem_cons]
            exact ⟨List.mem_cons_self .., fun h' hh' => List.mem_cons_of_mem _ (huncached h' hh')⟩
          · rw [List.forall_mem_cons]
            refine ⟨Or.inl (List.mem_cons_self ..), fun h' hh' => ?_⟩
            exact (hall h' hh').imp_left (List.mem_cons_of_mem _)

/-- The loop over the other hashes.  The copy of the first object is one that is there already. -/
theorem succeeds_uncachedObjects (hs : List Hash243) (arr : List Transaction) :
    Succeeds (AnsweredFrom I ledger) (uncachedObjects hs arr) fun out =>
      ∀ tx, tx ∈ out ↔ tx ∈ arr ∨ tx ∈ ledger ∧ tx.hash ∈ hs := by
  induction hs generalizing arr with
  | nil => exact succeeds_pure (by simp)
  | cons h hs ih =>
      refine (succeeds_command fun answer hanswer => hanswer).bind fun answer hanswer => ?_
      refine (succeeds_demand hanswer).bind fun txs htxs => ?_
      refine (ih _).mono fun out hout tx => ?_
      have hcopy : tx ∈ (arr ++ txs).head?.toList → tx ∈ arr ++ txs := by
        intro htx
        exact List.mem_of_mem_head? (Option.mem_toList.mp htx)
      have harr : tx ∈ arr ++ txs ++ (arr ++ txs).head?.toList ↔ tx ∈ arr ++ txs := by
        rw [List.mem_append]
        exact or_iff_left_of_imp hcopy
      rw [hout, harr, List.mem_append, htxs, List.mem_singleton, List.mem_cons, or_assoc,
        and_or_left]

/-- The objects of the node are serialized and read back. -/
theorem succeeds_appendObjects {arr : List Transaction}
    (hpresent : ∀ tx ∈ arr, (I.serialize tx).all (· == 0) = false) :
    Succeeds (AnsweredFrom I ledger) (appendObjects I arr) fun out =>
      out = arr.map fun tx => I.deserialize (I.serialize tx) true := by
  induction arr with
  | nil => exact succeeds_pure rfl
  | cons tx arr ih =>
      rw [List.forall_mem_cons] at hpresent
      refine (succeeds_command fun ok (hok : ok = true) => hok).bind fun ok hok => ?_
      refine (succeeds_ensure ?_).bind fun _ _ => ?_
      · rw [hok, hpresent.1]
        rfl
      · refine (ih hpresent.2).bind fun rest hrest => succeeds_pure ?_
        rw [hrest, List.map_cons]

/-- A transaction keeps its bundle hash on the way through its trytes, and these are not null. -/
structure Legible (I : Iota) (tx : Transaction) : Prop where
  bundle_eq : (I.deserialize (I.serialize tx) true).bundle = tx.bundle
  present : (I.serialize tx).all (· == 0) = false

/-- The bundle hashes of the objects are those of the transactions that were asked for. -/
theorem succeeds_taFindTransactionObjects {hs : List Hash243}
    (hlegible : ∀ tx ∈ ledger, tx.hash ∈ hs → Legible I tx)
    (hinj : HashInj ledger) :
    Succeeds (AnsweredFrom I ledger) (taFindTransactionObjects I state hs) fun objs =>
      ∀ b, b ∈ objs.map (·.bundle) ↔ ∃ tx ∈ ledger, tx.hash ∈ hs ∧ tx.bundle = b := by
  refine (succeeds_cachedObjects hs).bind ?_
  rintro ⟨found, uncached⟩ ⟨hfound, huncached, hall⟩
  refine (succeeds_uncachedObjects uncached []).bind fun arr harr => ?_
  have harr' : ∀ tx ∈ arr, tx ∈ ledger ∧ tx.hash ∈ hs := by
    intro tx htx
    have hmem := (harr tx).mp htx
    rw [or_iff_right (List.not_mem_nil)] at hmem
    exact ⟨hmem.1, huncached _ hmem.2⟩
  have hlegible' : ∀ tx ∈ arr, Legible I tx := fun tx htx =>
    hlegible tx (harr' tx htx).1 (harr' tx htx).2
  refine (succeeds_appendObjects fun tx htx => (hlegible' tx htx).present).bind
    fun rest hrest => succeeds_pure fun b => ?_
  have hbundles : (rest.map (·.bundle)) = arr.map (·.bundle) := by
    rw [hrest, List.map_map]
    exact List.map_congr_left fun tx htx => (hlegible' tx htx).bundle_eq
  rw [List.map_append, hbundles, ← List.map_append, List.mem_map]
  constructor
  · rintro ⟨tx, htx, hb⟩
    rcases List.mem_append.mp htx with htx | htx
    · exact ⟨tx, (hfound tx htx).1, (hfound tx htx).2, hb⟩
    · exact ⟨tx, (harr' tx htx).1, (harr' tx htx).2, hb⟩
  · rintro ⟨tx, htx, hhash, hb⟩
    refine ⟨tx, ?_, hb⟩
    rcases hall _ hhash with hleft | ⟨tx', htx', hhash'⟩
    · exact List.mem_append_right _ ((harr tx).mpr (Or.inr ⟨htx, hleft⟩))
    · rw [← hinj tx' (hfound tx' htx').1 tx htx hhash']
      exact List.mem_append_left _ htx'

end Objects

/-! ## What the ledger holds -/

/-- A bundle that was sent, its bundle hash, and its transactions as the node has them. -/
structure Posted where
  bundle : List Transaction
  hash : Hash243
  txs : List Transaction

/-- The bundle was sent, and no call failed. -/
def Posted.BySend (I : Iota) (info : TaConfig) (iconf : IotaConfig) (p : Posted) : Prop :=
  ∃ τ tail rest, Path (taSendBundle I info iconf p.bundle).run τ (.ok (tail :: rest)) ∧
    (∀ e ∈ τ, SendFails e = false) ∧ p.hash = tail.bundle ∧ p.txs = ledgerOf I τ

theorem Posted.BySend.survives {I : Iota} {info : TaConfig} {iconf : IotaConfig} {limit : Nat}
    (C : IotaCodec I limit) {p : Posted} (h : p.BySend I info iconf) (hne : p.bundle ≠ [])
    (hlen : p.bundle.length ≤ limit) : Survives p.bundle p.hash p.txs := by
  obtain ⟨τ, tail, rest, hpath, hgood, hhash, htxs⟩ := h
  obtain ⟨tail', rest', heq, hsurvives⟩ := taSendBundle_survives C hne hlen hgood hpath
  cases heq
  rwa [hhash, htxs]

/-- One of its transactions is on the address. -/
def Posted.On (addr : Hash243) (p : Posted) : Prop := ∃ tx ∈ p.txs, tx.address = addr

/-- The ledger has the bundles that were sent.  Nothing else is on the address or in one of these
bundles. -/
structure HasPosts (I : Iota) (info : TaConfig) (iconf : IotaConfig) (limit : Nat) (addr : Hash243)
    (posts : List Posted) (ledger : List Transaction) : Prop where
  sent : ∀ p ∈ posts, p.BySend I info iconf
  size : ∀ p ∈ posts, p.bundle ≠ [] ∧ p.bundle.length ≤ limit
  there : ∀ p ∈ posts, ∀ tx ∈ p.txs, tx ∈ ledger
  only : ∀ tx ∈ ledger, (tx.address = addr ∨ ∃ p ∈ posts, tx.bundle = p.hash) →
    ∃ p ∈ posts, tx ∈ p.txs
  /-- The bundle hash is one of what the bundle says. -/
  said_eq : ∀ p ∈ posts, ∀ q ∈ posts, p.hash = q.hash → p.bundle.map said = q.bundle.map said
  /-- Attachments have no transaction in common. -/
  apart : ∀ p ∈ posts, ∀ q ∈ posts, p.txs ≠ q.txs → p.txs.Disjoint q.txs
  hashInj : HashInj ledger
  present : ∀ p ∈ posts, ∀ tx ∈ p.txs, (I.serialize tx).all (· == 0) = false

section Read

variable {I : Iota} {info : TaConfig} {iconf : IotaConfig} {limit : Nat} {addr : Hash243}
  {posts : List Posted} {ledger : List Transaction} {state : Bool}
  {sort : List Transaction → List Transaction} (C : IotaCodec I limit)
  (H : HasPosts I info iconf limit addr posts ledger)
include C H

theorem HasPosts.survives {p : Posted} (hp : p ∈ posts) : Survives p.bundle p.hash p.txs :=
  (H.sent p hp).survives C (H.size p hp).1 (H.size p hp).2

theorem HasPosts.legible {p : Posted} (hp : p ∈ posts) {tx : Transaction} (htx : tx ∈ p.txs) :
    Legible I tx := by
  have hsurvives := H.survives C hp
  obtain ⟨i, hi, rfl⟩ := List.mem_iff_getElem.mp htx
  have hlen := hsurvives.length_eq
  exact ⟨(C.read (by omega) (H.size p hp).2 (hsurvives.index i hi)).2.1, H.present p hp _ htx⟩

/-- The attachments of one bundle hash, as the node has them. -/
theorem HasPosts.mixture {p : Posted} (hp : p ∈ posts) {txs : List Transaction}
    (htxs : ∀ tx, tx ∈ txs ↔ tx ∈ ledger ∧ tx.bundle = p.hash) :
    Mixture (p.bundle.length - 1) ((posts.filter (·.hash = p.hash)).map (·.txs)) txs := by
  have hmem : ∀ q, q ∈ posts.filter (·.hash = p.hash) ↔ q ∈ posts ∧ q.hash = p.hash := by
    simp
  refine ⟨?_, ?_, ?_, ?_⟩
  · rw [Ne, List.map_eq_nil_iff]
    exact List.ne_nil_of_mem ((hmem p).mpr ⟨hp, rfl⟩)
  · rw [List.forall_mem_map]
    intro q hq
    obtain ⟨hq, hhash⟩ := (hmem q).mp hq
    have hlen := congrArg List.length (H.said_eq q hq p hp hhash)
    rw [List.length_map, List.length_map] at hlen
    rw [← hlen]
    exact (H.survives C hq).attachment (H.size q hq).1
  · intro tx
    rw [htxs]
    constructor
    · rintro ⟨htx, hbundle⟩
      obtain ⟨q, hq, htxq⟩ := H.only tx htx (Or.inr ⟨p, hp, hbundle⟩)
      have hhash : q.hash = p.hash := by rw [← (H.survives C hq).bundle_eq tx htxq, hbundle]
      exact ⟨q.txs, List.mem_map_of_mem ((hmem q).mpr ⟨hq, hhash⟩), htxq⟩
    · rintro ⟨a, ha, htx⟩
      obtain ⟨q, hq, rfl⟩ := List.mem_map.mp ha
      obtain ⟨hq, hhash⟩ := (hmem q).mp hq
      exact ⟨H.there q hq tx htx, by rw [(H.survives C hq).bundle_eq tx htx, hhash]⟩
  · rw [List.forall_mem_map]
    intro q hq
    rw [List.forall_mem_map]
    intro q' hq' hne x hx y hy hhash
    have hq := ((hmem q).mp hq).1
    have hq' := ((hmem q').mp hq').1
    have hxy := H.hashInj x (H.there q hq x hx) y (H.there q' hq' y hy) hhash
    exact H.apart q hq q' hq' hne hx (hxy ▸ hy)

/-- `ta_get_bundle` returns one of the attachments. -/
theorem HasPosts.succeeds_taGetBundle (hsort : Sorts sort) {p : Posted} (hp : p ∈ posts) :
    Succeeds (AnsweredFrom I ledger) (taGetBundle sort p.hash) fun bundle =>
      ∃ q ∈ posts, q.hash = p.hash ∧ bundle = some q.txs := by
  refine (succeeds_lift
    (succeeds_taGetTxnObjectsWithTxnHash H.hashInj { bundles := [p.hash] })).bind ?_
  rintro answer ⟨txs, rfl, htxs⟩
  refine succeeds_pure ?_
  have hasked : ∀ tx, Asked { bundles := [p.hash] } tx ↔ tx.bundle = p.hash := by
    simp [Asked]
  have hmixture := H.mixture C hp fun tx => by rw [htxs, hasked]
  obtain ⟨a, ha, hfirst⟩ := exists_first_bundle hmixture hsort
  obtain ⟨q, hq, rfl⟩ := List.mem_map.mp ha
  rw [List.mem_filter, decide_eq_true_eq] at hq
  exact ⟨q, hq.1, hq.2, hfirst⟩

/-- The loop makes one bundle of each unseen bundle hash. -/
theorem HasPosts.succeeds_getBundles (hsort : Sorts sort) {objs : List Transaction}
    (hobjs : ∀ b ∈ objs.map (·.bundle), ∃ p ∈ posts, p.hash = b) (seen : List Hash243)
    (bundleArray : List (Option (List Transaction))) :
    Succeeds (AnsweredFrom I ledger) (getBundles sort objs seen bundleArray) fun out =>
      ∃ found : List Posted, out = bundleArray ++ found.map (fun p => some p.txs) ∧
        (∀ p ∈ found, p ∈ posts) ∧ (found.map (·.hash)).Nodup ∧
        ∀ b, b ∈ found.map (·.hash) ↔ b ∈ objs.map (·.bundle) ∧ b ∉ seen := by
  induction objs generalizing seen bundleArray with
  | nil => exact succeeds_pure ⟨[], by simp⟩
  | cons tx objs ih =>
      rw [List.map_cons, List.forall_mem_cons] at hobjs
      rw [getBundles]
      split
      · rename_i hseen
        refine (ih hobjs.2 seen bundleArray).mono fun out hout => ?_
        obtain ⟨found, rfl, hposts, hnodup, hmem⟩ := hout
        refine ⟨found, rfl, hposts, hnodup, fun b => ?_⟩
        rw [hmem, List.map_cons, List.mem_cons]
        refine and_congr_left fun hb => (or_iff_right ?_).symm
        rintro rfl
        exact hb hseen
      · rename_i hseen
        obtain ⟨p, hp, hhash⟩ := hobjs.1
        rw [← hhash] at hseen ⊢
        refine (H.succeeds_taGetBundle C hsort hp).bind ?_
        rintro bundle ⟨q, hq, hqp, rfl⟩
        rw [bundleArrayAdd_eq]
        refine (ih hobjs.2 _ _).mono fun out hout => ?_
        obtain ⟨found, rfl, hposts, hnodup, hmem⟩ := hout
        have hset : ∀ b, b ∈ setAdd seen p.hash ↔ b ∈ seen ∨ b = p.hash := by
          simp [setAdd, if_neg hseen]
        refine ⟨q :: found, by simp, ?_, ?_, fun b => ?_⟩
        · rw [List.forall_mem_cons]
          exact ⟨hq, hposts⟩
        · rw [List.map_cons, List.nodup_cons, hmem, hset, hqp]
          exact ⟨fun h => h.2 (Or.inr rfl), hnodup⟩
        · rw [List.map_cons, List.mem_cons, hmem, hset, hqp, List.map_cons, List.mem_cons, ← hhash]
          by_cases hb : b = p.hash
          · simp [hb, hseen]
          · simp [hb]

theorem HasPosts.on_iff {b : Hash243} :
    (∃ p ∈ posts, p.On addr ∧ p.hash = b) ↔ ∃ tx ∈ ledger, tx.address = addr ∧ tx.bundle = b := by
  constructor
  · rintro ⟨p, hp, ⟨tx, htx, haddr⟩, rfl⟩
    exact ⟨tx, H.there p hp tx htx, haddr, (H.survives C hp).bundle_eq tx htx⟩
  · rintro ⟨tx, htx, haddr, rfl⟩
    obtain ⟨p, hp, htxp⟩ := H.only tx htx (Or.inl haddr)
    exact ⟨p, hp, ⟨tx, htxp, haddr⟩, ((H.survives C hp).bundle_eq tx htxp).symm⟩

theorem HasPosts.succeeds_objectsByAddr (hon : ∃ p ∈ posts, p.On addr) :
    Succeeds (AnsweredFrom I ledger) (objectsByAddr I state addr) fun objs =>
      ∀ b, b ∈ objs.map (·.bundle) ↔ ∃ p ∈ posts, p.On addr ∧ p.hash = b := by
  refine (succeeds_command fun answer hanswer => hanswer).bind fun answer hanswer => ?_
  refine (succeeds_demand hanswer).bind fun hs hhs => ?_
  have hasked : ∀ h, h ∈ hs ↔ ∃ tx ∈ ledger, tx.address = addr ∧ tx.hash = h := by
    intro h
    rw [hhs]
    simp [Asked]
  have haddress : ∀ tx ∈ ledger, tx.hash ∈ hs ↔ tx.address = addr := by
    intro tx htx
    rw [hasked]
    constructor
    · rintro ⟨tx', htx', haddr, hhash⟩
      rwa [H.hashInj tx htx tx' htx' hhash.symm]
    · intro haddr
      exact ⟨tx, htx, haddr, rfl⟩
  refine (succeeds_ensure ?_).bind fun _ _ => ?_
  · obtain ⟨p, hp, tx, htx, haddr⟩ := hon
    have hmem := (haddress tx (H.there p hp tx htx)).mpr haddr
    exact decide_eq_true (List.length_pos_of_mem hmem)
  · refine (succeeds_taFindTransactionObjects ?_ H.hashInj).mono fun objs hobjs b => ?_
    · intro tx htx hhash
      obtain ⟨p, hp, htxp⟩ := H.only tx htx (Or.inl ((haddress tx htx).mp hhash))
      exact H.legible C hp htxp
    · rw [hobjs, H.on_iff C]
      refine exists_congr fun tx => and_congr_right fun htx => ?_
      rw [haddress tx htx]

/-- One attachment of each bundle on the address. -/
theorem HasPosts.succeeds_taGetBundlesByAddr (hsort : Sorts sort) (hon : ∃ p ∈ posts, p.On addr)
    (bundleArray : List (Option (List Transaction))) :
    Succeeds (AnsweredFrom I ledger) (taGetBundlesByAddr I state sort addr bundleArray) fun out =>
      ∃ found : List Posted, out = bundleArray ++ found.map (fun p => some p.txs) ∧
        (∀ p ∈ found, p ∈ posts) ∧ (found.map (·.hash)).Nodup ∧
        ∀ b, b ∈ found.map (·.hash) ↔ ∃ p ∈ posts, p.On addr ∧ p.hash = b := by
  refine (H.succeeds_objectsByAddr C hon).bind fun objs hobjs => ?_
  refine (H.succeeds_getBundles C hsort ?_ [] bundleArray).mono fun out hout => ?_
  · intro b hb
    obtain ⟨p, hp, -, hhash⟩ := (hobjs b).mp hb
    exact ⟨p, hp, hhash⟩
  · obtain ⟨found, hout, hposts, hnodup, hmem⟩ := hout
    refine ⟨found, hout, hposts, hnodup, fun b => ?_⟩
    rw [hmem, hobjs]
    exact and_iff_left List.not_mem_nil

omit C in
/-- Where nothing is on the address there is nothing to find. -/
theorem HasPosts.path_objectsByAddr_none (hnone : ∀ p ∈ posts, ¬ p.On addr) {τ : List (Event sig)}
    {r : Except Status (List Transaction)} (hpath : Path (objectsByAddr I state addr).run τ r)
    (hτ : ∀ e ∈ τ, AnsweredFrom I ledger e) : r = .error .cclientNotFound := by
  obtain ⟨answer, τ', rfl, hpath⟩ := hpath
  obtain ⟨hs, rfl, hhs⟩ := hτ _ (List.mem_cons_self ..)
  have hempty : hs = [] := by
    refine List.eq_nil_iff_forall_not_mem.mpr fun h hh => ?_
    obtain ⟨tx, htx, hasked, -⟩ := (hhs h).mp hh
    have haddr : tx.address = addr := by simpa [Asked] using hasked
    obtain ⟨p, hp, htxp⟩ := H.only tx htx (Or.inl haddr)
    exact hnone p hp ⟨tx, htxp, haddr⟩
  subst hempty
  exact ((path_run_throw ..).mp hpath).2

omit C in
theorem HasPosts.path_taGetBundlesByAddr_none (hnone : ∀ p ∈ posts, ¬ p.On addr)
    {bundleArray : List (Option (List Transaction))} {τ : List (Event sig)}
    {r : Except Status (List (Option (List Transaction)))}
    (hpath : Path (taGetBundlesByAddr I state sort addr bundleArray).run τ r)
    (hτ : ∀ e ∈ τ, AnsweredFrom I ledger e) : r = .error .cclientNotFound := by
  rw [taGetBundlesByAddr, path_run_bind] at hpath
  rcases hpath with ⟨e, rfl, hobjs⟩ | ⟨objs, τ₁, τ₂, rfl, hobjs, -⟩
  · cases H.path_objectsByAddr_none hnone hobjs hτ
    rfl
  · cases H.path_objectsByAddr_none hnone hobjs fun e he => hτ e (List.mem_append_left _ he)

/-- Every answer comes from one ledger, which holds bundles that were sent any number of times.
`ta_get_bundle` returns an attachment of the bundle it is asked for.  Where one of the bundles is on
the address, `ta_get_bundles_by_addr` returns `SC_OK`, and it has added one attachment for each
bundle hash on the address.  Otherwise it returns `SC_CCLIENT_NOT_FOUND`.  In an attachment the
bundle is whole and says what was sent. -/
theorem sentBundles_retrieved (hsort : Sorts sort) {τ : List (Event sig)}
    (hτ : ∀ e ∈ τ, AnsweredFrom I ledger e) :
    (∀ p ∈ posts, WholeBundle p.txs ∧ p.txs.map said = p.bundle.map said) ∧
    (∀ p ∈ posts, ∀ r, Path (taGetBundle sort p.hash).run τ r →
      ∃ q ∈ posts, q.hash = p.hash ∧ r = .ok (some q.txs)) ∧
    ∀ bundleArray r, Path (taGetBundlesByAddr I state sort addr bundleArray).run τ r →
      ((∀ p ∈ posts, ¬ p.On addr) → r = .error .cclientNotFound) ∧
      ((∃ p ∈ posts, p.On addr) → ∃ found : List Posted,
        r = .ok (bundleArray ++ found.map fun p => some p.txs) ∧ (∀ p ∈ found, p ∈ posts) ∧
        (found.map (·.hash)).Nodup ∧
        ∀ b, b ∈ found.map (·.hash) ↔ ∃ p ∈ posts, p.On addr ∧ p.hash = b) := by
  refine ⟨fun p hp => ?_, fun p hp r hpath => ?_, fun bundleArray r hpath => ⟨?_, ?_⟩⟩
  · have hsurvives := H.survives C hp
    exact ⟨hsurvives.wholeBundle (H.size p hp).1, hsurvives.said_eq⟩
  · obtain ⟨out, rfl, q, hq, hhash, rfl⟩ := H.succeeds_taGetBundle C hsort hp τ r hpath hτ
    exact ⟨q, hq, hhash, rfl⟩
  · exact fun hnone => H.path_taGetBundlesByAddr_none hnone hpath hτ
  · intro hon
    obtain ⟨out, rfl, hfound⟩ := H.succeeds_taGetBundlesByAddr C hsort hon bundleArray τ r hpath hτ
    obtain ⟨found, rfl, hrest⟩ := hfound
    exact ⟨found, rfl, hrest⟩

end Read

namespace Sample

instance (req : FindTransactionsReq) (tx : Transaction) : Decidable (Asked req tx) :=
  inferInstanceAs (Decidable (_ ∧ _))

/-- A node with this ledger.  The cache is of no use. -/
def ledgerNode (ledger : List Transaction) : (c : Cmd) → Choice c
  | .redis _ => true
  | .findTransactions req => some ((ledger.filter (Asked req ·)).map (·.hash))
  | .getTransactionObjects hashes => some (ledger.filter (·.hash ∈ hashes))
  | c => willing c

theorem answeredFrom_ledgerNode (I : Iota) (ledger : List Transaction) (c : Cmd) (w : World) :
    AnsweredFrom I ledger ⟨c, (world.serve c (ledgerNode ledger c) w).1⟩ := by
  cases c with
  | redis c =>
      cases c with
      | get key =>
          cases key with
          | _ => trivial
      | _ => trivial
  | findTransactions req =>
      refine ⟨_, rfl, fun h => ?_⟩
      simp [and_assoc]
  | getTransactionObjects hashes =>
      refine ⟨_, rfl, fun tx => ?_⟩
      simp
  | transactionSerialize tx => rfl
  | mam f => rfl
  | _ => trivial

/-- The index of a transaction is in its hash. -/
theorem index_of_hash (trytes : Hash8019) :
    (slotted.deserialize trytes true).currentIndex =
      indexOf ((slotDigest trytes).toList.getD 27 0) ((slotDigest trytes).toList.getD 28 0) := by
  simp [slotted, slotDigest]

theorem present_slotted (tx : Transaction) :
    (slotted.serialize tx).all (· == 0) = false := by
  rw [Bool.eq_false_iff]
  intro hall
  have hzero := Vector.all_eq_true.mp hall 2500 (by decide)
  simp [slotted] at hzero

/-- A bundle that was sent, and what is left of it. -/
def post (bundle : List Transaction) (τ : List (Event sig)) : Posted :=
  ⟨bundle, slotBundle bundle, ledgerOf slotted τ⟩

section Post

variable {bundle : List Transaction} {τ : List (Event sig)} {info : TaConfig} {iconf : IotaConfig}
  (hne : bundle ≠ []) (hlen : bundle.length ≤ 729)
  (hpath : Path (taSendBundle slotted info iconf bundle).run τ (.ok (slotted.finalize bundle)))
  (hgood : ∀ e ∈ τ, SendFails e = false)
include hne hlen hpath hgood

theorem bySend_post : (post bundle τ).BySend slotted info iconf := by
  obtain ⟨tail, rest, hsent, -⟩ := taSendBundle_survives codec_slotted hne hlen hgood hpath
  have htail : tail ∈ slotted.finalize bundle := by
    rw [hsent]
    exact List.mem_cons_self ..
  rw [hsent] at hpath
  exact ⟨τ, tail, rest, hpath, hgood, (bundle_of_mem_finalize htail).symm, rfl⟩

theorem survives_post : Survives bundle (slotBundle bundle) (ledgerOf slotted τ) := by
  obtain ⟨tail, rest, hsent, hsurvives⟩ :=
    taSendBundle_survives codec_slotted hne hlen hgood hpath
  have htail : tail ∈ slotted.finalize bundle := by
    rw [hsent]
    exact List.mem_cons_self ..
  rwa [← bundle_of_mem_finalize htail]

/-- The index says which transaction of the bundle it is. -/
theorem hashInj_post : HashInj (ledgerOf slotted τ) := by
  have hsurvives := survives_post hne hlen hpath hgood
  have hindex : ∀ tx ∈ ledgerOf slotted τ, tx.currentIndex =
      indexOf (tx.hash.toList.getD 27 0) (tx.hash.toList.getD 28 0) := by
    intro tx htx
    obtain ⟨trytes, -, rfl⟩ := List.mem_map.mp htx
    exact index_of_hash trytes
  intro x hx y hy hhash
  obtain ⟨i, hi, rfl⟩ := List.mem_iff_getElem.mp hx
  obtain ⟨j, hj, rfl⟩ := List.mem_iff_getElem.mp hy
  have hij : (i : Int) = j := by
    rw [← (hsurvives.index i hi).current, ← (hsurvives.index j hj).current, hindex _ hx,
      hindex _ hy, hhash]
  have hij' : i = j := Int.ofNat_inj.mp hij
  subst hij'
  rfl

theorem holds_post (addr : Hash243) :
    HasPosts slotted info iconf 729 addr [post bundle τ] (post bundle τ).txs where
  sent := List.forall_mem_singleton.mpr (bySend_post hne hlen hpath hgood)
  size := List.forall_mem_singleton.mpr ⟨hne, hlen⟩
  there := List.forall_mem_singleton.mpr fun _ htx => htx
  only _ htx _ := ⟨_, List.mem_singleton_self _, htx⟩
  said_eq := by simp
  apart := by simp
  hashInj := hashInj_post hne hlen hpath hgood
  present _ _ tx _ := present_slotted tx

theorem on_post {addr : Hash243} (haddr : ∃ tx ∈ bundle, tx.address = addr) :
    (post bundle τ).On addr := by
  have hsaid := congrArg (List.map (·.2.1)) (survives_post hne hlen hpath hgood).said_eq
  rw [List.map_map, List.map_map] at hsaid
  obtain ⟨tx, htx, rfl⟩ := haddr
  have hmem : tx.address ∈ bundle.map ((·.2.1) ∘ said) := List.mem_map.mpr ⟨tx, htx, rfl⟩
  rw [← hsaid] at hmem
  obtain ⟨tx', htx', haddr⟩ := List.mem_map.mp hmem
  exact ⟨tx', htx', haddr⟩

end Post

/-- Two transactions that were sent to an address. -/
theorem exists_pairPost : ∃ p : Posted, p.bundle = pair ∧
    HasPosts slotted core.taConf core.iotaConf 729 txn.address [p] p.txs ∧ p.On txn.address := by
  have hne : pair ≠ [] := List.cons_ne_nil _ _
  exact ⟨post pair pairTrace, rfl,
    holds_post hne (by decide) path_pairTrace sendFails_pairTrace _,
    on_post hne (by decide) path_pairTrace sendFails_pairTrace ⟨_, List.mem_cons_self .., rfl⟩⟩

end Sample

/-- One bundle is on the address, and it is returned. -/
theorem sentBundles_retrieved_pair : ∃ txs τ,
    Path (taGetBundlesByAddr Sample.slotted true Sample.sortByIndex Sample.txn.address []).run τ
      (.ok [some txs]) ∧ WholeBundle txs ∧ txs.map said = Sample.pair.map said := by
  obtain ⟨p, hbundle, hholds, hon⟩ := Sample.exists_pairPost
  let run := exec world (taGetBundlesByAddr Sample.slotted true Sample.sortByIndex
    Sample.txn.address []).run (fun _ => Sample.ledgerNode p.txs) Sample.buffered
  have hpath : Path _ run.1 run.2.1 := path_exec (V := world) _ _ _
  have hτ : ∀ e ∈ run.1, AnsweredFrom Sample.slotted p.txs e :=
    forall_mem_exec _ _ fun _ => Sample.answeredFrom_ledgerNode _ _
  obtain ⟨hintact, -, hbyAddr⟩ := sentBundles_retrieved Sample.codec_slotted hholds
    Sample.sorts_sortByIndex hτ
  have hp := List.mem_singleton_self p
  obtain ⟨found, hr, hposts, hnodup, hmem⟩ := (hbyAddr [] _ hpath).2 ⟨p, hp, hon⟩
  have hhashes : found.map (·.hash) = [p.hash] := by
    rw [← List.perm_singleton, List.perm_ext_iff_of_nodup hnodup (List.nodup_singleton _)]
    intro b
    rw [hmem]
    simp [hon, eq_comm]
  obtain ⟨q, rfl, -⟩ := List.map_eq_singleton_iff.mp hhashes
  cases List.mem_singleton.mp (hposts q (List.mem_singleton_self _))
  obtain ⟨hwhole, hsaid⟩ := hintact p hp
  exact ⟨p.txs, run.1, hr ▸ hpath, hwhole, hbundle ▸ hsaid⟩

end TangleAccelerator
