import TangleAccelerator.Mam.Rollover
import TangleAccelerator.Tangle.Bundles
import TangleAccelerator.Tangle.Chain

/-!
# A bundle on the Tangle

What `ta_send_bundle` gives to the node.

On its way a bundle is finalized, serialized, read back, attached and serialized again.  The trunk
of a transaction is set to the digest of the next one, and the node reads the digest as the hash.
So what the node has is an attachment: the transactions in their order, each one the trunk of the
one before it.  This is what `get_first_bundle_from_transactions` puts together again, in whatever
order the transactions are returned.

`IotaCodec` is what is assumed of `iota.c`.  An index has nine trytes in a serialized transaction,
so a bundle has a greatest length.
-/

namespace TangleAccelerator

open Effect

/-! ## What is kept -/

/-- What a transaction says: its message, its address and its tag. -/
def said (tx : Transaction) : Vector Tryte 2187 × Hash243 × Hash81 :=
  (tx.message, tx.address, tx.tag)

/-- What a bundle is put together by: the indices, the bundle hash and the trunk. -/
def joints (tx : Transaction) : Int64 × Int64 × Hash243 × Hash243 :=
  (tx.currentIndex, tx.lastIndex, tx.bundle, tx.trunk)

/-- The transaction has its place in a bundle of this length. -/
structure AtIndex (tx : Transaction) (i length : Nat) : Prop where
  current : tx.currentIndex.toInt = i
  last : tx.lastIndex.toInt + 1 = length

/-- What is assumed of `iota.c`, for bundles of at most `limit` transactions. -/
structure IotaCodec (I : Iota) (limit : Nat) : Prop extends IotaLabels I where
  /-- `bundle_finalize` numbers the transactions and gives them one bundle hash. -/
  said_finalize : ∀ txs, (I.finalize txs).map said = txs.map said
  index_finalize : ∀ txs, txs.length ≤ limit → ∀ i (h : i < (I.finalize txs).length),
    AtIndex (I.finalize txs)[i] i txs.length
  bundle_finalize : ∀ txs, ∀ x ∈ I.finalize txs, ∀ y ∈ I.finalize txs, x.bundle = y.bundle
  /-- The trytes of a transaction hold what it says and where it belongs. -/
  said_deserialize : ∀ tx, said (I.deserialize (I.serialize tx) true) = said tx
  joints_deserialize : ∀ tx i length, i < length → length ≤ limit → AtIndex tx i length →
    joints (I.deserialize (I.serialize tx) true) = joints tx
  /-- The hash of a transaction is the digest of its trytes. -/
  hash_deserialize : ∀ trytes, (I.deserialize trytes true).hash = I.digest trytes

section Sent

variable {I : Iota} {limit : Nat} {info : TaConfig} {iconf : IotaConfig} {τ : List (Event sig)}
  {bundle sent : List Transaction}

theorem OnlyAttachment.said_eq {tx tx' : Transaction} (h : OnlyAttachment tx tx') :
    said tx' = said tx := by
  rw [h]
  rfl

theorem OnlyAttachment.atIndex {tx tx' : Transaction} (h : OnlyAttachment tx tx') {i n : Nat}
    (hi : AtIndex tx i n) : AtIndex tx' i n := by
  rw [h] at hi
  exact ⟨hi.current, hi.last⟩

theorem OnlyAttachment.bundle_eq {tx tx' : Transaction} (h : OnlyAttachment tx tx') :
    tx'.bundle = tx.bundle := by
  rw [h]

namespace IotaCodec

variable (C : IotaCodec I limit)
include C

theorem length_finalize (txs : List Transaction) : (I.finalize txs).length = txs.length := by
  have hlen := congrArg List.length (C.said_finalize txs)
  rwa [List.length_map, List.length_map] at hlen

/-- Reading a transaction that has its place changes nothing of what a bundle needs. -/
theorem read {tx : Transaction} {i n : Nat} (hi : i < n) (hn : n ≤ limit) (h : AtIndex tx i n) :
    AtIndex (I.deserialize (I.serialize tx) true) i n ∧
      (I.deserialize (I.serialize tx) true).bundle = tx.bundle ∧
      (I.deserialize (I.serialize tx) true).trunk = tx.trunk := by
  have hjoints := C.joints_deserialize tx i n hi hn h
  simp only [joints, Prod.mk.injEq] at hjoints
  obtain ⟨hcurrent, hlast, hbundle, htrunk⟩ := hjoints
  exact ⟨⟨by rw [hcurrent, h.current], by rw [hlast, h.last]⟩, hbundle, htrunk⟩

end IotaCodec

/-- A bundle as the node has it: what was said, under one bundle hash, in an attachment. -/
structure Survives (bundle : List Transaction) (hash : Hash243) (txs : List Transaction) :
    Prop where
  said_eq : txs.map said = bundle.map said
  bundle_eq : ∀ tx ∈ txs, tx.bundle = hash
  index : ∀ i (h : i < txs.length), AtIndex txs[i] i bundle.length
  link : txs.IsChain fun tx next => tx.trunk = next.hash

theorem Survives.length_eq {hash : Hash243} {txs : List Transaction}
    (h : Survives bundle hash txs) : txs.length = bundle.length := by
  have hlen := congrArg List.length h.said_eq
  rwa [List.length_map, List.length_map] at hlen

theorem Survives.attachment {hash : Hash243} {txs : List Transaction}
    (h : Survives bundle hash txs) (hne : bundle ≠ []) : Attachment (bundle.length - 1) txs where
  length := by
    have hpos := List.length_pos_iff.mpr hne
    rw [h.length_eq]
    omega
  index i hi := (h.index i hi).current
  link := List.isChain_iff_getElem.mp h.link

/-! ## The way to the node -/

/-- The serialized bundle as `ta_attach_to_tangle` reads it. -/
def rawBundle (I : Iota) (bundle : List Transaction) : List Transaction :=
  ((I.finalize bundle).map I.serialize).map (I.deserialize · true)

theorem IotaCodec.length_rawBundle (C : IotaCodec I limit) (bundle : List Transaction) :
    (rawBundle I bundle).length = bundle.length := by
  rw [rawBundle, List.length_map, List.length_map, C.length_finalize]

/-- What a transaction of the bundle is before and after it is attached. -/
structure Placed (I : Iota) (bundle : List Transaction) (i : Nat) (tx : Transaction) : Prop where
  said_eq : bundle[i]?.map said = some (said tx)
  atIndex : AtIndex tx i bundle.length
  bundle_eq : ∀ x ∈ I.finalize bundle, tx.bundle = x.bundle

theorem IotaCodec.placed_rawBundle (C : IotaCodec I limit) (hlen : bundle.length ≤ limit) {i : Nat}
    {tx : Transaction} (htx : (rawBundle I bundle)[i]? = some tx) : Placed I bundle i tx := by
  have hi : i < bundle.length := by
    have hlt := (List.getElem?_eq_some_iff.mp htx).1
    rwa [C.length_rawBundle] at hlt
  have hf : i < (I.finalize bundle).length := by rwa [C.length_finalize]
  obtain ⟨hat, hbundle, -⟩ := C.read hi hlen (C.index_finalize bundle hlen i hf)
  rw [rawBundle, List.getElem?_map, List.getElem?_map, List.getElem?_eq_getElem hf,
    Option.map_some, Option.map_some, Option.some_inj] at htx
  subst htx
  refine ⟨?_, hat, fun x hx => ?_⟩
  · rw [← List.getElem?_map, ← C.said_finalize, List.getElem?_map, List.getElem?_eq_getElem hf,
      Option.map_some, C.said_deserialize]
  · rw [hbundle]
    exact C.bundle_finalize bundle _ (List.getElem_mem hf) x hx

theorem Placed.of_onlyAttachment {i : Nat} {tx tx' : Transaction} (h : Placed I bundle i tx)
    (hsame : OnlyAttachment tx tx') : Placed I bundle i tx' where
  said_eq := by rw [h.said_eq, hsame.said_eq]
  atIndex := hsame.atIndex h.atIndex
  bundle_eq x hx := by rw [hsame.bundle_eq, h.bundle_eq x hx]

/-- The node reads an attached bundle as an attachment. -/
theorem Attached.survives (C : IotaCodec I limit) (hlen : bundle.length ≤ limit)
    {trunk branch : Hash243} {mwm : Nat} {out : List Transaction} {hash : Hash243}
    (h : Attached I trunk branch mwm τ (rawBundle I bundle) out)
    (hhash : ∃ x ∈ I.finalize bundle, x.bundle = hash) :
    Survives bundle hash (out.map fun tx => I.deserialize (I.serialize tx) true) := by
  obtain ⟨hlength, hget⟩ := List.forall₂_iff_get.mp h.each
  rw [C.length_rawBundle] at hlength
  have hplaced : ∀ i (hi : i < out.length), Placed I bundle i out[i] := by
    intro i hi
    have hraw : i < (rawBundle I bundle).length := by rwa [C.length_rawBundle, hlength]
    exact (C.placed_rawBundle hlen (List.getElem?_eq_getElem hraw)).of_onlyAttachment
      (hget i hraw hi).2
  have hread := fun i (hi : i < out.length) =>
    C.read (by omega) hlen (hplaced i hi).atIndex
  refine ⟨?_, ?_, ?_, ?_⟩
  · rw [List.map_map]
    refine List.ext_getElem? fun i => ?_
    rw [List.getElem?_map, List.getElem?_map]
    by_cases hi : i < out.length
    · rw [List.getElem?_eq_getElem hi, (hplaced i hi).said_eq]
      exact congrArg some (C.said_deserialize _)
    · rw [List.getElem?_eq_none (by omega), List.getElem?_eq_none (by omega)]
      rfl
  · intro tx htx
    obtain ⟨tx', htx', rfl⟩ := List.mem_map.mp htx
    obtain ⟨i, hi, rfl⟩ := List.mem_iff_getElem.mp htx'
    obtain ⟨x, hx, rfl⟩ := hhash
    rw [(hread i hi).2.1, (hplaced i hi).bundle_eq x hx]
  · intro i hi
    rw [List.length_map] at hi
    rw [List.getElem_map]
    exact (hread i hi).1
  · rw [List.isChain_iff_getElem]
    intro i hi
    rw [List.length_map] at hi
    rw [List.getElem_map, List.getElem_map, C.hash_deserialize, (hread i (by omega)).2.2]
    exact h.link i hi

/-- A bundle that was sent without a failure is on the ledger. -/
theorem taSendBundle_survives (C : IotaCodec I limit) (hne : bundle ≠ [])
    (hlen : bundle.length ≤ limit) (hgood : ∀ e ∈ τ, SendFails e = false)
    (h : Path (taSendBundle I info iconf bundle).run τ (.ok sent)) :
    ∃ tail rest, sent = tail :: rest ∧ Survives bundle tail.bundle (ledgerOf I τ) := by
  obtain ⟨rfl, r, hsend⟩ := path_taSendBundle h
  have hlength := C.length_finalize bundle
  have hfinal : I.finalize bundle ≠ [] := by
    rw [← List.length_pos_iff, hlength]
    exact List.length_pos_iff.mpr hne
  have hraw : (I.finalize bundle).map I.serialize ≠ [] := by
    rwa [Ne, List.map_eq_nil_iff]
  obtain ⟨attached, rfl⟩ := failsOnlyAt_taSendTrytes hraw _ _ hsend hgood
  have hstored := (path_taSendTrytes hsend).1
  obtain ⟨tips, τ₁, τ₂, -, -, hattach⟩ := taSendTrytes_parts hsend
  rw [taAttachToTangle, path_run_bind_ok] at hattach
  obtain ⟨out, τ₃, τ₄, -, hpow, hserialize⟩ := hattach
  obtain rfl := path_serializeBundle hserialize
  -- the last transaction says how many there are, so the walk comes to the front
  have hrawlen := C.length_rawBundle bundle
  have hpos := List.length_pos_iff.mpr hne
  have hlast : (rawBundle I bundle).getLast? = (rawBundle I bundle)[bundle.length - 1]? := by
    rw [List.getLast?_eq_getElem?, hrawlen]
  rw [List.getElem?_eq_getElem (by omega)] at hlast
  have hplaced := C.placed_rawBundle hlen (List.getElem?_eq_getElem (l := rawBundle I bundle)
    (i := bundle.length - 1) (by omega))
  have hpasses := passes_lastIndex (rawBundle I bundle)[bundle.length - 1].lastIndex
  have hindex := hplaced.atIndex.last
  have hlt := (rawBundle I bundle)[bundle.length - 1].lastIndex.toInt_lt
  have hall := attached_of_passes hlast (by omega) hpow
  obtain ⟨tail, rest, hcons⟩ := List.exists_cons_of_ne_nil hfinal
  refine ⟨tail, rest, hcons, ?_⟩
  have hsurvives := hall.survives C hlen ⟨tail, by simp [hcons], rfl⟩
  rw [ledgerOf, hstored, List.flatten_singleton, List.map_map]
  exact hsurvives

theorem Survives.wholeBundle {hash : Hash243} {txs : List Transaction}
    (h : Survives bundle hash txs) (hne : bundle ≠ []) : WholeBundle txs := by
  have hlength := h.length_eq
  have hpos := List.length_pos_iff.mpr hne
  refine ⟨⟨txs[0], ?_, ?_⟩, ⟨txs[txs.length - 1], ?_, ?_⟩, ?_⟩
  · rw [List.head?_eq_getElem?, List.getElem?_eq_getElem (by omega)]
  · exact Int64.toInt_inj.mp (h.index 0 (by omega)).current
  · rw [List.getLast?_eq_getElem?, List.getElem?_eq_getElem (by omega)]
  · have hlast := h.index (txs.length - 1) (by omega)
    have hcurrent := hlast.current
    have htotal := hlast.last
    refine Int64.toInt_inj.mp ?_
    omega
  · exact h.link

end Sent

namespace Sample

/-- The tryte at place `i` of a serialized transaction, where `v` is at the place `start`. -/
def slot {n : Nat} (v : Vector Tryte n) (start i : Nat) : Tryte := v.toList.getD (i - start) 0

/-- The two trytes of an index. -/
def indexTryte (x : Int64) (i : Nat) : Tryte := Fin.ofNat 27 (x.toInt.toNat / 27 ^ i)

/-- The index of two trytes. -/
def indexOf (low high : Tryte) : Int64 := Int64.ofNat (low.val + 27 * high.val)

/-- A part of a serialized transaction. -/
def part (trytes : Hash8019) (start n : Nat) : Vector Tryte n :=
  Vector.ofFn fun i : Fin n => trytes.toList.getD (start + i.val) 0

/-- A hash that has the tag, the index and a part of the address. -/
def slotDigest (trytes : Hash8019) : Hash243 :=
  Vector.ofFn fun i : Fin 81 => trytes.toList.getD
    (if i.val < 27 then 2268 + i.val else if i.val < 29 then 2430 + i.val else 2158 + i.val) 0

/-- A bundle hash that has the tag and a part of the address of the first transaction. -/
def slotBundle (txs : List Transaction) : Hash243 :=
  Vector.ofFn fun i : Fin 81 =>
    if i.val < 27 then slot ((txs.map (·.tag)).headD (Vector.replicate 27 0)) 0 i
    else slot ((txs.map (·.address)).headD (Vector.replicate 81 0)) 27 i

/-- Trytes that hold what a bundle needs, with places that are never null. -/
def slotted : Iota where
  serialize tx := Vector.ofFn fun i : Fin 2673 =>
    if i.val < 2187 then slot tx.message 0 i
    else if i.val < 2268 then slot tx.address 2187 i
    else if i.val < 2295 then slot tx.tag 2268 i
    else if i.val < 2376 then slot tx.bundle 2295 i
    else if i.val < 2457 then slot tx.trunk 2376 i
    else if i.val < 2459 then indexTryte tx.currentIndex (i.val - 2457)
    else if i.val < 2461 then indexTryte tx.lastIndex (i.val - 2459)
    else 1
  deserialize trytes _ :=
    { txn with
      message := part trytes 0 2187
      address := part trytes 2187 81
      tag := part trytes 2268 27
      bundle := part trytes 2295 81
      trunk := part trytes 2376 81
      currentIndex := indexOf (trytes.toList.getD 2457 0) (trytes.toList.getD 2458 0)
      lastIndex := indexOf (trytes.toList.getD 2459 0) (trytes.toList.getD 2460 0)
      hash := slotDigest trytes }
  digest := slotDigest
  finalize txs := txs.mapIdx fun i tx =>
    { tx with
      currentIndex := Int64.ofNat i
      lastIndex := Int64.ofNat (txs.length - 1)
      bundle := slotBundle txs }
  freshTips := (Vector.replicate 81 0, Vector.replicate 81 0)
  fromTrytes _ := trytes

theorem getD_serialize (tx : Transaction) {i : Nat} (hi : i < 2673) :
    (slotted.serialize tx).toList.getD i 0 =
      if i < 2187 then slot tx.message 0 i
      else if i < 2268 then slot tx.address 2187 i
      else if i < 2295 then slot tx.tag 2268 i
      else if i < 2376 then slot tx.bundle 2295 i
      else if i < 2457 then slot tx.trunk 2376 i
      else if i < 2459 then indexTryte tx.currentIndex (i - 2457)
      else if i < 2461 then indexTryte tx.lastIndex (i - 2459)
      else 1 := by
  rw [List.getD_eq_getElem _ _ (by simpa using hi)]
  simp [slotted]

/-- The part of a serialized transaction that a vector is written to. -/
theorem part_serialize (tx : Transaction) {n start : Nat} {v : Vector Tryte n}
    (h : ∀ i, start ≤ i → i < start + n → (slotted.serialize tx).toList.getD i 0 = slot v start i) :
    part (slotted.serialize tx) start n = v := by
  ext i hi
  rw [part, Vector.getElem_ofFn, h _ (by omega) (by omega)]
  simp [slot, hi]

theorem indexOf_indexTryte {x : Int64} {i : Nat} (hx : x.toInt = i) (hi : i < 729) :
    indexOf (indexTryte x 0) (indexTryte x 1) = x := by
  refine Int64.toInt_inj.mp ?_
  have hdigits : (indexTryte x 0).val + 27 * (indexTryte x 1).val = i := by
    simp only [indexTryte, hx, Int.toNat_natCast, Fin.val_ofNat]
    omega
  rw [indexOf, hdigits, Int64.toInt_ofNat_of_lt (by omega), hx]

theorem address_slotted (tx : Transaction) (hash : Bool) :
    (slotted.deserialize (slotted.serialize tx) hash).address = tx.address := by
  refine part_serialize tx fun i hlo hhi => ?_
  rw [getD_serialize tx (by omega), if_neg (by omega), if_pos (by omega)]

theorem tag_slotted (tx : Transaction) (hash : Bool) :
    (slotted.deserialize (slotted.serialize tx) hash).tag = tx.tag := by
  refine part_serialize tx fun i hlo hhi => ?_
  rw [getD_serialize tx (by omega), if_neg (by omega), if_neg (by omega), if_pos (by omega)]

theorem message_slotted (tx : Transaction) (hash : Bool) :
    (slotted.deserialize (slotted.serialize tx) hash).message = tx.message := by
  refine part_serialize tx fun i hlo hhi => ?_
  rw [getD_serialize tx (by omega), if_pos (by omega)]

theorem bundle_slotted (tx : Transaction) (hash : Bool) :
    (slotted.deserialize (slotted.serialize tx) hash).bundle = tx.bundle := by
  refine part_serialize tx fun i hlo hhi => ?_
  rw [getD_serialize tx (by omega), if_neg (by omega), if_neg (by omega), if_neg (by omega),
    if_pos (by omega)]

theorem trunk_slotted (tx : Transaction) (hash : Bool) :
    (slotted.deserialize (slotted.serialize tx) hash).trunk = tx.trunk := by
  refine part_serialize tx fun i hlo hhi => ?_
  rw [getD_serialize tx (by omega), if_neg (by omega), if_neg (by omega), if_neg (by omega),
    if_neg (by omega), if_pos (by omega)]

theorem current_slotted (tx : Transaction) (hash : Bool) {i : Nat}
    (h : tx.currentIndex.toInt = i) (hi : i < 729) :
    (slotted.deserialize (slotted.serialize tx) hash).currentIndex = tx.currentIndex := by
  rw [← indexOf_indexTryte h hi]
  change indexOf _ _ = _
  rw [getD_serialize tx (by decide), getD_serialize tx (by decide)]
  rfl

theorem last_slotted (tx : Transaction) (hash : Bool) {i : Nat}
    (h : tx.lastIndex.toInt = i) (hi : i < 729) :
    (slotted.deserialize (slotted.serialize tx) hash).lastIndex = tx.lastIndex := by
  rw [← indexOf_indexTryte h hi]
  change indexOf _ _ = _
  rw [getD_serialize tx (by decide), getD_serialize tx (by decide)]
  rfl

theorem map_finalize {β : Type} {f : Transaction → β} (txs : List Transaction)
    (h : ∀ tx i l b, f { tx with currentIndex := i, lastIndex := l, bundle := b } = f tx) :
    (slotted.finalize txs).map f = txs.map f := by
  refine List.ext_getElem (by simp [slotted]) fun i _ _ => ?_
  simp only [slotted, List.getElem_map, List.getElem_mapIdx]
  exact h ..

theorem bundle_of_mem_finalize {txs : List Transaction} {x : Transaction}
    (hx : x ∈ slotted.finalize txs) : x.bundle = slotBundle txs := by
  obtain ⟨i, hi, rfl⟩ := List.mem_mapIdx.mp hx
  rfl

theorem codec_slotted : IotaCodec slotted 729 where
  finalize txs := map_finalize txs fun _ _ _ _ => rfl
  deserialize tx hash := by rw [label, address_slotted, tag_slotted]; rfl
  said_finalize txs := map_finalize txs fun _ _ _ _ => rfl
  index_finalize txs hlen i hi := by
    have hlt : i < txs.length := by simpa [slotted] using hi
    simp only [slotted, List.getElem_mapIdx]
    refine ⟨Int64.toInt_ofNat_of_lt (by omega), ?_⟩
    rw [Int64.toInt_ofNat_of_lt (by omega)]
    omega
  bundle_finalize txs x hx y hy := by rw [bundle_of_mem_finalize hx, bundle_of_mem_finalize hy]
  said_deserialize tx := by rw [said, message_slotted, address_slotted, tag_slotted]; rfl
  joints_deserialize tx i length hi hlength h := by
    have hcurrent := current_slotted tx true h.current (by omega)
    have hlast := last_slotted tx true (i := length - 1) (by have := h.last; omega) (by omega)
    rw [joints, hcurrent, hlast, bundle_slotted, trunk_slotted]
    rfl
  hash_deserialize _ := rfl

/-- A node that also gives tips. -/
def willing : (c : Cmd) → Choice c
  | .getTransactionsToApprove _ => some slotted.freshTips
  | c => good c

theorem sendFails_willing (c : Cmd) (w : World) :
    SendFails ⟨c, (world.serve c (willing c) w).1⟩ = false := by
  cases c with
  | _ => rfl

/-- The trace of sending two transactions. -/
def pairTrace : List (Event sig) :=
  (exec world (taSendBundle slotted core.taConf core.iotaConf pair).run (fun _ => willing)
    buffered).1

theorem sendFails_pairTrace : ∀ e ∈ pairTrace, SendFails e = false :=
  forall_mem_exec _ _ fun _ => sendFails_willing

theorem path_pairTrace : Path (taSendBundle slotted core.taConf core.iotaConf pair).run pairTrace
    (.ok (slotted.finalize pair)) := by
  have hpath := path_exec (V := world) (taSendBundle slotted core.taConf core.iotaConf pair).run
    (fun _ => willing) buffered
  obtain ⟨sent, hsent⟩ := failsOnlyAt_attempt (F := SendFails) _ |>.bind
    (fun _ => failsOnlyAt_pure _) _ _ hpath sendFails_pairTrace
  rw [hsent] at hpath
  have hfinal := (path_taSendBundle hpath).1
  rw [hfinal] at hpath
  exact hpath

end Sample

end TangleAccelerator
