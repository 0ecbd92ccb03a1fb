import TangleAccelerator.Mam.Payload
import TangleAccelerator.Mam.Rollover
import TangleAccelerator.Tangle.Address

/-!
# Receiving MAM messages

`ta_recv_mam_message` and `ta_mam_api_bundle_read` of `mam_core.c`, and what `ta_set_mam_key` makes
of the pre-shared keys, for the sender and for the receiver.

The keys are meant to be numbered: the ID of a key is its index, two bytes written as four trytes
and filled with nines.  The counter of `ta_set_mam_key` stays zero, so all keys get the same ID, and
the set of the library keeps the first one.

A receiver fetches the bundles of a channel, or one bundle, and reads them one after the other.  A
bundle without a payload, which is an announcement, adds a null entry to the payloads.  A bundle
that cannot be read ends the loop, and so does a key that cannot be added before it starts.  The
status stays `SC_OK` in both cases.
-/

namespace TangleAccelerator

open Effect

/-! ## The IDs of pre-shared keys -/

/-- The bytes of a counter in memory, the lower one first. -/
def uint16Bytes (i : UInt16) : List UInt8 :=
  [UInt8.ofNat (i.toNat % 256), UInt8.ofNat (i.toNat / 256)]

/-- The ID of the index of a key. -/
def pskIdOf (i : UInt16) : Except Status (List Tryte) :=
  fillNines (bytesToTrytes (uint16Bytes i)) 27

/-- One entry for each listed key, in their order, with the ID of its index. -/
structure Numbered (psks : List (Vector Tryte 81)) (set : List (List Tryte × Vector Tryte 81)) :
    Prop where
  listed : set.map Prod.snd = psks
  ids : ∀ i (h : i < set.length), pskIdOf (UInt16.ofNat i) = .ok (set[i]).1
  distinct : (set.map Prod.fst).Nodup

theorem pskIdOf_eq (i : UInt16) :
    pskIdOf i = .ok (bytesToTrytes (uint16Bytes i) ++ List.replicate 23 0) := rfl

theorem nibble_inj {x y : Nat} (hx : x < 16) (hy : y < 16)
    (h : Fin.ofNat 27 x = Fin.ofNat 27 y) : x = y := by
  have hval := congrArg Fin.val h
  rwa [Fin.val_ofNat, Fin.val_ofNat, Nat.mod_eq_of_lt (by omega), Nat.mod_eq_of_lt (by omega)]
    at hval

/-- Each byte can be read off its two trytes. -/
theorem bytesToTrytes_inj {bs cs : List UInt8} (h : bytesToTrytes bs = bytesToTrytes cs) :
    bs = cs := by
  induction bs generalizing cs with
  | nil =>
      cases cs with
      | nil => rfl
      | cons c cs => cases h
  | cons b bs ih =>
      cases cs with
      | nil => cases h
      | cons c cs =>
          rw [bytesToTrytes, bytesToTrytes] at h
          obtain ⟨hupper, h⟩ := List.cons.inj h
          obtain ⟨hlower, h⟩ := List.cons.inj h
          have hb := b.toNat_lt
          have hc := c.toNat_lt
          have hdiv := nibble_inj (by omega) (by omega) hupper
          have hmod := nibble_inj (by omega) (by omega) hlower
          rw [ih h, UInt8.toNat_inj.mp (show b.toNat = c.toNat by omega)]

/-- Different indices have different IDs. -/
theorem pskIdOf_inj {i j : UInt16} (h : pskIdOf i = pskIdOf j) : i = j := by
  rw [pskIdOf_eq, pskIdOf_eq, Except.ok.injEq] at h
  have hbytes := bytesToTrytes_inj (List.append_cancel_right h)
  have hi := i.toNat_lt
  have hj := j.toNat_lt
  simp only [uint16Bytes, List.cons.injEq, and_true] at hbytes
  have hlower := congrArg UInt8.toNat hbytes.1
  have hupper := congrArg UInt8.toNat hbytes.2
  rw [UInt8.toNat_ofNat', UInt8.toNat_ofNat'] at hlower hupper
  exact UInt16.toNat_inj.mp (by omega)

/-- The ID that all keys get. -/
def zeroPskId : List Tryte := List.replicate 27 0

theorem fillNines_zero : fillNines (bytesToTrytes [0, 0]) 27 = .ok zeroPskId := by decide

/-- The set the loop over the pre-shared keys leaves. -/
def pskSet (psks : List (Vector Tryte 81)) : List (List Tryte × Vector Tryte 81) :=
  psks.head?.toList.map fun psk => (zeroPskId, psk)

section Keys

variable {psks : List (Vector Tryte 81)} {pks sks : List (Vector Tryte 1024)}
  {τ : List (Event sig)} {keys keys' : MamEncryptKey}

/-- A key whose ID is in the set is not added. -/
theorem foldl_pskSetAdd {set : List (List Tryte × Vector Tryte 81)}
    (h : zeroPskId ∈ set.map Prod.fst) :
    psks.foldl (fun set psk => pskSetAdd set (zeroPskId, psk)) set = set := by
  induction psks with
  | nil => rfl
  | cons psk psks ih => rw [List.foldl_cons, pskSetAdd, if_pos h, ih]

theorem foldl_pskSetAdd_nil (psks : List (Vector Tryte 81)) :
    psks.foldl (fun set psk => pskSetAdd set (zeroPskId, psk)) [] = pskSet psks := by
  cases psks with
  | nil => rfl
  | cons psk psks =>
      have hfirst : zeroPskId ∈ [(zeroPskId, psk)].map Prod.fst := List.mem_cons_self ..
      exact foldl_pskSetAdd hfirst

theorem path_setPsks (h : Path (setPsks psks keys).run τ (.ok keys')) :
    keys'.psks = psks.foldl (fun set psk => pskSetAdd set (zeroPskId, psk)) keys.psks := by
  induction psks generalizing keys τ with
  | nil =>
      obtain ⟨-, he⟩ := (path_run_pure ..).mp h
      cases he
      rfl
  | cons psk psks ih =>
      rw [setPsks, fillNines_zero, path_run_bind_ok] at h
      obtain ⟨pskId, τ₁, τ₂, rfl, hid, h⟩ := h
      cases ((path_run_settle ..).mp hid).2
      rw [path_run_request_bind] at h
      obtain ⟨ok, τ₃, rfl, h⟩ := h
      rw [path_run_bind_ok] at h
      obtain ⟨_, τ₄, τ₅, rfl, -, h⟩ := h
      exact ih h

theorem path_setNtruPks (h : Path (setNtruPks pks keys).run τ (.ok keys')) :
    keys'.psks = keys.psks := by
  induction pks generalizing keys τ with
  | nil =>
      obtain ⟨-, he⟩ := (path_run_pure ..).mp h
      cases he
      rfl
  | cons pk pks ih =>
      rw [setNtruPks, path_run_request_bind] at h
      obtain ⟨ok, τ₁, rfl, h⟩ := h
      rw [path_run_bind_ok] at h
      obtain ⟨_, τ₂, τ₃, rfl, -, h⟩ := h
      rw [ih h]

theorem path_setNtruSks (h : Path (setNtruSks sks keys).run τ (.ok keys')) :
    keys'.psks = keys.psks := by
  induction sks generalizing keys τ with
  | nil =>
      obtain ⟨-, he⟩ := (path_run_pure ..).mp h
      cases he
      rfl
  | cons sk sks ih =>
      rw [setNtruSks, path_run_request_bind] at h
      obtain ⟨ok, τ₁, rfl, h⟩ := h
      rw [path_run_bind_ok] at h
      obtain ⟨_, τ₂, τ₃, rfl, -, h⟩ := h
      rw [ih h]

theorem path_taSetMamKey (h : Path (taSetMamKey psks pks).run τ (.ok keys)) :
    keys.psks = pskSet psks := by
  rw [taSetMamKey, path_run_bind_ok] at h
  obtain ⟨keys₁, τ₁, τ₂, rfl, hpsks, hpks⟩ := h
  rw [path_setNtruPks hpks, path_setPsks hpsks, ← foldl_pskSetAdd_nil]

theorem path_taSetMamKeyForReading (h : Path (taSetMamKeyForReading psks sks).run τ (.ok keys)) :
    keys.psks = pskSet psks := by
  rw [taSetMamKeyForReading, path_run_bind_ok] at h
  obtain ⟨keys₁, τ₁, τ₂, rfl, hpsks, hsks⟩ := h
  rw [path_setNtruSks hsks, path_setPsks hpsks, ← foldl_pskSetAdd_nil]

theorem numbered_pskSet_iff : Numbered psks (pskSet psks) ↔ psks.length ≤ 1 := by
  constructor
  · intro h
    rw [← h.listed, List.length_map, pskSet, List.length_map]
    cases psks with
    | nil => exact Nat.zero_le 1
    | cons psk psks => exact le_refl 1
  · intro h
    rcases psks with _ | ⟨psk, _ | ⟨psk', psks⟩⟩
    · exact ⟨rfl, fun i hi => absurd hi (Nat.not_lt_zero i), .nil⟩
    · refine ⟨rfl, fun i hi => ?_, List.nodup_singleton _⟩
      have hi0 : i = 0 := Nat.lt_one_iff.mp hi
      subst hi0
      rfl
    · exact absurd h (by simp)

end Keys

/-- For all keys: different indices have different IDs, and where no call of the library fails
`ta_set_mam_key` returns `SC_OK`.  Each listed pre-shared key then has an entry under the ID of its
index exactly when there is at most one key.  The receiver of the same list has the same set. -/
theorem taSetMamKey_numbered_iff (psks : List (Vector Tryte 81))
    (pks sks : List (Vector Tryte 1024)) {τ : List (Event sig)} {r : Except Status MamEncryptKey}
    (hpath : Path (taSetMamKey psks pks).run τ r) (hcalls : ∀ e ∈ τ, CallFails e = false) :
    (∀ i j, pskIdOf i = pskIdOf j → i = j) ∧
    ∃ keys, r = .ok keys ∧ (Numbered psks keys.psks ↔ psks.length ≤ 1) ∧
      ∀ τ' keys', Path (taSetMamKeyForReading psks sks).run τ' (.ok keys') →
        keys'.psks = keys.psks := by
  obtain ⟨keys, rfl⟩ := failsOnlyAt_taSetMamKey psks pks τ r hpath hcalls
  refine ⟨fun i j => pskIdOf_inj, keys, rfl, ?_⟩
  rw [path_taSetMamKey hpath]
  exact ⟨numbered_pskSet_iff, fun τ' keys' h' => path_taSetMamKeyForReading h'⟩

namespace Sample

/-- A pre-shared key of one repeated tryte. -/
def psk (t : Tryte) : Vector Tryte 81 := Vector.replicate 81 t

/-- The library adds a key. -/
def added : Event sig := ⟨.mam .setAdd, true⟩

end Sample

theorem taSetMamKey_numbered_one : ∃ keys,
    Path (taSetMamKey [Sample.psk 1] []).run [Sample.added] (.ok keys) ∧
      Numbered [Sample.psk 1] keys.psks := by
  have hpath : Path (taSetMamKey [Sample.psk 1] []).run [Sample.added]
      (.ok { psks := [(zeroPskId, Sample.psk 1)] }) := ⟨true, [], rfl, rfl, rfl⟩
  have hcalls : ∀ e ∈ [Sample.added], CallFails e = false := by
    rw [List.forall_mem_singleton]
    rfl
  obtain ⟨-, keys, hr, hiff, -⟩ := taSetMamKey_numbered_iff _ _ [] hpath hcalls
  cases hr
  exact ⟨_, hpath, hiff.mpr (le_refl 1)⟩

/-- Of two keys the second one is lost: it would have the ID of the first one. -/
theorem taSetMamKey_two : ∃ keys,
    Path (taSetMamKey [Sample.psk 1, Sample.psk 2] []).run [Sample.added, Sample.added]
        (.ok keys) ∧
      keys.psks = [(zeroPskId, Sample.psk 1)] ∧
      ¬ Numbered [Sample.psk 1, Sample.psk 2] keys.psks := by
  have hset : ¬ Numbered [Sample.psk 1, Sample.psk 2] [(zeroPskId, Sample.psk 1)] := fun h =>
    absurd (congrArg List.length h.listed) (by simp)
  exact ⟨{ psks := [(zeroPskId, Sample.psk 1)] }, ⟨true, _, rfl, true, [], rfl, rfl, rfl⟩, rfl,
    hset⟩

/-! ## Receiving -/

/-- `ta_recv_mam_req_t` with the data and keys of `MAM_V1`. -/
structure RecvMamReq where
  bundleHash : Option Hash243
  chid : Option Hash243
  pskArray : List (Vector Tryte 81)
  ntruArray : List (Vector Tryte 1024)

/-- What the receiver uses of the MAM library. -/
structure MamReader extends MamLib where
  /-- `mam_api_add_trusted_channel_pk`. -/
  addTrustedChannelPk : Api → Hash243 → Api
  /-- `mam_api_add_psk`. -/
  addPsk : Api → List Tryte × Vector Tryte 81 → Api
  /-- The set `trusted_channel_pks`, in the order of insertion. -/
  trustedChannelPks : Api → List Hash243
  /-- `mam_api_bundle_read`: nothing where it fails, and otherwise the payload. -/
  bundleRead : Api → Option (List Transaction) → Option (List Tryte) × Api
  /-- `trytes_to_ascii`. -/
  trytesToAscii : List Tryte → String

section Model

variable (I : Iota) (state : Bool) (sort : List Transaction → List Transaction) (R : MamReader)

/-- `ta_mam_api_bundle_read`. -/
def taMamApiBundleRead (api : R.Api) (bundle : Option (List Transaction)) :
    Except Status String × R.Api :=
  match R.bundleRead api bundle with
  | (none, api') => (.error .mamReadMessageError, api')
  | (some [], api') => (.error .mamNoPayload, api')
  | (some (t :: trytes), api') => (.ok (R.trytesToAscii (t :: trytes)), api')

/-- The loop over the bundles: the payloads, whether it came to its end, and the library state. -/
def readBundles : List (Option (List Transaction)) → R.Api → List (Option String) →
    List (Option String) × Bool × R.Api
  | [], api, payloadArray => (payloadArray, true, api)
  | bundle :: bundleArray, api, payloadArray =>
      match taMamApiBundleRead R api bundle with
      | (.ok payload, api') => readBundles bundleArray api' (payloadArray ++ [some payload])
      | (.error .mamNoPayload, api') => readBundles bundleArray api' (payloadArray ++ [none])
      -- `goto done` with the status of the setup, which is `SC_OK`
      | (.error _, api') => (payloadArray, false, api')

/-- The loop over the channels that are trusted at the end.  The ID of one that was not trusted
before is written over `chid1`. -/
def writeChid1 (initTrustedCh : List Hash243) : List Hash243 → RecvMamRes → RecvMamRes
  | [], res => res
  | chid :: trustedCh, res =>
      writeChid1 initTrustedCh trustedCh
        (if chid ∈ initTrustedCh then res
        else ⟨res.payloadArray, tryteText chid.toList, by simp⟩)

/-- The part of `ta_recv_mam_message` after the keys are added. -/
def recvPayloads (bundleArray : List (Option (List Transaction))) (api : R.Api) :
    RecvMamRes × R.Api :=
  match readBundles R bundleArray api [] with
  | (payloadArray, true, api') =>
      (writeChid1 (R.trustedChannelPks api) (R.trustedChannelPks api')
        { recvMamResNew with payloadArray }, api')
  | (payloadArray, false, api') => ({ recvMamResNew with payloadArray }, api')

/-- The bundles a request is about. -/
def recvBundles (req : RecvMamReq) : Proc (List (Option (List Transaction))) :=
  match req.bundleHash, req.chid with
  | some bundleHash, _ => do
      let bundle ← taGetBundle sort bundleHash
      pure (bundleArrayAdd [] bundle)
  | none, some chid => taGetBundlesByAddr I state sort chid []
  | none, none => pure []

/-- Trust the channel of the request. -/
def trustChannel (api : R.Api) : Option Hash243 → MamProc R.toMamLib R.Api
  | none => pure api
  | some chid => do
      mamCall R.toMamLib api .addTrustedChannelPk .mamInvaidChidOrEpid
      pure (R.addTrustedChannelPk api chid)

/-- The loop that adds the pre-shared keys, and whether it came to its end. -/
def addPsks : List (List Tryte × Vector Tryte 81) → R.Api → MamProc R.toMamLib (Bool × R.Api)
  | [], api => pure (true, api)
  | psk :: psks, api => do
      match ← request (.mam .addPsk) with
      | false => pure (false, api)
      | true => addPsks psks (R.addPsk api psk)

/-- The part of `ta_recv_mam_message` before the keys are added: the bundles, the keys and the
library state. -/
def recvSetup (req : RecvMamReq) (api : R.Api) :
    MamProc R.toMamLib (List (Option (List Transaction)) × MamEncryptKey × R.Api) := do
  let api' ← trustChannel R api req.chid
  let bundleArray ← withApi R.toMamLib api' (recvBundles I state sort req)
  let keys ← withApi R.toMamLib api' (taSetMamKeyForReading req.pskArray req.ntruArray)
  pure (bundleArray, keys, api')

/-- The part of `ta_recv_mam_message` between the creation of the API and the label `done`. -/
def recvBody (req : RecvMamReq) (api : R.Api) : MamProc R.toMamLib (RecvMamRes × R.Api) := do
  let (bundleArray, keys, api') ← recvSetup I state sort R req api
  let (added, api'') ← addPsks R keys.psks api'
  pure (if added then recvPayloads R bundleArray api'' else (recvMamResNew, api''))

/-- The label `done` of `ta_recv_mam_message`.  That the file was not saved is only logged. -/
def recvDone (api : R.Api) (res : RecvMamRes) (ret : Except Status Unit) :
    Proc (RecvMamRes × Except Status Unit) := do
  let _ ← request (.mamApiSave (R.apiSave api))
  let destroyed ← request (.mam .destroy)
  pure (res, if destroyed then ret else .error .mamFailedDestroyed)

/-- `ta_recv_mam_message`: its result and its status. -/
def taRecvMamMessage (iconf : IotaConfig) (req : RecvMamReq) :
    Proc (RecvMamRes × Except Status Unit) := do
  match ← request (.mam .apiInit) with
  | false => pure (recvMamResNew, .error .mamFailedInit)
  | true => do
      match ← attempt (recvBody I state sort R req (R.apiInit iconf.seed)) with
      | .error (e, api) =>
          if e = .mamFailedInit then pure (recvMamResNew, .error e)
          else recvDone R api recvMamResNew (.error e)
      | .ok (res, api) => recvDone R api res (.ok ())

end Model

/-! ## The payloads -/

/-- What is read from a bundle does not depend on the bundles that were read before it. -/
def ReadsIndependently (R : MamReader) : Prop :=
  ∀ api b c, (R.bundleRead (R.bundleRead api b).2 c).1 = (R.bundleRead api c).1

/-- The bundle can be read. -/
def isReadable (R : MamReader) (api : R.Api) (bundle : Option (List Transaction)) : Bool :=
  (R.bundleRead api bundle).1.isSome

/-- The payload of a bundle, if it can be read and has one. -/
def payloadOf (R : MamReader) (api : R.Api) (bundle : Option (List Transaction)) :
    Option String :=
  (taMamApiBundleRead R api bundle).1.toOption

section Payloads

variable {R : MamReader} {api : R.Api} {bundleArray : List (Option (List Transaction))}

theorem ReadsIndependently.isReadable (h : ReadsIndependently R)
    (bundle : Option (List Transaction)) :
    isReadable R (R.bundleRead api bundle).2 = isReadable R api := by
  funext other
  exact congrArg Option.isSome (h api bundle other)

theorem taMamApiBundleRead_congr {api' : R.Api} {bundle : Option (List Transaction)}
    (h : (R.bundleRead api' bundle).1 = (R.bundleRead api bundle).1) :
    (taMamApiBundleRead R api' bundle).1 = (taMamApiBundleRead R api bundle).1 := by
  unfold taMamApiBundleRead
  generalize R.bundleRead api' bundle = x at h
  generalize R.bundleRead api bundle = y at h
  obtain ⟨x, api₁⟩ := x
  obtain ⟨y, api₂⟩ := y
  cases h
  rcases x with _ | _ | ⟨t, trytes⟩
  · rfl
  · rfl
  · rfl

theorem ReadsIndependently.payloadOf (h : ReadsIndependently R)
    (bundle : Option (List Transaction)) :
    payloadOf R (R.bundleRead api bundle).2 = payloadOf R api := by
  funext other
  exact congrArg Except.toOption (taMamApiBundleRead_congr (h api bundle other))

theorem payloadOf_of_not_readable {bundle : Option (List Transaction)}
    (h : isReadable R api bundle = false) : payloadOf R api bundle = none := by
  unfold isReadable at h
  unfold payloadOf taMamApiBundleRead
  generalize R.bundleRead api bundle = x at h
  obtain ⟨x, api'⟩ := x
  cases x with
  | none => rfl
  | some trytes => cases h

/-- One pass of the loop. -/
theorem readBundles_cons (bundle : Option (List Transaction))
    (payloadArray : List (Option String)) :
    readBundles R (bundle :: bundleArray) api payloadArray =
      if isReadable R api bundle then
        readBundles R bundleArray (R.bundleRead api bundle).2
          (payloadArray ++ [payloadOf R api bundle])
      else (payloadArray, false, (R.bundleRead api bundle).2) := by
  rw [readBundles]
  unfold isReadable payloadOf taMamApiBundleRead
  obtain ⟨read, api'⟩ := R.bundleRead api bundle
  rcases read with _ | _ | ⟨t, trytes⟩
  · rfl
  · rfl
  · rfl

/-- The loop returns an entry for each bundle before the first that cannot be read. -/
theorem readBundles_eq (h : ReadsIndependently R) (payloadArray : List (Option String)) :
    (readBundles R bundleArray api payloadArray).1 =
      payloadArray ++ (bundleArray.takeWhile (isReadable R api)).map (payloadOf R api) := by
  induction bundleArray generalizing api payloadArray with
  | nil => exact (List.append_nil _).symm
  | cons bundle bundleArray ih =>
      rw [readBundles_cons]
      cases hr : isReadable R api bundle with
      | false =>
          rw [List.takeWhile_cons_of_neg (by simp [hr])]
          exact (List.append_nil _).symm
      | true =>
          rw [if_pos rfl, ih, h.isReadable, h.payloadOf, List.takeWhile_cons_of_pos hr,
            List.map_cons, List.append_assoc, List.singleton_append]

theorem payloadArray_writeChid1 (initTrustedCh trustedCh : List Hash243) (res : RecvMamRes) :
    (writeChid1 initTrustedCh trustedCh res).payloadArray = res.payloadArray := by
  induction trustedCh generalizing res with
  | nil => rfl
  | cons chid trustedCh ih =>
      rw [writeChid1, ih]
      split
      · rfl
      · rfl

theorem payloadArray_recvPayloads (h : ReadsIndependently R) :
    (recvPayloads R bundleArray api).1.payloadArray =
      (bundleArray.takeWhile (isReadable R api)).map (payloadOf R api) := by
  have heq : (readBundles R bundleArray api []).1 =
      (bundleArray.takeWhile (isReadable R api)).map (payloadOf R api) := readBundles_eq h []
  unfold recvPayloads
  generalize readBundles R bundleArray api [] = out at heq
  obtain ⟨payloadArray, finished, api'⟩ := out
  cases finished with
  | false => exact heq
  | true => exact (payloadArray_writeChid1 ..).trans heq

/-- Every payload is among those before the first bad element exactly when no payload comes after a
bad element. -/
theorem filterMap_sublist_takeWhile_iff {α β : Type} {good : α → Bool} {payload : α → Option β}
    (hbad : ∀ a, good a = false → payload a = none) (l : List α) :
    (l.filterMap payload).Sublist ((l.takeWhile good).filterMap payload) ↔
      l.Pairwise fun a b => good a = false → payload b = none := by
  induction l with
  | nil => simp
  | cons a l ih =>
      rw [List.pairwise_cons]
      cases ha : good a with
      | true =>
          rw [List.takeWhile_cons_of_pos ha]
          simp only [Bool.true_eq_false, false_imp_iff, implies_true, true_and]
          rw [← ih]
          cases hp : payload a with
          | none => rw [List.filterMap_cons_none hp, List.filterMap_cons_none hp]
          | some b =>
              rw [List.filterMap_cons_some hp, List.filterMap_cons_some hp,
                List.cons_sublist_cons]
      | false =>
          rw [List.takeWhile_cons_of_neg (by simp [ha]), List.filterMap_nil,
            List.filterMap_cons_none (hbad a ha), List.sublist_nil, List.filterMap_eq_nil_iff]
          simp only [forall_const]
          refine ⟨fun hnone => ⟨hnone, ?_⟩, fun h => h.1⟩
          exact List.pairwise_of_forall_mem_list fun b _ c hc _ => hnone c hc

/-- The loop over the keys is left early where the library refuses one. -/
theorem path_addPsks {psks : List (List Tryte × Vector Tryte 81)} {τ : List (Event sig)}
    {out : Bool × R.Api} (h : Path (addPsks R psks api).run τ (.ok out)) :
    out.1 = false ↔ (⟨.mam .addPsk, false⟩ : Event sig) ∈ τ := by
  induction psks generalizing api τ with
  | nil =>
      obtain ⟨rfl, he⟩ := (path_run_pure ..).mp h
      cases he
      simp
  | cons psk psks ih =>
      rw [addPsks, path_run_request_bind] at h
      obtain ⟨ok, τ', rfl, h⟩ := h
      cases ok with
      | false =>
          obtain ⟨rfl, he⟩ := (path_run_pure ..).mp h
          cases he
          simp
      | true =>
          rw [ih h, List.mem_cons]
          refine ⟨Or.inr, fun hmem => hmem.resolve_left ?_⟩
          intro he
          cases he

/-- The end of a call that returns `SC_OK`. -/
theorem path_recvDone {τ : List (Event sig)} {res res' : RecvMamRes} {ret : Except Status Unit}
    (h : Path (recvDone R api res ret).run τ (.ok (res', .ok ()))) : res' = res ∧ ret = .ok () := by
  rw [recvDone, path_run_request_bind] at h
  obtain ⟨saved, τ₁, rfl, h⟩ := h
  rw [path_run_request_bind] at h
  obtain ⟨destroyed, τ₂, rfl, h⟩ := h
  obtain ⟨-, he⟩ := (path_run_pure ..).mp h
  rw [Except.ok.injEq, Prod.mk.injEq] at he
  cases destroyed with
  | false => cases he.2
  | true => exact ⟨he.1, he.2.symm⟩

end Payloads

/-- In the call `bundleArray` was fetched, and `api` is the library state with the keys, which were
added with the given answers. -/
def Fetched (I : Iota) (state : Bool) (sort : List Transaction → List Transaction) (R : MamReader)
    (iconf : IotaConfig) (req : RecvMamReq) (τ : List (Event sig))
    (bundleArray : List (Option (List Transaction))) (answers : List (Event sig)) (api : R.Api) :
    Prop :=
  ∃ τ₁ τ₂ keys api₁ added, τ = ⟨.mam .apiInit, true⟩ :: (τ₁ ++ (answers ++ τ₂)) ∧
    Path (recvSetup I state sort R req (R.apiInit iconf.seed)).run τ₁
      (.ok (bundleArray, keys, api₁)) ∧
    Path (addPsks R keys.psks api₁).run answers (.ok (added, api))

section Message

variable {I : Iota} {state : Bool} {sort : List Transaction → List Transaction} {R : MamReader}
  {iconf : IotaConfig} {req : RecvMamReq} {τ answers : List (Event sig)} {res : RecvMamRes}
  {bundleArray : List (Option (List Transaction))} {api : R.Api}

/-- The result of a call that returns `SC_OK`. -/
theorem path_taRecvMamMessage
    (h : Path (taRecvMamMessage I state sort R iconf req).run τ (.ok (res, .ok ()))) :
    ∃ bundleArray answers api, Fetched I state sort R iconf req τ bundleArray answers api ∧
      ((⟨.mam .addPsk, false⟩ : Event sig) ∈ answers → res = recvMamResNew) ∧
      ((⟨.mam .addPsk, false⟩ : Event sig) ∉ answers →
        res = (recvPayloads R bundleArray api).1) := by
  rw [taRecvMamMessage, path_run_request_bind] at h
  obtain ⟨ok, τ₀, rfl, h⟩ := h
  cases ok with
  | false => cases ((path_run_pure ..).mp h).2
  | true =>
      rw [path_run_attempt_bind] at h
      obtain ⟨body, τ₁, τ₂, rfl, hbody, h⟩ := h
      cases body with
      | error err =>
          dsimp only at h
          split at h
          · cases ((path_run_pure ..).mp h).2
          · cases (path_recvDone h).2
      | ok out =>
          obtain ⟨out, api₁⟩ := out
          obtain ⟨rfl, -⟩ := path_recvDone h
          rw [recvBody, path_run_bind_ok] at hbody
          obtain ⟨⟨bundleArray, keys, api⟩, τ₃, τ₄, rfl, hsetup, hbody⟩ := hbody
          rw [path_run_bind_ok] at hbody
          obtain ⟨⟨added, api'⟩, τ₅, τ₆, rfl, hadd, hbody⟩ := hbody
          obtain ⟨rfl, he⟩ := (path_run_pure ..).mp hbody
          refine ⟨bundleArray, τ₅, api', ⟨τ₃, τ₂, keys, api, added, by simp, hsetup, hadd⟩, ?_⟩
          have hrefused := path_addPsks hadd
          have hres := congrArg Prod.fst (Except.ok.inj he)
          cases added with
          | false => exact ⟨fun _ => hres, fun hmem => absurd (hrefused.mp rfl) hmem⟩
          | true => exact ⟨fun hmem => Bool.noConfusion (hrefused.mpr hmem), fun _ => hres⟩

/-- The trace of a call says what was fetched. -/
theorem Fetched.unique {answers' : List (Event sig)} {api' : R.Api}
    {bundleArray' : List (Option (List Transaction))}
    (h : Fetched I state sort R iconf req τ bundleArray answers api)
    (h' : Fetched I state sort R iconf req τ bundleArray' answers' api') :
    bundleArray = bundleArray' ∧ answers = answers' ∧ api = api' := by
  obtain ⟨τ₁, τ₂, keys, api₁, added, rfl, hsetup, hadd⟩ := h
  obtain ⟨τ₁', τ₂', keys', api₁', added', hτ, hsetup', hadd'⟩ := h'
  obtain ⟨-, hrest, hout⟩ := path_unique hsetup hsetup' (List.cons.inj hτ).2
  cases hout
  obtain ⟨rfl, -, hout⟩ := path_unique hadd hadd' hrest
  cases hout
  exact ⟨rfl, rfl, rfl⟩

/-- For every library that reads each bundle independently of the others, every request and every
call that returns `SC_OK`: the payloads of all bundles that were fetched are in the result, in the
order of the bundles, exactly when none of them has a payload where the library refused a key, and
no bundle that has a payload comes after one that cannot be read. -/
theorem taRecvMamMessage_payloads_iff (hread : ReadsIndependently R)
    (hpath : Path (taRecvMamMessage I state sort R iconf req).run τ (.ok (res, .ok ()))) :
    (∃ bundleArray answers api, Fetched I state sort R iconf req τ bundleArray answers api) ∧
    ∀ bundleArray answers api, Fetched I state sort R iconf req τ bundleArray answers api →
      ((bundleArray.filterMap (payloadOf R api)).Sublist (payloads res) ↔
        ((⟨.mam .addPsk, false⟩ : Event sig) ∈ answers →
          ∀ bundle ∈ bundleArray, payloadOf R api bundle = none) ∧
        bundleArray.Pairwise fun b c =>
          isReadable R api b = false → payloadOf R api c = none) := by
  obtain ⟨bundleArray, answers, api, hfetched, hempty, hread'⟩ := path_taRecvMamMessage hpath
  refine ⟨⟨bundleArray, answers, api, hfetched⟩, ?_⟩
  intro bundleArray' answers' api' hfetched'
  obtain ⟨rfl, rfl, rfl⟩ := hfetched.unique hfetched'
  by_cases hrefused : (⟨.mam .addPsk, false⟩ : Event sig) ∈ answers
  · have hnone : (bundleArray.filterMap (payloadOf R api)).Sublist [] ↔
        ∀ bundle ∈ bundleArray, payloadOf R api bundle = none := by
      rw [List.sublist_nil, List.filterMap_eq_nil_iff]
    rw [hempty hrefused]
    refine hnone.trans ⟨fun h => ⟨fun _ => h, ?_⟩, fun h => h.1 hrefused⟩
    exact List.pairwise_of_forall_mem_list fun b _ c hc _ => h c hc
  · have hmap : ((bundleArray.takeWhile (isReadable R api)).map (payloadOf R api)).reduceOption =
        (bundleArray.takeWhile (isReadable R api)).filterMap (payloadOf R api) := by
      rw [List.reduceOption, List.filterMap_map]
      rfl
    rw [hread' hrefused, payloads, payloadArray_recvPayloads hread, hmap,
      filterMap_sublist_takeWhile_iff fun _ => payloadOf_of_not_readable]
    exact ⟨fun h => ⟨fun hmem => absurd hmem hrefused, h⟩, fun h => h.2⟩

end Message

namespace Sample

/-- A second transaction, in a bundle of its own. -/
def otherTxn : Transaction :=
  { txn with value := 1, bundle := Vector.replicate 81 1, hash := Vector.replicate 81 1 }

/-- The two transactions. -/
def channelTxn : Bool → Transaction
  | false => txn
  | true => otherTxn

/-- The texts under which the cache has them. -/
def channelText : Bool → String
  | false => ""
  | true => "A"

/-- A library that knows the two transactions. -/
def channelIota : Iota :=
  { iota with
    fromTrytes := fun text => if text = "" then trytes else Vector.replicate 2673 1
    deserialize := fun t _ => if t[0] = 0 then txn else otherTxn }

/-- A reader that can read a bundle of one transaction of value `1`, such as `otherTxn`. -/
def reader : MamReader :=
  { mam with
    addTrustedChannelPk := fun _ _ => ()
    addPsk := fun _ _ => ()
    trustedChannelPks := fun _ => []
    bundleRead := fun _ bundle =>
      (if bundle.map (List.map (·.value)) = some [1] then some [1] else none, ())
    trytesToAscii := fun _ => "a" }

/-- The request for a channel. -/
def recvReq : RecvMamReq := ⟨none, some txnHash, [], []⟩

/-- The channel has the two bundles in the order given by `first`. -/
def recvTrace (first : Bool) : List (Event sig) :=
  ⟨.mam .addTrustedChannelPk, true⟩ ::
    (⟨.findTransactions { addresses := [txnHash] }, some [txnHash, txnHash]⟩ ::
      ⟨.redis (.get (.txn txnHash)), .bulk (channelText first)⟩ ::
      ⟨.redis (.get (.txn txnHash)), .bulk (channelText !first)⟩ ::
      (nodeAnswers (channelTxn first).bundle [objectOf (channelTxn first)] ++
        nodeAnswers (channelTxn !first).bundle [objectOf (channelTxn !first)]))

theorem path_taGetBundle_channel (first : Bool) :
    Path (taGetBundle sortByIndex (channelTxn first).bundle).run
      (nodeAnswers (channelTxn first).bundle [objectOf (channelTxn first)])
      (.ok (some [channelTxn first])) := by
  have hpath := path_taGetBundle_found sortByIndex (channelTxn first).bundle
    [objectOf (channelTxn first)]
  have hbundle : getFirstBundleFromTransactions sortByIndex [channelTxn first] =
      some [channelTxn first] := by
    rw [getFirstBundleFromTransactions, sortByIndex_of_sorted (List.pairwise_singleton ..)]
    cases first with
    | false => rfl
    | true => rfl
  exact hbundle ▸ hpath

theorem bundle_channel_ne (first : Bool) :
    (channelTxn !first).bundle ≠ (channelTxn first).bundle := by
  intro he
  have hzero := congrArg (fun v : Hash243 => v[0]) he
  cases first with
  | false => exact absurd hzero (by decide)
  | true => exact absurd hzero (by decide)

theorem path_objectsByAddr_channel (first : Bool) :
    Path (objectsByAddr channelIota true txnHash).run
      [⟨.findTransactions { addresses := [txnHash] }, some [txnHash, txnHash]⟩,
        ⟨.redis (.get (.txn txnHash)), .bulk (channelText first)⟩,
        ⟨.redis (.get (.txn txnHash)), .bulk (channelText !first)⟩]
      (.ok [channelTxn first, channelTxn !first]) := by
  cases first with
  | false => exact ⟨_, _, rfl, _, _, rfl, _, _, rfl, rfl, rfl⟩
  | true => exact ⟨_, _, rfl, _, _, rfl, _, _, rfl, rfl, rfl⟩

theorem path_recvSetup (first : Bool) :
    Path (recvSetup channelIota true sortByIndex reader recvReq ()).run (recvTrace first)
      (.ok ([some [channelTxn first], some [channelTxn !first]], {}, ())) := by
  have hbundles : Path (taGetBundlesByAddr channelIota true sortByIndex txnHash []).run
      (recvTrace first).tail (.ok [some [channelTxn first], some [channelTxn !first]]) := by
    rw [taGetBundlesByAddr, path_run_bind_ok]
    refine ⟨_, [_, _, _], _, rfl, path_objectsByAddr_channel first, ?_⟩
    rw [getBundles, if_neg List.not_mem_nil, path_run_bind_ok]
    refine ⟨_, _, _, rfl, path_taGetBundle_channel first, ?_⟩
    rw [getBundles, if_neg (by simpa [setAdd] using bundle_channel_ne first), path_run_bind_ok]
    refine ⟨_, _, [], (List.append_nil _).symm, path_taGetBundle_channel !first, ?_⟩
    exact (path_run_pure ..).mpr ⟨rfl, rfl⟩
  unfold recvSetup
  rw [path_run_bind_ok]
  refine ⟨(), [_], _, rfl, ⟨true, [], rfl, rfl, rfl⟩, ?_⟩
  rw [path_run_bind_ok]
  refine ⟨_, _, [], (List.append_nil _).symm, ?_, rfl, rfl⟩
  unfold withApi
  rw [path_run_attempt_bind]
  exact ⟨_, _, [], (List.append_nil _).symm, hbundles, rfl, rfl⟩

/-- The trace of a call in which nothing fails. -/
def recvCall (first : Bool) : List (Event sig) :=
  ⟨.mam .apiInit, true⟩ :: (recvTrace first ++ [⟨.mamApiSave [], true⟩, ⟨.mam .destroy, true⟩])

theorem path_taRecvMamMessage (first : Bool) :
    Path (taRecvMamMessage channelIota true sortByIndex reader core.iotaConf recvReq).run
      (recvCall first)
      (.ok ((recvPayloads reader [some [channelTxn first], some [channelTxn !first]] ()).1,
        .ok ())) := by
  unfold taRecvMamMessage
  rw [path_run_request_bind]
  refine ⟨true, _, rfl, ?_⟩
  rw [path_run_attempt_bind]
  refine ⟨.ok (recvPayloads reader [some [channelTxn first], some [channelTxn !first]] ()), _, _,
    rfl, ?_, ⟨true, _, rfl, true, [], rfl, rfl, rfl⟩⟩
  unfold recvBody
  rw [path_run_bind_ok]
  exact ⟨_, _, [], (List.append_nil _).symm, path_recvSetup first, rfl, rfl⟩

theorem readsIndependently_reader : ReadsIndependently reader := fun _ _ _ => rfl

theorem fetched_recvCall (first : Bool) :
    Fetched channelIota true sortByIndex reader core.iotaConf recvReq (recvCall first)
      [some [channelTxn first], some [channelTxn !first]] [] () :=
  ⟨recvTrace first, _, {}, (), true, rfl, path_recvSetup first, rfl, rfl⟩

theorem not_readable_txn : isReadable reader () (some [txn]) = false := rfl

theorem payloadOf_otherTxn : payloadOf reader () (some [otherTxn]) = some "a" := rfl

end Sample

/-- The bundle that can be read comes first. -/
theorem taRecvMamMessage_payloads_first :
    ["a"].Sublist (payloads (recvPayloads Sample.reader
      [some [Sample.otherTxn], some [Sample.txn]] ()).1) := by
  obtain ⟨-, hiff⟩ := taRecvMamMessage_payloads_iff Sample.readsIndependently_reader
    (Sample.path_taRecvMamMessage true)
  have hordered : [some [Sample.otherTxn], some [Sample.txn]].Pairwise fun b c =>
      isReadable Sample.reader () b = false → payloadOf Sample.reader () c = none :=
    List.pairwise_pair.mpr fun _ => payloadOf_of_not_readable Sample.not_readable_txn
  exact (hiff _ _ _ (Sample.fetched_recvCall true)).mpr
    ⟨fun hmem => absurd hmem List.not_mem_nil, hordered⟩

/-- The bundle that cannot be read comes first.  The call returns `SC_OK` without any payload. -/
theorem taRecvMamMessage_hidden :
    Path (taRecvMamMessage Sample.channelIota true Sample.sortByIndex Sample.reader
        Sample.core.iotaConf Sample.recvReq).run (Sample.recvCall false)
        (.ok (recvMamResNew, .ok ())) ∧
      Fetched Sample.channelIota true Sample.sortByIndex Sample.reader Sample.core.iotaConf
        Sample.recvReq (Sample.recvCall false)
        [some [Sample.txn], some [Sample.otherTxn]] [] () ∧
      payloadOf Sample.reader () (some [Sample.otherTxn]) = some "a" := by
  have hpath := Sample.path_taRecvMamMessage false
  have hres : (recvPayloads Sample.reader
      [some [Sample.txn], some [Sample.otherTxn]] ()).1 = recvMamResNew := rfl
  exact ⟨hres ▸ hpath, Sample.fetched_recvCall false, Sample.payloadOf_otherTxn⟩

end TangleAccelerator
