import Mathlib
import TangleAccelerator.Buffer.Handover

/-!
# One-time keys

A channel of depth `d` has `2 ^ d` keys, and a key must sign once.  The `j`-th header written
on a channel is made with its `j`-th key, and the message ID in the header tells which.  Before
a message is written, the transactions on the channel are fetched, and headers are written
until the ID of one is not among the IDs that were found.

The search also stops at the last key.  Whether that key is used already is then read off two
counters: the channel is taken to be used up if the number of IDs that were found is the number
of keys.  Anybody can put transactions with other tags on the address of a channel, and then
the numbers differ.

`MamIds` is what is assumed of the MAM library.  `fetched` are the channels of a run, with the
transactions the node returned for each.  The main result says, for every answers of the node,
that the key of the message is unused exactly when none of these channels is `Overfull`: used
up and with an ID on it that none of its keys has.
-/

namespace TangleAccelerator

open Effect

/-! ## The library -/

/-- The IDs of the headers on a channel. -/
structure MamIds (M : MamLib) where
  /-- How many headers were written on a channel since it was created. -/
  headers : M.Api → Hash243 → Nat
  /-- The ID of a header: a function of the channel and the ordinal. -/
  msgId : Hash243 → Nat → MsgId
  headers_create : ∀ api d, headers (M.channelCreate api d).2 (M.channelCreate api d).1 = 0
  header_id : ∀ api chid keys,
    (M.writeHeaderOnChannel api chid keys).2.2.1 = msgId chid (headers api chid)
  /-- The tag of the first transaction carries the ID. -/
  header_tag : ∀ api chid keys,
    msgIdOf (M.writeHeaderOnChannel api chid keys).1.tag = msgId chid (headers api chid)
  headers_write : ∀ api chid keys,
    headers (M.writeHeaderOnChannel api chid keys).2.2.2 chid = headers api chid + 1
  headers_next : ∀ api chid, headers (M.mssNext api chid) chid = headers api chid
  /-- The keys of the largest channel have different IDs. -/
  msgId_inj : ∀ chid i j, i < 2 ^ 20 → j < 2 ^ 20 → msgId chid i = msgId chid j → i = j

variable {M : MamLib} {τ : List (Event sig)}

/-! ## What the node returned -/

/-- The IDs of the transactions. -/
def idsOf (txs : List Transaction) : Finset MsgId := (txs.map fun tx => msgIdOf tx.tag).toFinset

theorem mem_idsOf {txs : List Transaction} {i : MsgId} :
    i ∈ idsOf txs ↔ ∃ tx ∈ txs, msgIdOf tx.tag = i := by
  simp [idsOf]

/-- The channels that were asked for, the last one first, with the transactions the node
returned. -/
def fetchStep (acc : List (Hash243 × List Transaction)) :
    Event sig → List (Hash243 × List Transaction)
  | ⟨.findTransactions req, some _⟩ =>
      match req.addresses with
      | [chid] => (chid, []) :: acc
      | _ => acc
  | ⟨.getTransactionObjects _, some txs⟩ =>
      match acc with
      | (chid, found) :: rest => (chid, found ++ txs) :: rest
      | [] => []
  | _ => acc

/-- The channels of a trace. -/
def fetched (τ : List (Event sig)) : List (Hash243 × List Transaction) := τ.foldl fetchStep []

/-- Commands that ask for no transactions. -/
def Cmd.FetchesNothing : Cmd → Prop
  | .findTransactions _ => False
  | .getTransactionObjects _ => False
  | _ => True

theorem foldl_fetchStep_of_nothing {acc : List (Hash243 × List Transaction)}
    (h : ∀ e ∈ τ, e.cmd.FetchesNothing) : τ.foldl fetchStep acc = acc := by
  induction τ with
  | nil => rfl
  | cons e τ ih =>
      rw [List.forall_mem_cons] at h
      have hstep : fetchStep acc e = acc := by
        obtain ⟨c, r⟩ := e
        cases c with
        | findTransactions req => exact h.1.elim
        | getTransactionObjects hs => exact h.1.elim
        | _ => rfl
      rw [List.foldl_cons, hstep, ih h.2]

theorem foldl_fetchStep_getTxnObjects {hashes : List Hash243} {txs found : List Transaction}
    {chid : Hash243} {acc : List (Hash243 × List Transaction)}
    (h : Path (getTxnObjects hashes).run τ (.ok txs)) :
    τ.foldl fetchStep ((chid, found) :: acc) = (chid, found ++ txs) :: acc := by
  induction hashes generalizing τ txs found with
  | nil =>
      obtain ⟨rfl, htxs⟩ := (path_run_pure ..).mp h
      cases htxs
      simp
  | cons hash hashes ih =>
      rw [getTxnObjects, path_run_request_bind] at h
      obtain ⟨answer, τ₁, rfl, h⟩ := h
      rw [path_run_bind_ok] at h
      obtain ⟨first, τ₂, τ₃, rfl, hfirst, h⟩ := h
      obtain ⟨rfl, hsome⟩ := (path_run_settle ..).mp hfirst
      rw [path_run_bind_ok] at h
      obtain ⟨rest, τ₄, τ₅, rfl, hrest, h⟩ := h
      obtain ⟨rfl, htxs⟩ := (path_run_pure ..).mp h
      cases htxs
      cases answer with
      | none => cases hsome
      | some txs =>
          cases hsome
          simp only [List.nil_append, List.append_nil, List.foldl_cons, fetchStep]
          rw [ih hrest, List.append_assoc]

/-- A query of a channel is recorded with what it returned. -/
theorem foldl_fetchStep_query {chid : Hash243} {txs : List Transaction}
    {acc : List (Hash243 × List Transaction)}
    (h : Path (taGetTxnObjectsWithTxnHash { addresses := [chid] }).run τ (.ok txs)) :
    τ.foldl fetchStep acc = (chid, txs) :: acc := by
  rw [taGetTxnObjectsWithTxnHash, path_run_request_bind] at h
  obtain ⟨answer, τ₁, rfl, h⟩ := h
  rw [path_run_bind_ok] at h
  obtain ⟨hashes, τ₂, τ₃, rfl, hhashes, h⟩ := h
  obtain ⟨rfl, hsome⟩ := (path_run_settle ..).mp hhashes
  cases answer with
  | none => cases hsome
  | some hs =>
      cases hsome
      simp only [List.nil_append, List.foldl_cons, fetchStep]
      rw [foldl_fetchStep_getTxnObjects h, List.nil_append]

/-! ## The tags of a channel -/

theorem msgIdExist_iff {tags : List Hash81} {tag : Hash81} :
    msgIdExist tags tag = true ↔ msgIdOf tag ∈ (tags.map msgIdOf).toFinset := by
  simp [msgIdExist]

theorem collectTags_ids (txs : List Transaction) (tags : List Hash81) :
    ((collectTags txs tags).map msgIdOf).toFinset = (tags.map msgIdOf).toFinset ∪ idsOf txs := by
  induction txs generalizing tags with
  | nil => simp [collectTags, idsOf]
  | cons tx txs ih =>
      rw [collectTags, ih]
      by_cases h : msgIdExist tags tx.tag = true
      · rw [if_pos h]
        rw [msgIdExist_iff] at h
        simp only [idsOf, List.map_cons, List.toFinset_cons, Finset.union_insert]
        exact (Finset.insert_eq_of_mem (Finset.mem_union_left _ h)).symm
      · rw [if_neg h]
        simp [idsOf, Finset.insert_union]

theorem collectTags_nodup (txs : List Transaction) (tags : List Hash81)
    (h : (tags.map msgIdOf).Nodup) : ((collectTags txs tags).map msgIdOf).Nodup := by
  induction txs generalizing tags with
  | nil => exact h
  | cons tx txs ih =>
      rw [collectTags]
      apply ih
      by_cases hexist : msgIdExist tags tx.tag = true
      · rw [if_pos hexist]
        exact h
      · rw [if_neg hexist, List.map_append, List.map_singleton, ← List.concat_eq_append]
        rw [msgIdExist_iff, List.mem_toFinset] at hexist
        exact h.concat hexist

/-- One tag is kept for each ID. -/
theorem length_collectTags (txs : List Transaction) :
    (collectTags txs []).length = (idsOf txs).card := by
  have hids := collectTags_ids txs []
  rw [List.map_nil, List.toFinset_nil, Finset.empty_union] at hids
  have hnodup := collectTags_nodup txs [] List.nodup_nil
  rw [← hids, List.toFinset_card_of_nodup hnodup, List.length_map]

theorem msgIdExist_collectTags {txs : List Transaction} {tag : Hash81} :
    msgIdExist (collectTags txs []) tag = true ↔ msgIdOf tag ∈ idsOf txs := by
  rw [msgIdExist_iff, collectTags_ids, List.map_nil, List.toFinset_nil, Finset.empty_union]

/-! ## The search on a channel -/

variable {keys : MamEncryptKey} {chid : Hash243} {txs : List Transaction} {J : M.Api → Prop}

/-- The search on a channel ends at its `j`-th header, counted from where it starts. -/
structure Stops (D : MamIds M) (keys : MamEncryptKey) (chid : Hash243) (ids : Finset MsgId)
    (J : M.Api → Prop) (remain : Nat) (used : Int) (api : M.Api) (k : KeySearch M) (j : Nat) :
    Prop where
  lt : j < remain
  remain_eq : k.remain = remain - 1 - j
  used_eq : k.used = used - (j + 1)
  earlier : ∀ i < j, D.msgId chid (D.headers api chid + i) ∈ ids
  last : D.msgId chid (D.headers api chid + j) ∈ ids → k.remain = 0
  written : ∃ api₁, J api₁ ∧ D.headers api₁ chid = D.headers api chid + j ∧
    k.bundle = (M.writeHeaderOnChannel api₁ chid keys).1 ::
      (M.writeHeaderOnChannel api₁ chid keys).2.1 ∧
    k.msgId = (M.writeHeaderOnChannel api₁ chid keys).2.2.1 ∧
    (k.api = (M.writeHeaderOnChannel api₁ chid keys).2.2.2 ∨
      k.api = M.mssNext (M.writeHeaderOnChannel api₁ chid keys).2.2.2 chid)

theorem Stops.msgId_eq {D : MamIds M} {ids : Finset MsgId} {remain : Nat} {used : Int}
    {api : M.Api} {k : KeySearch M} {j : Nat} (h : Stops D keys chid ids J remain used api k j) :
    k.msgId = D.msgId chid (D.headers api chid + j) := by
  obtain ⟨api₁, -, hheaders, -, hid, -⟩ := h.written
  rw [hid, D.header_id, hheaders]

/-- A library call in a run that goes on has succeeded. -/
theorem path_mamCall {api : M.Api} {f : MamCall} {e : Status} :
    Path (mamCall M api f e).run τ (.ok ()) ↔ τ = [⟨.mam f, true⟩] := by
  rw [mamCall, path_run_request_bind]
  constructor
  · intro h
    obtain ⟨ok, τ', rfl, h⟩ := h
    obtain ⟨rfl, hok⟩ := (path_run_ensure ..).mp h
    cases ok with
    | true => rfl
    | false => cases hok
  · intro h
    exact ⟨true, [], h, (path_run_pure ..).mpr ⟨rfl, rfl⟩⟩

/-- A call of the library that fails is in the trace. -/
theorem path_mamCall_error {api : M.Api} {f : MamCall} {e : Status} {err : Status × M.Api}
    (h : Path (mamCall M api f e).run τ (.error err)) : τ = [⟨.mam f, false⟩] := by
  rw [mamCall, path_run_request_bind] at h
  obtain ⟨ok, τ', rfl, h⟩ := h
  obtain ⟨rfl, hok⟩ := (path_run_ensure ..).mp h
  cases ok with
  | true => cases hok
  | false => rfl

/-- The search stops at the first header whose ID is not on the channel, or at the last one. -/
theorem path_searchKey (D : MamIds M)
    (hJ : ∀ api, J api → J (M.mssNext (M.writeHeaderOnChannel api chid keys).2.2.2 chid))
    {remain : Nat} {used : Int} {api : M.Api} {found : Option (KeySearch M)}
    (hremain : remain ≠ 0) (hapi : J api)
    (h : Path (searchKey M keys chid (collectTags txs []) remain used api).run τ (.ok found)) :
    ∃ k j, found = some k ∧ Stops D keys chid (idsOf txs) J remain used api k j := by
  induction remain generalizing used api τ with
  | zero => exact absurd rfl hremain
  | succ remain ih =>
      rw [searchKey, path_run_bind_ok] at h
      obtain ⟨_, τ₁, τ₂, -, -, h⟩ := h
      dsimp only at h
      have hexist : msgIdExist (collectTags txs [])
          (M.writeHeaderOnChannel api chid keys).1.tag = true ↔
          D.msgId chid (D.headers api chid) ∈ idsOf txs := by
        rw [msgIdExist_collectTags, D.header_tag]
      split at h
      · rename_i hused
        rw [hexist] at hused
        split at h
        · -- the last key, and its ID is on the channel
          rename_i hlast
          obtain ⟨-, hk⟩ := (path_run_pure ..).mp h
          cases hk
          refine ⟨_, 0, rfl, Nat.succ_pos _, by simp [hlast], by simp, by simp, fun _ => rfl, ?_⟩
          exact ⟨api, hapi, rfl, rfl, rfl, Or.inr rfl⟩
        · rename_i hmore
          obtain ⟨k, j, hfound, hj⟩ := ih hmore (hJ api hapi) h
          have hheaders : D.headers (M.mssNext (M.writeHeaderOnChannel api chid keys).2.2.2 chid)
              chid = D.headers api chid + 1 := by
            rw [D.headers_next, D.headers_write]
          refine ⟨k, j + 1, hfound, Nat.succ_lt_succ hj.lt, ?_, ?_, ?_, ?_, ?_⟩
          · rw [hj.remain_eq]
            omega
          · rw [hj.used_eq]
            omega
          · intro i hi
            cases i with
            | zero => exact hused
            | succ i =>
                have := hj.earlier i (Nat.lt_of_succ_lt_succ hi)
                rwa [hheaders, Nat.add_assoc, Nat.add_comm 1] at this
          · intro hmem
            apply hj.last
            rwa [hheaders, Nat.add_assoc, Nat.add_comm 1]
          · obtain ⟨api₁, hJ₁, hheaders₁, hrest⟩ := hj.written
            refine ⟨api₁, hJ₁, ?_, hrest⟩
            rw [hheaders₁, hheaders]
            omega
      · rename_i hunused
        rw [hexist] at hunused
        obtain ⟨-, hk⟩ := (path_run_pure ..).mp h
        cases hk
        refine ⟨_, 0, rfl, Nat.succ_pos _, by simp, by simp, by simp, fun hmem => ?_, ?_⟩
        · exact absurd hmem hunused
        · exact ⟨api, hapi, rfl, rfl, rfl, Or.inl rfl⟩

/-! ## Channels that are used up -/

/-- Every key of the channel is used, and there is an ID on it that none of its keys has. -/
def Overfull (D : MamIds M) (d : Nat) (x : Hash243 × List Transaction) : Prop :=
  (∀ j < 2 ^ d, D.msgId x.1 j ∈ idsOf x.2) ∧ ∃ i ∈ idsOf x.2, ∀ j < 2 ^ d, D.msgId x.1 j ≠ i

instance (D : MamIds M) (d : Nat) (x : Hash243 × List Transaction) :
    Decidable (Overfull D d x) := by
  unfold Overfull
  infer_instance

/-- The IDs of the keys of a channel. -/
def keyIds (D : MamIds M) (d : Nat) (chid : Hash243) : Finset MsgId :=
  (Finset.range (2 ^ d)).image (D.msgId chid)

theorem card_keyIds (D : MamIds M) {d : Nat} (hd : d ≤ 20) : (keyIds D d chid).card = 2 ^ d := by
  have hpow : 2 ^ d ≤ 2 ^ 20 := Nat.pow_le_pow_right (by decide) hd
  rw [keyIds, Finset.card_image_of_injOn, Finset.card_range]
  intro i hi j hj hij
  simp only [Finset.coe_range, Set.mem_Iio] at hi hj
  exact D.msgId_inj chid i j (by omega) (by omega) hij

/-- Where all keys are used, counting the IDs tells whether there is a foreign one. -/
theorem overfull_iff (D : MamIds M) {d : Nat} (hd : d ≤ 20)
    (hall : ∀ j < 2 ^ d, D.msgId chid j ∈ idsOf txs) :
    Overfull D d (chid, txs) ↔ (idsOf txs).card ≠ 2 ^ d := by
  have hsub : keyIds D d chid ⊆ idsOf txs := by
    intro i hi
    obtain ⟨j, hj, rfl⟩ := Finset.mem_image.mp hi
    exact hall j (Finset.mem_range.mp hj)
  constructor
  · intro h hcard
    obtain ⟨-, i, hi, hne⟩ := h
    have heq : keyIds D d chid = idsOf txs :=
      Finset.eq_of_subset_of_card_le hsub (by rw [hcard, card_keyIds D hd])
    rw [← heq] at hi
    obtain ⟨j, hj, hij⟩ := Finset.mem_image.mp hi
    exact hne j (Finset.mem_range.mp hj) hij
  · intro hcard
    refine ⟨hall, ?_⟩
    by_contra hforeign
    push Not at hforeign
    apply hcard
    have hkeys : (keyIds D d chid).card = 2 ^ d := card_keyIds D hd
    rw [← hkeys]
    congr 1
    apply Finset.Subset.antisymm _ hsub
    intro i hi
    obtain ⟨j, hj, hij⟩ := hforeign i hi
    exact Finset.mem_image.mpr ⟨j, Finset.mem_range.mpr hj, hij⟩

section Channel

variable {D : MamIds M} {d : Nat} {api : M.Api} {k : KeySearch M} {j : Nat} (hd : d ≤ 20)
  (h : Stops D keys chid (idsOf txs) J (2 ^ d) (idsOf txs).card api k j)
include hd h

/-- A channel that is passed over has as many IDs as keys. -/
theorem Stops.not_overfull (hremain : k.remain = 0) (hused : k.used = 0) :
    ¬ Overfull D d (chid, txs) := by
  intro hover
  have hall : ∀ j < 2 ^ d, D.msgId chid j ∈ idsOf txs := hover.1
  have hcard := (overfull_iff D hd hall).mp hover
  have hr := h.remain_eq
  have hu := h.used_eq
  have hlt := h.lt
  omega

/-- On a channel that is chosen, the key is unused exactly when the channel is not overfull. -/
theorem Stops.unused_iff (hfresh : D.headers api chid = 0)
    (hchosen : ¬ (k.remain = 0 ∧ k.used = 0)) :
    k.msgId ∉ idsOf txs ↔ ¬ Overfull D d (chid, txs) := by
  have hid : k.msgId = D.msgId chid j := by
    rw [h.msgId_eq, hfresh, Nat.zero_add]
  rw [hid, not_iff_not]
  constructor
  · intro hmem
    have hremain : k.remain = 0 := by
      apply h.last
      rwa [hfresh, Nat.zero_add]
    have hr := h.remain_eq
    have hlt := h.lt
    have hall : ∀ i < 2 ^ d, D.msgId chid i ∈ idsOf txs := by
      intro i hi
      by_cases hij : i < j
      · have := h.earlier i hij
        rwa [hfresh, Nat.zero_add] at this
      · have hij' : i = j := by omega
        rwa [hij']
    rw [overfull_iff D hd hall]
    intro hcard
    apply hchosen
    have hu := h.used_eq
    exact ⟨hremain, by omega⟩
  · intro hover
    exact hover.1 j h.lt

end Channel

theorem path_withApi {α : Type} {api : M.Api} {x : Proc α} {a : α} :
    Path (withApi M api x).run τ (.ok a) ↔ Path x.run τ (.ok a) := by
  rw [withApi, path_run_attempt_bind]
  constructor
  · intro h
    obtain ⟨r, τ₁, τ₂, rfl, h₁, h₂⟩ := h
    cases r with
    | ok b =>
        obtain ⟨rfl, hb⟩ := (path_run_pure ..).mp h₂
        cases hb
        rwa [List.append_nil]
    | error e =>
        obtain ⟨-, hb⟩ := (path_run_throw ..).mp h₂
        cases hb
  · intro h
    exact ⟨.ok a, τ, [], (List.append_nil τ).symm, h, (path_run_pure ..).mpr ⟨rfl, rfl⟩⟩

theorem path_channelCreate {api : M.Api} {d : Nat} {ch : Hash243 × M.Api} :
    Path (mamApiChannelCreate M api d).run τ (.ok ch) ↔
      τ = [⟨.mam .channelCreate, true⟩] ∧ ch = M.channelCreate api d := by
  rw [mamApiChannelCreate, path_run_bind_ok]
  constructor
  · intro h
    obtain ⟨_, τ₁, τ₂, rfl, h₁, h₂⟩ := h
    obtain ⟨rfl, hch⟩ := (path_run_pure ..).mp h₂
    rw [path_mamCall] at h₁
    exact ⟨by rw [h₁, List.append_nil], Except.ok.inj hch⟩
  · intro h
    obtain ⟨rfl, rfl⟩ := h
    exact ⟨(), _, [], rfl, path_mamCall.mpr rfl, (path_run_pure ..).mpr ⟨rfl, rfl⟩⟩

theorem path_channelCreate_error {api : M.Api} {d : Nat} {err : Status × M.Api}
    (h : Path (mamApiChannelCreate M api d).run τ (.error err)) :
    τ = [⟨.mam .channelCreate, false⟩] := by
  rw [mamApiChannelCreate, path_run_bind] at h
  rcases h with ⟨e, -, h⟩ | ⟨_, τ₁, τ₂, rfl, -, h⟩
  · exact path_mamCall_error h
  · obtain ⟨-, hres⟩ := (path_run_pure ..).mp h
    cases hres

/-- The channel whose transactions are fetched: the given one, or a new one. -/
theorem path_createChannelFetchAllTransactions {api : M.Api} {d : Nat} {firstIter : Bool}
    {chid : Hash243} {tags : List Hash81} {ch : Hash243 × M.Api}
    (h : Path (createChannelFetchAllTransactions M api d firstIter chid).run τ (.ok (tags, ch))) :
    ∃ txs τ₁ τ₂, τ = τ₁ ++ τ₂ ∧ (∀ e ∈ τ₁, e.cmd.FetchesNothing) ∧
      Path (taGetTxnObjectsWithTxnHash { addresses := [ch.1] }).run τ₂ (.ok txs) ∧
      tags = collectTags txs [] ∧
      ch = if firstIter then (chid, api) else M.channelCreate api d := by
  rw [createChannelFetchAllTransactions, path_run_bind_ok] at h
  obtain ⟨ch', τ₁, τ₂, rfl, h₁, h⟩ := h
  rw [path_run_bind_ok] at h
  obtain ⟨txs, τ₃, τ₄, rfl, h₂, h⟩ := h
  obtain ⟨rfl, hres⟩ := (path_run_pure ..).mp h
  cases hres
  rw [path_withApi] at h₂
  refine ⟨txs, τ₁, τ₃, by rw [List.append_nil], ?_, h₂, rfl, ?_⟩
  · cases firstIter with
    | true =>
        obtain ⟨rfl, -⟩ := (path_run_pure ..).mp h₁
        simp
    | false =>
        obtain ⟨rfl, -⟩ := path_channelCreate.mp h₁
        simp [Cmd.FetchesNothing]
  · cases firstIter with
    | true => exact Except.ok.inj ((path_run_pure ..).mp h₁).2
    | false => exact (path_channelCreate.mp h₁).2

/-! ## The run -/

/-- A call of the MAM library failed. -/
def MamFails : Event sig → Bool
  | ⟨.mam _, ok⟩ => !ok
  | _ => false

/-- How a pass of the loop over the channels ends. -/
inductive Passes (D : MamIds M) (keys : MamEncryptKey) (d fuel : Nat) (J : M.Api → Prop)
    (ch : Hash243 × M.Api) (txs : List Transaction) (τ : List (Event sig)) :
    Option (Hash243 × MamSendOperation × KeySearch M) → Prop where
  /-- The channel is chosen. -/
  | chosen {k : KeySearch M} {j : Nat}
      (stops : Stops D keys ch.1 (idsOf txs) J (2 ^ d) (idsOf txs).card ch.2 k j)
      (left : ¬ (k.remain = 0 ∧ k.used = 0)) (done : τ = []) :
      Passes D keys d fuel J ch txs τ
        (some (ch.1, if k.remain = 1 then .announceChid else .sendMessage, k))
  /-- The channel is taken to be used up, and the loop goes on with the next one. -/
  | skipped {k : KeySearch M} {j : Nat} {found : Option (Hash243 × MamSendOperation × KeySearch M)}
      (stops : Stops D keys ch.1 (idsOf txs) J (2 ^ d) (idsOf txs).card ch.2 k j)
      (remain : k.remain = 0) (used : k.used = 0)
      (next : Path (searchChannel M keys d fuel false ch.1 k.api).run τ (.ok found)) :
      Passes D keys d fuel J ch txs τ found

/-- One pass of the loop over the channels: the transactions of a channel are fetched, and the
channel is chosen or skipped. -/
theorem path_searchChannel_succ (D : MamIds M) {d fuel : Nat} {firstIter : Bool}
    {chid₀ : Hash243} {api : M.Api} {found : Option (Hash243 × MamSendOperation × KeySearch M)}
    (hJ : ∀ chid api, J api → J (M.mssNext (M.writeHeaderOnChannel api chid keys).2.2.2 chid))
    (hapi : J (if firstIter then (chid₀, api) else M.channelCreate api d).2)
    (h : Path (searchChannel M keys d (fuel + 1) firstIter chid₀ api).run τ (.ok found)) :
    ∃ ch txs τ₁ τ₂, τ = τ₁ ++ τ₂ ∧
      ch = (if firstIter then (chid₀, api) else M.channelCreate api d) ∧
      (∀ acc, τ₁.foldl fetchStep acc = (ch.1, txs) :: acc) ∧
      Passes D keys d fuel J ch txs τ₂ found := by
  rw [searchChannel, path_run_bind_ok] at h
  obtain ⟨⟨tags, ch⟩, τ₁, τ₂, rfl, hfetch, h⟩ := h
  obtain ⟨txs, τ₃, τ₄, rfl, hnothing, hquery, rfl, hch⟩ :=
    path_createChannelFetchAllTransactions hfetch
  rw [← hch] at hapi
  rw [path_run_bind_ok] at h
  obtain ⟨result, τ₅, τ₆, rfl, hsearch, h⟩ := h
  rw [length_collectTags] at hsearch
  obtain ⟨k, j, rfl, hstops⟩ := path_searchKey D (hJ ch.1) (by simp) hapi hsearch
  refine ⟨ch, txs, (τ₃ ++ τ₄) ++ τ₅, τ₆, (List.append_assoc ..).symm, hch, ?_, ?_⟩
  · intro acc
    rw [List.foldl_append, List.foldl_append, foldl_fetchStep_of_nothing hnothing,
      foldl_fetchStep_query hquery,
      foldl_fetchStep_of_nothing ((uses_searchKey M trivial ..).path hsearch)]
  · dsimp only at h
    split at h
    · rename_i hone
      obtain ⟨rfl, hres⟩ := (path_run_pure ..).mp h
      cases hres
      have hop : MamSendOperation.announceChid =
          if k.remain = 1 then .announceChid else .sendMessage := (if_pos hone).symm
      rw [hop]
      exact .chosen hstops (by omega) rfl
    · split at h
      · rename_i hskip
        exact .skipped hstops hskip.1 hskip.2 h
      · rename_i hone hleft
        obtain ⟨rfl, hres⟩ := (path_run_pure ..).mp h
        cases hres
        have hop : MamSendOperation.sendMessage =
            if k.remain = 1 then .announceChid else .sendMessage := (if_neg hone).symm
        rw [hop]
        exact .chosen hstops hleft rfl

/-- The channels of a search come before those that were fetched earlier. -/
theorem searchChannel_fetched {d fuel : Nat} {firstIter : Bool}
    {chid₀ : Hash243} {api : M.Api} {found : Option (Hash243 × MamSendOperation × KeySearch M)}
    (D : MamIds M) (h : Path (searchChannel M keys d fuel firstIter chid₀ api).run τ (.ok found))
    (acc : List (Hash243 × List Transaction)) :
    τ.foldl fetchStep acc = fetched τ ++ acc := by
  induction fuel generalizing firstIter chid₀ api τ acc with
  | zero =>
      obtain ⟨rfl, -⟩ := (path_run_pure ..).mp h
      rfl
  | succ fuel ih =>
      obtain ⟨ch, txs, τ₁, τ₂, rfl, -, hfetch, hpass⟩ :=
        path_searchChannel_succ D (J := fun _ => True) (fun _ _ _ => trivial) trivial h
      rw [fetched, List.foldl_append, List.foldl_append, hfetch, hfetch]
      cases hpass with
      | chosen stops left done =>
          rw [done]
          rfl
      | skipped stops remain used next =>
          rw [ih next, ih next [(ch.1, txs)], List.append_assoc]
          rfl

/-- The channels a search has gone through: the last one is chosen, the others are not
overfull. -/
theorem path_searchChannel (D : MamIds M) {d : Nat} (hd : d ≤ 20) {fuel : Nat} {firstIter : Bool}
    {chid₀ chid : Hash243} {api : M.Api} {op : MamSendOperation} {k : KeySearch M}
    (hfirst : firstIter = true → D.headers api chid₀ = 0)
    (h : Path (searchChannel M keys d fuel firstIter chid₀ api).run τ (.ok (some (chid, op, k)))) :
    ∃ txs passed, fetched τ = (chid, txs) :: passed ∧ (∀ x ∈ passed, ¬ Overfull D d x) ∧
      (k.msgId ∉ idsOf txs ↔ ¬ Overfull D d (chid, txs)) := by
  induction fuel generalizing firstIter chid₀ api τ with
  | zero =>
      obtain ⟨-, hres⟩ := (path_run_pure ..).mp h
      cases hres
  | succ fuel ih =>
      obtain ⟨ch, txs, τ₁, τ₂, rfl, hch, hfetch, hpass⟩ :=
        path_searchChannel_succ D (J := fun _ => True) (fun _ _ _ => trivial) trivial h
      have hfresh : D.headers ch.2 ch.1 = 0 := by
        cases firstIter with
        | true =>
            rw [hch]
            exact hfirst rfl
        | false =>
            rw [hch]
            exact D.headers_create api d
      cases hpass with
      | chosen stops left done =>
          rw [done, List.append_nil, fetched, hfetch]
          exact ⟨txs, [], rfl, by simp, stops.unused_iff hd hfresh left⟩
      | skipped stops remain used next =>
          obtain ⟨txs', passed, hfetched, hpassed, hiff⟩ := ih (by simp) next
          refine ⟨txs', passed ++ [(ch.1, txs)], ?_, ?_, hiff⟩
          · rw [fetched, List.foldl_append, hfetch, searchChannel_fetched D next, hfetched]
            rfl
          · refine List.forall_mem_append.mpr ⟨hpassed, ?_⟩
            rw [List.forall_mem_singleton]
            exact stops.not_overfull hd remain used

/-- Walking to the channel a request names ends on a channel that was just created. -/
theorem path_findStartingChid (D : MamIds M) {d left : Nat} {target chid₀ : Hash243}
    {api : M.Api} {ch : Hash243 × M.Api} (hfresh : D.headers api chid₀ = 0)
    (h : Path (findStartingChid M d target left chid₀ api).run τ (.ok ch)) :
    (∀ e ∈ τ, e.cmd.FetchesNothing) ∧ D.headers ch.2 ch.1 = 0 := by
  induction left generalizing chid₀ api τ with
  | zero =>
      unfold findStartingChid at h
      split at h
      · obtain ⟨rfl, hch⟩ := (path_run_pure ..).mp h
        cases hch
        exact ⟨by simp, hfresh⟩
      · rw [path_run_bind_ok] at h
        obtain ⟨ch', τ₁, τ₂, rfl, -, h⟩ := h
        obtain ⟨-, hch⟩ := (path_run_throw ..).mp h
        cases hch
  | succ left ih =>
      unfold findStartingChid at h
      split at h
      · obtain ⟨rfl, hch⟩ := (path_run_pure ..).mp h
        cases hch
        exact ⟨by simp, hfresh⟩
      · rw [path_run_bind_ok] at h
        obtain ⟨ch', τ₁, τ₂, rfl, hcreate, h⟩ := h
        obtain ⟨rfl, rfl⟩ := path_channelCreate.mp hcreate
        obtain ⟨hnothing, hch⟩ := ih (D.headers_create api d) h
        exact ⟨List.forall_mem_cons.mpr ⟨trivial, hnothing⟩, hch⟩

/-- `is_setting_changed` leaves a new channel, if it could create one. -/
theorem path_isSettingChanged (D : MamIds M) {d : Nat} {chid₀ : Hash243} {api : M.Api}
    {changed : Bool} {ch : Hash243 × M.Api} (hmam : ∀ e ∈ τ, MamFails e = false)
    (h : Path (isSettingChanged M api d chid₀).run τ (.ok (changed, ch))) :
    (∀ e ∈ τ, e.cmd.FetchesNothing) ∧ D.headers ch.2 ch.1 = 0 := by
  rw [isSettingChanged, path_run_attempt_bind] at h
  obtain ⟨created, τ₁, τ₂, rfl, hcreate, h⟩ := h
  cases created with
  | error e =>
      -- a failed call of the library is in the trace
      exfalso
      have hτ := path_channelCreate_error hcreate
      rw [hτ] at hmam
      have := hmam ⟨.mam .channelCreate, false⟩ (by simp)
      cases this
  | ok ch' =>
      obtain ⟨rfl, rfl⟩ := path_channelCreate.mp hcreate
      rw [path_run_request_bind] at h
      obtain ⟨answer, τ₃, rfl, h⟩ := h
      have hres : τ₃ = [] ∧ ch = M.channelCreate api d := by
        cases answer with
        | none =>
            obtain ⟨rfl, hch⟩ := (path_run_pure ..).mp h
            cases hch
            exact ⟨rfl, rfl⟩
        | some txs =>
            obtain ⟨rfl, hch⟩ := (path_run_pure ..).mp h
            cases hch
            exact ⟨rfl, rfl⟩
      obtain ⟨rfl, rfl⟩ := hres
      refine ⟨?_, D.headers_create api d⟩
      intro e he
      rcases List.mem_cons.mp he with rfl | he
      · trivial
      · rw [List.mem_singleton.mp he]
        trivial

/-- The channel a message starts from was just created, if the request names one. -/
theorem path_startingChannel (D : MamIds M) {d : Nat} {api : M.Api} {target : Option Hash243}
    {ch : Hash243 × M.Api} (hmam : ∀ e ∈ τ, MamFails e = false)
    (h : Path (startingChannel M d api target).run τ (.ok ch)) :
    (∀ e ∈ τ, e.cmd.FetchesNothing) ∧ (target.isSome = true → D.headers ch.2 ch.1 = 0) := by
  cases target with
  | none =>
      obtain ⟨rfl, -⟩ := (path_run_pure ..).mp h
      exact ⟨by simp, nofun⟩
  | some target =>
      rw [startingChannel, path_run_bind_ok] at h
      obtain ⟨⟨changed, ch'⟩, τ₁, τ₂, rfl, hsetting, h⟩ := h
      obtain ⟨hnothing₁, hfresh⟩ := path_isSettingChanged D
        (fun e he => hmam e (List.mem_append_left _ he)) hsetting
      dsimp only at h
      split at h
      · obtain ⟨rfl, hch⟩ := (path_run_pure ..).mp h
        cases hch
        rw [List.append_nil]
        exact ⟨hnothing₁, fun _ => hfresh⟩
      · obtain ⟨hnothing₂, hfresh₂⟩ := path_findStartingChid D hfresh h
        exact ⟨List.forall_mem_append.mpr ⟨hnothing₁, hnothing₂⟩, fun _ => hfresh₂⟩

/-- For every depth from 1 to 20 and all answers of the node: the key of the message is unused
exactly when no channel of the run is overfull. -/
theorem writtenMsg_key_unused_iff (D : MamIds M) {fuel : Nat} {api : M.Api} {depth : Int}
    (hdepth : 1 ≤ depth ∧ depth ≤ 20) {target : Option Hash243} {keys : MamEncryptKey}
    {payload : String} {wr : Written M} (hmam : ∀ e ∈ τ, MamFails e = false)
    (h : Path (taMamWrittenMsgToBundle M fuel api depth target keys payload).run τ
      (.ok (some wr))) :
    ∃ txs, (fetched τ).head? = some (wr.chid, txs) ∧
      ((∀ tx ∈ txs, msgIdOf tx.tag ≠ wr.msgId) ↔
        ∀ x ∈ fetched τ, ¬ Overfull D depth.toNat x) := by
  rw [taMamWrittenMsgToBundle, path_run_bind_ok] at h
  obtain ⟨_, τ₁, τ₂, rfl, hensure, h⟩ := h
  obtain ⟨rfl, -⟩ := (path_run_ensure ..).mp hensure
  rw [List.nil_append] at hmam ⊢
  rw [path_run_bind_ok] at h
  obtain ⟨ch, τ₃, τ₄, rfl, hstart, h⟩ := h
  obtain ⟨hnothing, hfirst⟩ := path_startingChannel D
    (fun e he => hmam e (List.mem_append_left _ he)) hstart
  rw [path_run_bind_ok] at h
  obtain ⟨chosen, τ₅, τ₆, rfl, hsearch, h⟩ := h
  cases chosen with
  | none =>
      obtain ⟨-, hres⟩ := (path_run_pure ..).mp h
      cases hres
  | some chosen =>
      obtain ⟨chid, op, k⟩ := chosen
      rw [path_run_bind_ok] at h
      obtain ⟨_, τ₇, τ₈, rfl, hpacket, h⟩ := h
      obtain ⟨rfl, hres⟩ := (path_run_pure ..).mp h
      cases hres
      rw [path_mamCall] at hpacket
      obtain ⟨txs, passed, hfound, hpassed, hiff⟩ :=
        path_searchChannel D (by omega) hfirst hsearch
      have hfetched : fetched (τ₃ ++ (τ₅ ++ (τ₇ ++ []))) = (chid, txs) :: passed := by
        rw [fetched, List.foldl_append, List.foldl_append, foldl_fetchStep_of_nothing hnothing,
          searchChannel_fetched D hsearch, hfound, hpacket, List.append_nil, List.append_nil]
        rfl
      refine ⟨txs, by rw [hfetched]; rfl, ?_⟩
      rw [hfetched, List.forall_mem_cons, ← hiff, mem_idsOf]
      constructor
      · intro hunused
        refine ⟨?_, hpassed⟩
        rintro ⟨tx, htx, hid⟩
        exact hunused tx htx hid
      · intro hunused tx htx hid
        exact hunused.1 ⟨tx, htx, hid⟩

namespace Sample

/-- The ID of a header: its ordinal, and the first tryte of the channel ID. -/
def headerId (chid : Hash243) (j : Nat) : MsgId :=
  Vector.ofFn fun i : Fin 21 => if i.val < 5 then Fin.ofNat 27 (j / 27 ^ i.val) else chid[0]

/-- A transaction on a channel. -/
def header (chid : Hash243) (j : Nat) : Transaction :=
  { txn with
    address := chid
    tag := Vector.ofFn fun i : Fin 27 =>
      if h : i.val < 21 then (headerId chid j)[i.val] else 0 }

/-- The ID of a channel: its number, in every tryte. -/
def channelId (k : Nat) : Hash243 := Vector.replicate 81 (Fin.ofNat 27 k)

/-- A MAM library that counts channels and headers. -/
def counting : MamLib where
  Api := Hash243 × Nat × (Hash243 → Nat)
  apiInit seed := (seed, 0, fun _ => 0)
  apiLoad _ := (Vector.replicate 81 0, 0, fun _ => 0)
  apiSave _ := []
  channelCreate api _ :=
    (channelId api.2.1, api.1, api.2.1 + 1,
      fun c => if c = channelId api.2.1 then 0 else api.2.2 c)
  writeHeaderOnChannel api chid _ :=
    (header chid (api.2.2 chid), [], headerId chid (api.2.2 chid), api.1, api.2.1,
      fun c => if c = chid then api.2.2 c + 1 else api.2.2 c)
  mssNext api _ := api
  asciiToTrytes _ := []
  writePacket api _ _ bundle := (bundle, api)
  announceChannel api chid _ _ :=
    ([header chid (api.2.2 chid)], headerId chid (api.2.2 chid), api)
  zeroId := Vector.replicate 81 0

/-- The ordinals that fit in five trytes are different. -/
theorem headerId_inj {chid chid' : Hash243} {i j : Nat} (hi : i < 2 ^ 20) (hj : j < 2 ^ 20)
    (h : headerId chid i = headerId chid' j) : i = j := by
  have hdigit : ∀ n (_ : n < 21), n < 5 → i / 27 ^ n % 27 = j / 27 ^ n % 27 := by
    intro n hn hlow
    have hval : (headerId chid i)[n].val = (headerId chid' j)[n].val := by rw [h]
    simp only [headerId, Vector.getElem_ofFn, hlow, if_true, Fin.val_ofNat] at hval
    exact hval
  have h₀ := hdigit 0 (by omega) (by omega)
  have h₁ := hdigit 1 (by omega) (by omega)
  have h₂ := hdigit 2 (by omega) (by omega)
  have h₃ := hdigit 3 (by omega) (by omega)
  have h₄ := hdigit 4 (by omega) (by omega)
  omega

theorem msgIdOf_header (chid : Hash243) (j : Nat) :
    msgIdOf (header chid j).tag = headerId chid j := by
  ext i hi
  simp [msgIdOf, header]

/-- The IDs of `counting`. -/
def countingIds : MamIds counting where
  headers api chid := api.2.2 chid
  msgId := headerId
  headers_create _ _ := by simp [counting]
  header_id _ _ _ := rfl
  header_tag _ _ _ := msgIdOf_header ..
  headers_write _ _ _ := by simp [counting]
  headers_next _ _ := rfl
  msgId_inj _ _ _ hi hj h := headerId_inj hi hj h

/-- A node with transactions on the first channel. -/
def channelHolds (txs : List Transaction) : (c : Cmd) → Choice c
  | .findTransactions _ => some [Vector.replicate 81 0]
  | .getTransactionObjects _ => some txs
  | c => good c

/-- A message on a channel of depth one, for a node with these transactions on it. -/
def write (txs : List Transaction) :
    List (Event sig) × Except (Status × counting.Api) (Option (Written counting)) × World :=
  exec world
    (taMamWrittenMsgToBundle counting 1 (Vector.replicate 81 0, 0, fun _ => 0) 1 none {} "").run
    (fun _ => channelHolds txs) buffered

theorem path_write (txs : List Transaction) :
    Path
      (taMamWrittenMsgToBundle counting 1 (Vector.replicate 81 0, 0, fun _ => 0) 1 none {} "").run
      (write txs).1 (write txs).2.1 :=
  path_exec (V := world) _ _ _

theorem mamFails_write (txs : List Transaction) : ∀ e ∈ (write txs).1, MamFails e = false := by
  refine forall_mem_exec (V := world) _ _ fun _ c _ => ?_
  cases c <;> rfl

end Sample

/-- The first of two keys is on the channel, and the second one is taken. -/
theorem writtenMsg_key_unused_second :
    ∃ wr txs, (Sample.write [Sample.header (Vector.replicate 81 0) 0]).2.1 = .ok (some wr) ∧
      (fetched (Sample.write [Sample.header (Vector.replicate 81 0) 0]).1).head? =
        some (wr.chid, txs) ∧ ∀ tx ∈ txs, msgIdOf tx.tag ≠ wr.msgId := by
  obtain ⟨wr, hwr⟩ : ∃ wr, (Sample.write [Sample.header (Vector.replicate 81 0) 0]).2.1 =
    .ok (some wr) := ⟨_, rfl⟩
  have hpath := Sample.path_write [Sample.header (Vector.replicate 81 0) 0]
  rw [hwr] at hpath
  obtain ⟨txs, hhead, hiff⟩ := writtenMsg_key_unused_iff Sample.countingIds (by decide)
    (Sample.mamFails_write _) hpath
  exact ⟨wr, txs, hwr, hhead, hiff.mpr (by decide)⟩

/-- Both keys are on the channel, and a transaction with another tag.  The second key is taken
again. -/
theorem writtenMsg_key_used :
    ∃ τ wr txs, Path (taMamWrittenMsgToBundle Sample.counting 1
        (Vector.replicate 81 0, 0, fun _ => 0) 1 none {} "").run τ (.ok (some wr)) ∧
      (∀ e ∈ τ, MamFails e = false) ∧ (fetched τ).head? = some (wr.chid, txs) ∧
      ∃ tx ∈ txs, msgIdOf tx.tag = wr.msgId := by
  refine ⟨_, _, [Sample.header (Vector.replicate 81 0) 0, Sample.header (Vector.replicate 81 0) 1,
    Sample.header (Vector.replicate 81 0) 2], Sample.path_write [Sample.header
      (Vector.replicate 81 0) 0, Sample.header (Vector.replicate 81 0) 1,
      Sample.header (Vector.replicate 81 0) 2], Sample.mamFails_write _, ?_, ?_⟩
  · rfl
  · decide

end TangleAccelerator
