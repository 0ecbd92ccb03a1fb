import TangleAccelerator.Buffer.Footprint

/-!
# What sending does

A bundle goes through three hands before the node has it: it is finalized and serialized, its
transactions are read back and worked on, and they are serialized again.  None of this touches
the address and the tag of a transaction (`label`), which is what a MAM channel is found by.

`ta_send_trytes` of a bundle with a transaction fails exactly where a call it makes does
(`SendFails`), and it succeeds exactly where the node has stored the trytes.
-/

namespace TangleAccelerator

open Effect

variable {I : Iota} {τ : List (Event sig)}

/-! ## Failures -/

/-- A call of `ta_send_trytes` failed. -/
def SendFails : Event sig → Bool
  | ⟨.getTransactionsToApprove _, tips⟩ => tips.isNone
  | ⟨.transactionSerialize _, ok⟩ => !ok
  | ⟨.dcurlEntry _ _, trytes⟩ => trytes.isNone
  | ⟨.storeAndBroadcast _, ok⟩ => !ok
  | _ => false

section Send

variable {info : TaConfig} {iconf : IotaConfig}

theorem failsOnlyAt_serializeBundle (txs : List Transaction) :
    FailsOnlyAt SendFails (serializeBundle I txs) := by
  induction txs with
  | nil => exact failsOnlyAt_pure _
  | cons tx txs ih =>
      exact failsOnlyAt_ensure_request (fun _ => rfl) fun _ =>
        ih.bind fun _ => failsOnlyAt_pure _

theorem failsAt_serializeBundle (txs : List Transaction) :
    FailsAt SendFails (serializeBundle I txs) := by
  induction txs with
  | nil => exact failsAt_pure _
  | cons tx txs ih =>
      exact failsAt_ensure_request (fun _ => rfl) fun _ => ih.bind fun _ => failsAt_pure _

theorem failsOnlyAt_taPowFlex {α : Type} {trits : Hash8019} {mwm : Nat} {e : Status}
    {k : Option Hash81 → Hash81 → Proc α}
    (hk : ∀ ret nonce, FailsOnlyAt SendFails (k ret nonce)) :
    FailsOnlyAt SendFails (taPowFlex trits mwm >>= fun ret => demand ret e >>= k ret) :=
  failsOnlyAt_demand_request (F := SendFails) (c := .dcurlEntry trits mwm)
    (g := Option.map nonceOf) (fun _ => Option.isNone_map.symm)
    fun trytes => hk (trytes.map nonceOf)

theorem failsAt_taPowFlex {α : Type} {trits : Hash8019} {mwm : Nat} {e : Status}
    {k : Option Hash81 → Hash81 → Proc α}
    (hk : ∀ ret nonce, FailsAt SendFails (k ret nonce)) :
    FailsAt SendFails (taPowFlex trits mwm >>= fun ret => demand ret e >>= k ret) :=
  failsAt_demand_request (F := SendFails) (c := .dcurlEntry trits mwm)
    (g := Option.map nonceOf) (fun _ => Option.isNone_map.symm)
    fun trytes => hk (trytes.map nonceOf)

theorem failsOnlyAt_taPowLoop {branch : Hash243} {mwm : Nat} (txs : List Transaction)
    (cur : UInt64) (trunk : Hash243) (done : List Transaction) :
    FailsOnlyAt SendFails (taPowLoop I branch mwm txs cur trunk done) := by
  induction txs generalizing cur trunk done with
  | nil => exact failsOnlyAt_pure _
  | cons tx txs ih =>
      refine failsOnlyAt_request_bind fun timestamp _ => ?_
      refine failsOnlyAt_ensure_request (fun _ => rfl) fun _ => ?_
      refine failsOnlyAt_taPowFlex fun ret nonce => ?_
      dsimp only
      split
      · exact failsOnlyAt_pure _
      · exact ih _ _ _

theorem failsAt_taPowLoop {branch : Hash243} {mwm : Nat} (txs : List Transaction)
    (cur : UInt64) (trunk : Hash243) (done : List Transaction) :
    FailsAt SendFails (taPowLoop I branch mwm txs cur trunk done) := by
  induction txs generalizing cur trunk done with
  | nil => exact failsAt_pure _
  | cons tx txs ih =>
      refine failsAt_request_bind nofun fun timestamp => ?_
      refine failsAt_ensure_request (fun _ => rfl) fun _ => ?_
      refine failsAt_taPowFlex fun ret nonce => ?_
      dsimp only
      split
      · exact failsAt_pure _
      · exact ih _ _ _

theorem failsOnlyAt_transactionsToApprove :
    FailsOnlyAt SendFails (transactionsToApprove I info iconf) := by
  rw [transactionsToApprove]
  split
  · refine failsOnlyAt_request_bind fun tips htips => ?_
    cases tips with
    | some tips => exact failsOnlyAt_pure tips
    | none => cases htips
  · exact failsOnlyAt_pure _

theorem failsAt_transactionsToApprove :
    FailsAt SendFails (transactionsToApprove I info iconf) := by
  rw [transactionsToApprove]
  split
  · refine failsAt_request_bind ?_ fun tips => failsAt_demand _ _
    intro tips htips σ b hpath
    cases tips with
    | some tips => cases htips
    | none => cases ((path_run_throw ..).mp hpath).2
  · exact failsAt_pure _

/-- `ta_send_trytes` of at least one transaction fails only where a call it makes fails. -/
theorem failsOnlyAt_taSendTrytes {trytes : List Hash8019} (h : trytes ≠ []) :
    FailsOnlyAt SendFails (taSendTrytes I info iconf trytes) := by
  refine failsOnlyAt_transactionsToApprove.bind fun tips => ?_
  refine FailsOnlyAt.bind ?_ fun attached =>
    failsOnlyAt_ensure_request (fun _ => rfl) fun _ => failsOnlyAt_pure _
  refine FailsOnlyAt.bind ?_ fun bundle => failsOnlyAt_serializeBundle bundle
  rw [taPow]
  cases hlast : (trytes.map (I.deserialize · true)).getLast? with
  | none =>
      rw [List.getLast?_eq_none_iff, List.map_eq_nil_iff] at hlast
      exact absurd hlast h
  | some tx => exact (failsOnlyAt_pure tx).bind fun tx => failsOnlyAt_taPowLoop _ _ _ _

/-- `ta_send_trytes` fails where a call it makes fails. -/
theorem failsAt_taSendTrytes {trytes : List Hash8019} :
    FailsAt SendFails (taSendTrytes I info iconf trytes) := by
  refine failsAt_transactionsToApprove.bind fun tips => ?_
  refine FailsAt.bind ?_ fun attached =>
    failsAt_ensure_request (fun _ => rfl) fun _ => failsAt_pure _
  refine FailsAt.bind ?_ fun bundle => failsAt_serializeBundle bundle
  exact (failsAt_demand _ _).bind fun tx => failsAt_taPowLoop _ _ _ _

end Send

/-! ## What the node stores -/

/-- The bundle an event hands to the node, if the node accepts it. -/
def storedBy : Event sig → List (List Hash8019)
  | ⟨.storeAndBroadcast trytes, true⟩ => [trytes]
  | _ => []

/-- The bundles the node accepted. -/
def stored (τ : List (Event sig)) : List (List Hash8019) := τ.flatMap storedBy

@[simp] theorem stored_nil : stored [] = [] := rfl

@[simp] theorem stored_append (τ₁ τ₂ : List (Event sig)) :
    stored (τ₁ ++ τ₂) = stored τ₁ ++ stored τ₂ :=
  List.flatMap_append

/-- Commands that hand nothing to the node. -/
def Cmd.StoresNothing : Cmd → Prop
  | .storeAndBroadcast _ => False
  | _ => True

theorem Cmd.Quiet.storesNothing {c : Cmd} (h : c.Quiet) : c.StoresNothing := by
  cases c with
  | storeAndBroadcast trytes => exact h.elim
  | _ => trivial

theorem Cmd.Attaches.storesNothing {c : Cmd} (h : c.Attaches) : c.StoresNothing :=
  h.quiet.storesNothing

theorem stored_eq_nil (h : ∀ e ∈ τ, e.cmd.StoresNothing) : stored τ = [] := by
  induction τ with
  | nil => rfl
  | cons e τ ih =>
      rw [List.forall_mem_cons] at h
      have he : storedBy e = [] := by
        obtain ⟨c, r⟩ := e
        cases c with
        | storeAndBroadcast trytes => exact h.1.elim
        | _ => rfl
      rw [stored, List.flatMap_cons, he, List.nil_append]
      exact ih h.2

theorem mem_stored {ts : List Hash8019} :
    ts ∈ stored τ ↔ (⟨.storeAndBroadcast ts, true⟩ : Event sig) ∈ τ := by
  rw [stored, List.mem_flatMap]
  constructor
  · rintro ⟨e, he, hts⟩
    unfold storedBy at hts
    split at hts
    · rw [List.mem_singleton.mp hts]
      exact he
    · cases hts
  · intro h
    exact ⟨_, h, List.mem_singleton.mpr rfl⟩

/-! ## Labels -/

/-- What a transaction is found by. -/
def label (tx : Transaction) : Hash243 × Hash81 := (tx.address, tx.tag)

/-- The functions of `iota.c` keep addresses and tags. -/
structure IotaLabels (I : Iota) : Prop where
  finalize : ∀ txs, (I.finalize txs).map label = txs.map label
  deserialize : ∀ tx hash, label (I.deserialize (I.serialize tx) hash) = label tx

/-- The labels of a serialized bundle. -/
def labelsOf (I : Iota) (trytes : List Hash8019) : List (Hash243 × Hash81) :=
  trytes.map fun t => label (I.deserialize t true)

theorem labelsOf_serialize (L : IotaLabels I) (txs : List Transaction) :
    labelsOf I (txs.map I.serialize) = txs.map label := by
  rw [labelsOf, List.map_map]
  exact List.map_congr_left fun tx _ => L.deserialize tx true

theorem path_serializeBundle {txs : List Transaction} {raw : List Hash8019}
    (h : Path (serializeBundle I txs).run τ (.ok raw)) : raw = txs.map I.serialize := by
  induction txs generalizing τ raw with
  | nil =>
      obtain ⟨-, hraw⟩ := (path_run_pure ..).mp h
      exact Except.ok.inj hraw
  | cons tx txs ih =>
      rw [serializeBundle, path_run_bind_ok] at h
      obtain ⟨ok, τ₁, τ₂, -, -, h⟩ := h
      rw [path_run_bind_ok] at h
      obtain ⟨_, τ₃, τ₄, -, -, h⟩ := h
      rw [path_run_bind_ok] at h
      obtain ⟨trytes, τ₅, τ₆, -, h₁, h₂⟩ := h
      obtain ⟨-, hraw⟩ := (path_run_pure ..).mp h₂
      rw [Except.ok.inj hraw, ih h₁]
      rfl

/-! ## What attaching keeps -/

/-- A transaction without its attachment: the trunk, the branch, the attachment timestamps, the
nonce, and the hash, which covers them. -/
def unattached (tx : Transaction) : Transaction :=
  { tx with
    trunk := Vector.replicate 81 0
    branch := Vector.replicate 81 0
    attachmentTimestamp := 0
    attachmentTimestampLower := 0
    attachmentTimestampUpper := 0
    nonce := Vector.replicate 27 0
    hash := Vector.replicate 81 0 }

theorem label_unattached (tx : Transaction) : label (unattached tx) = label tx := rfl

/-- The proof of work only changes attachments, wherever its loop stops. -/
theorem path_taPowLoop {branch trunk : Hash243} {mwm : Nat} {cur : UInt64}
    {txs done out : List Transaction}
    (h : Path (taPowLoop I branch mwm txs cur trunk done).run τ (.ok out)) :
    out.map unattached = (txs.reverse ++ done).map unattached := by
  induction txs generalizing cur trunk done τ with
  | nil =>
      obtain ⟨-, hout⟩ := (path_run_pure ..).mp h
      rw [Except.ok.inj hout]
      rfl
  | cons tx txs ih =>
      rw [taPowLoop, path_run_request_bind] at h
      obtain ⟨timestamp, τ₁, -, h⟩ := h
      rw [path_run_request_bind] at h
      obtain ⟨ok, τ₂, -, h⟩ := h
      rw [path_run_bind_ok] at h
      obtain ⟨_, τ₃, τ₄, -, -, h⟩ := h
      rw [path_run_bind_ok] at h
      obtain ⟨ret, τ₅, τ₆, -, -, h⟩ := h
      rw [path_run_bind_ok] at h
      obtain ⟨nonce, τ₇, τ₈, -, -, h⟩ := h
      dsimp only at h
      split at h
      · obtain ⟨-, hout⟩ := (path_run_pure ..).mp h
        rw [Except.ok.inj hout]
        simp [unattached, setAttachment]
      · rw [ih h]
        simp [unattached, setAttachment]

/-- What is attached is the serialized bundle with other attachments. -/
theorem path_taAttachToTangle {trytes attached : List Hash8019} {tips : Hash243 × Hash243}
    {mwm : Nat} (h : Path (taAttachToTangle I trytes tips mwm).run τ (.ok attached)) :
    ∃ out : List Transaction, attached = out.map I.serialize ∧
      out.map unattached = trytes.map fun t => unattached (I.deserialize t true) := by
  rw [taAttachToTangle, path_run_bind_ok] at h
  obtain ⟨out, τ₁, τ₂, -, hpow, h⟩ := h
  rw [taPow, path_run_bind_ok] at hpow
  obtain ⟨tx, τ₃, τ₄, -, -, hpow⟩ := hpow
  refine ⟨out, path_serializeBundle h, ?_⟩
  rw [path_taPowLoop hpow, List.append_nil, List.reverse_reverse, List.map_map]
  rfl

theorem labelsOf_taAttachToTangle (L : IotaLabels I) {trytes attached : List Hash8019}
    {tips : Hash243 × Hash243} {mwm : Nat}
    (h : Path (taAttachToTangle I trytes tips mwm).run τ (.ok attached)) :
    labelsOf I attached = labelsOf I trytes := by
  obtain ⟨out, rfl, hout⟩ := path_taAttachToTangle h
  have hlabels := congrArg (List.map label) hout
  simp only [List.map_map, Function.comp_def, label_unattached] at hlabels
  rw [labelsOf_serialize L, labelsOf]
  exact hlabels

/-! ## The results -/

section Results

variable {info : TaConfig} {iconf : IotaConfig}

/-- The parts of a successful `ta_send_trytes`. -/
theorem taSendTrytes_parts {trytes attached : List Hash8019}
    (h : Path (taSendTrytes I info iconf trytes).run τ (.ok attached)) :
    ∃ tips τ₁ τ₂, τ = τ₁ ++ (τ₂ ++ [⟨.storeAndBroadcast attached, true⟩]) ∧
      Path (transactionsToApprove I info iconf).run τ₁ (.ok tips) ∧
      Path (taAttachToTangle I trytes tips iconf.mwm).run τ₂ (.ok attached) := by
  rw [taSendTrytes, path_run_bind_ok] at h
  obtain ⟨tips, τ₁, τ₂, rfl, htips, h⟩ := h
  rw [path_run_bind_ok] at h
  obtain ⟨attached', τ₃, τ₄, rfl, hattach, h⟩ := h
  rw [path_run_request_bind] at h
  obtain ⟨ok, τ₅, rfl, h⟩ := h
  rw [path_run_bind_ok] at h
  obtain ⟨_, τ₆, τ₇, rfl, hensure, h⟩ := h
  obtain ⟨rfl, hres⟩ := (path_run_pure ..).mp h
  cases hres
  obtain ⟨rfl, hok⟩ := (path_run_ensure ..).mp hensure
  cases ok with
  | false => cases hok
  | true => exact ⟨tips, τ₁, τ₃, rfl, htips, hattach⟩

/-- The trytes `ta_send_trytes` returns are what the node has accepted. -/
theorem path_taSendTrytes {trytes attached : List Hash8019}
    (h : Path (taSendTrytes I info iconf trytes).run τ (.ok attached)) :
    stored τ = [attached] ∧
      ∃ tips τ', Path (taAttachToTangle I trytes tips iconf.mwm).run τ' (.ok attached) := by
  obtain ⟨tips, τ₁, τ₂, rfl, htips, hattach⟩ := taSendTrytes_parts h
  have hnothing₁ := stored_eq_nil
    ((uses_transactionsToApprove (fun _ => Cmd.Attaches.storesNothing) I info iconf).path htips)
  have hnothing₂ := stored_eq_nil ((uses_taAttachToTangle (fun _ => Cmd.Attaches.storesNothing) I
    trytes tips iconf.mwm).path hattach)
  refine ⟨?_, tips, τ₂, hattach⟩
  rw [stored_append, stored_append, hnothing₁, hnothing₂]
  rfl

/-- Nothing was accepted where `ta_send_trytes` failed. -/
theorem path_taSendTrytes_error {trytes : List Hash8019} {e : Status}
    (h : Path (taSendTrytes I info iconf trytes).run τ (.error e)) : stored τ = [] := by
  have hquiet₁ := uses_transactionsToApprove (fun _ => Cmd.Attaches.storesNothing) I info iconf
  rw [taSendTrytes, path_run_bind] at h
  rcases h with ⟨_, -, h⟩ | ⟨tips, τ₁, τ₂, rfl, htips, h⟩
  · exact stored_eq_nil (hquiet₁.path h)
  · have hquiet₂ := uses_taAttachToTangle (fun _ => Cmd.Attaches.storesNothing) I trytes tips
      iconf.mwm
    rw [stored_append, stored_eq_nil (hquiet₁.path htips), List.nil_append]
    rw [path_run_bind] at h
    rcases h with ⟨_, -, h⟩ | ⟨attached, τ₃, τ₄, rfl, hattach, h⟩
    · exact stored_eq_nil (hquiet₂.path h)
    · rw [stored_append, stored_eq_nil (hquiet₂.path hattach), List.nil_append]
      rw [path_run_request_bind] at h
      obtain ⟨ok, τ₅, rfl, h⟩ := h
      rw [path_run_bind] at h
      rcases h with ⟨_, -, h⟩ | ⟨_, τ₆, τ₇, rfl, -, h⟩
      · obtain ⟨rfl, hok⟩ := (path_run_ensure ..).mp h
        cases ok with
        | true => cases hok
        | false => rfl
      · obtain ⟨-, hres⟩ := (path_run_pure ..).mp h
        cases hres

/-- `ta_send_bundle` keeps the status of `ta_send_trytes` to itself. -/
theorem path_taSendBundle {bundle sent : List Transaction}
    (h : Path (taSendBundle I info iconf bundle).run τ (.ok sent)) :
    sent = I.finalize bundle ∧
      ∃ r, Path (taSendTrytes I info iconf ((I.finalize bundle).map I.serialize)).run τ r := by
  rw [taSendBundle, path_run_attempt_bind] at h
  obtain ⟨r, τ₁, τ₂, rfl, hsend, h⟩ := h
  obtain ⟨rfl, hres⟩ := (path_run_pure ..).mp h
  cases hres
  rw [List.append_nil]
  exact ⟨rfl, r, hsend⟩

/-- The node has accepted a bundle exactly where no call of its sending failed. -/
theorem taSendBundle_stored_iff {bundle sent : List Transaction} (hne : I.finalize bundle ≠ [])
    (h : Path (taSendBundle I info iconf bundle).run τ (.ok sent)) :
    stored τ ≠ [] ↔ ∀ e ∈ τ, SendFails e = false := by
  obtain ⟨-, r, hsend⟩ := path_taSendBundle h
  cases r with
  | error e =>
      rw [path_taSendTrytes_error hsend]
      refine iff_of_false (fun hnil => hnil rfl) fun hall => ?_
      have hne' : (I.finalize bundle).map I.serialize ≠ [] := by
        rwa [Ne, List.map_eq_nil_iff]
      obtain ⟨a, ha⟩ := failsOnlyAt_taSendTrytes hne' _ _ hsend hall
      cases ha
  | ok attached =>
      rw [(path_taSendTrytes hsend).1]
      exact iff_of_true (List.cons_ne_nil _ _) (failsAt_taSendTrytes _ _ hsend)

/-- What the node has accepted has the labels of the bundle. -/
theorem taSendBundle_labels (L : IotaLabels I) {bundle sent : List Transaction}
    (hbundle : bundle ≠ []) (hgood : ∀ e ∈ τ, SendFails e = false)
    (h : Path (taSendBundle I info iconf bundle).run τ (.ok sent)) :
    ∃ attached, stored τ = [attached] ∧ labelsOf I attached = bundle.map label := by
  have hne : I.finalize bundle ≠ [] := by
    intro hnil
    have hlabels := L.finalize bundle
    rw [hnil, List.map_nil, eq_comm, List.map_eq_nil_iff] at hlabels
    exact hbundle hlabels
  have hstored := (taSendBundle_stored_iff hne h).mpr hgood
  obtain ⟨-, r, hsend⟩ := path_taSendBundle h
  cases r with
  | error e => exact absurd (path_taSendTrytes_error hsend) hstored
  | ok attached =>
      obtain ⟨hstored, tips, τ', hattach⟩ := path_taSendTrytes hsend
      refine ⟨attached, hstored, ?_⟩
      rw [labelsOf_taAttachToTangle L hattach, labelsOf_serialize L, L.finalize]

end Results

end TangleAccelerator
