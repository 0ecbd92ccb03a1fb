import TangleAccelerator.Buffer.Handover

/-!
# The attachment chain

`ta_pow` walks a bundle backwards and carries a hash.  A pass sets the trunk of a transaction to
the carried hash, works on the serialized transaction, sets the nonce, and carries on with the
digest of the transaction it has just finished.  `Walk` is a sequence of passes with the calls
they make, and `path_taPowLoop_walk` says which passes the loop makes: one for each transaction,
or fewer where the counter reaches zero first.

The counter starts from the last index of the last transaction, which is data of the client.  It
is a `size_t`, so a bundle is walked to its front exactly where that index, read as a `size_t`, is
at least the number of transactions before it.  Where it is smaller the transactions at the front
are serialized and broadcast as they came.
-/

namespace TangleAccelerator

open Effect

variable {I : Iota} {trunk branch : Hash243} {mwm : Nat} {τ : List (Event sig)}

/-! ## The passes of the loop -/

/-- A transaction as a pass of `ta_pow` leaves it.  `ret` is what `dcurl_entry` returned. -/
def worked (tx : Transaction) (trunk branch : Hash243) (timestamp : Nat) (ret : Hash8019) :
    Transaction :=
  { setAttachment tx trunk branch timestamp with nonce := nonceOf ret }

/-- `Walk I branch mwm trunk txs τ ws`: the passes over `txs` make the calls `τ` and leave `ws`.
The first of `txs` is attached to `trunk`. -/
inductive Walk (I : Iota) (branch : Hash243) (mwm : Nat) :
    Hash243 → List Transaction → List (Event sig) → List Transaction → Prop where
  | stop (trunk : Hash243) : Walk I branch mwm trunk [] [] []
  | pass {trunk : Hash243} {tx : Transaction} {txs ws : List Transaction} {τ : List (Event sig)}
      (timestamp : Nat) (ret : Hash8019)
      (rest : Walk I branch mwm (I.digest (I.serialize (worked tx trunk branch timestamp ret)))
        txs τ ws) :
      Walk I branch mwm trunk (tx :: txs)
        (⟨.currentTimestampMs, timestamp⟩ ::
          ⟨.transactionSerialize (setAttachment tx trunk branch timestamp), true⟩ ::
          ⟨.dcurlEntry (I.serialize (setAttachment tx trunk branch timestamp)) mwm, some ret⟩ :: τ)
        (worked tx trunk branch timestamp ret :: ws)

/-- How many passes the loop makes at most, when its counter is `cur` before the first. -/
def passes (cur : UInt64) : Nat := (cur - 1).toNat + 1

theorem passes_of_last {cur : UInt64} (h : cur - 1 = 0) : passes cur = 1 := by
  rw [passes, h]
  rfl

theorem passes_of_next {cur : UInt64} (h : cur - 1 ≠ 0) : passes cur = passes (cur - 1) + 1 := by
  have hpos : (cur - 1).toNat ≠ 0 := fun h0 => h (UInt64.toNat_inj.mp h0)
  have hsub := UInt64.toNat_sub (cur - 1) 1
  have hlt := (cur - 1).toNat_lt
  rw [UInt64.toNat_one] at hsub
  rw [passes, passes]
  omega

/-- The passes from a last index: the index as a `size_t`, and one more. -/
theorem passes_lastIndex (L : Int64) :
    (passes (L.toUInt64 + 1) : Int) = L.toInt % 2 ^ 64 + 1 := by
  have hsub : L.toUInt64 + 1 - 1 = L.toUInt64 := UInt64.add_sub_cancel _ _
  have hint : L.toInt = _ := BitVec.toInt_eq_toNat_cond L.toBitVec
  have hlt := L.toBitVec.isLt
  change _ = L.toInt % 2 ^ 64 + 1
  rw [passes, hsub, hint]
  change ((L.toBitVec.toNat + 1 : Nat) : Int) = _
  push_cast
  split <;> omega

/-- A proof of work that succeeds is one answered call. -/
theorem path_demand_taPowFlex {α : Type} {trits : Hash8019} {e : Status}
    {k : Option Hash81 → Hash81 → Proc α} {b : α}
    (h : Path (taPowFlex trits mwm >>= fun ret => demand ret e >>= k ret).run τ (.ok b)) :
    ∃ ret τ', τ = ⟨.dcurlEntry trits mwm, some ret⟩ :: τ' ∧
      Path (k (some (nonceOf ret)) (nonceOf ret)).run τ' (.ok b) := by
  rw [path_run_bind_ok] at h
  obtain ⟨nonce, τ₁, τ₂, rfl, hflex, h⟩ := h
  rw [taPowFlex, path_run_request_bind] at hflex
  obtain ⟨ret, τ₃, rfl, hpure⟩ := hflex
  obtain ⟨rfl, hnonce⟩ := (path_run_pure ..).mp hpure
  rw [Except.ok.inj hnonce, path_run_bind_ok] at h
  obtain ⟨a, τ₄, τ₅, rfl, hdemand, h⟩ := h
  obtain ⟨rfl, ha⟩ := (path_run_settle ..).mp hdemand
  cases ret with
  | none =>
      rw [Option.map_none, Option.elim_none] at ha
      cases ha
  | some ret =>
      rw [Except.ok.inj ha] at h
      exact ⟨ret, τ₅, rfl, h⟩

/-- The passes the loop makes: one for each transaction that is left, up to the counter. -/
theorem path_taPowLoop_walk {txs done out : List Transaction} {cur : UInt64}
    (h : Path (taPowLoop I branch mwm txs cur trunk done).run τ (.ok out)) :
    ∃ ws, Walk I branch mwm trunk (txs.take (passes cur)) τ ws ∧
      out = (txs.drop (passes cur)).reverse ++ (ws.reverse ++ done) := by
  induction txs generalizing cur trunk done τ with
  | nil =>
      obtain ⟨rfl, hout⟩ := (path_run_pure ..).mp h
      cases hout
      rw [List.take_nil]
      exact ⟨[], .stop trunk, by simp⟩
  | cons tx txs ih =>
      rw [taPowLoop, path_run_request_bind] at h
      obtain ⟨timestamp, τ₁, rfl, h⟩ := h
      rw [path_run_request_bind] at h
      obtain ⟨ok, τ₂, rfl, h⟩ := h
      rw [path_run_bind_ok] at h
      obtain ⟨_, τ₃, τ₄, rfl, hensure, h⟩ := h
      obtain ⟨rfl, hok⟩ := (path_run_ensure ..).mp hensure
      obtain ⟨ret, τ₅, rfl, hnext⟩ := path_demand_taPowFlex h
      cases ok with
      | false => cases hok
      | true =>
          dsimp only at hnext
          split at hnext
          · rename_i hlast
            obtain ⟨rfl, hout⟩ := (path_run_pure ..).mp hnext
            cases hout
            rw [passes_of_last hlast]
            exact ⟨_, .pass timestamp ret (.stop _), by simp [worked]⟩
          · rename_i hcur
            obtain ⟨ws, hwalk, rfl⟩ := ih hnext
            rw [passes_of_next hcur]
            exact ⟨_, .pass timestamp ret hwalk, by simp [worked]⟩

/-! ## What the passes leave -/

/-- The second transaction is the first with another trunk, branch, attachment timestamps and
nonce. -/
def OnlyAttachment (tx tx' : Transaction) : Prop :=
  tx = { tx' with
    trunk := tx.trunk
    branch := tx.branch
    attachmentTimestamp := tx.attachmentTimestamp
    attachmentTimestampLower := tx.attachmentTimestampLower
    attachmentTimestampUpper := tx.attachmentTimestampUpper
    nonce := tx.nonce }

/-- What a call of `ta_pow_flex` was given, and the nonce it returned. -/
def nonceCall : Event sig → Option (Hash8019 × Nat × Hash81)
  | ⟨.dcurlEntry trits mwm, some ret⟩ => some (trits, mwm, nonceOf ret)
  | _ => none

/-- The calls of `ta_pow_flex` that returned a nonce. -/
def nonceCalls (τ : List (Event sig)) : List (Hash8019 × Nat × Hash81) := τ.filterMap nonceCall

/-- The call that belongs to a transaction: its serialized form before the nonce was set, and the
nonce it has now. -/
def ownCall (I : Iota) (mwm : Nat) (p : Transaction × Transaction) : Hash8019 × Nat × Hash81 :=
  (I.serialize { p.2 with nonce := p.1.nonce }, mwm, p.2.nonce)

/-- The bundle `out` is `bundle`, attached by the calls `τ`. -/
structure Attached (I : Iota) (trunk branch : Hash243) (mwm : Nat) (τ : List (Event sig))
    (bundle out : List Transaction) : Prop where
  /-- The last transaction is attached to the trunk. -/
  tip : ∀ tx ∈ out.getLast?, tx.trunk = trunk
  /-- Every other one is attached to the one after it, in its final form. -/
  link : ∀ i (h : i + 1 < out.length), (out[i]).trunk = I.digest (I.serialize out[i + 1])
  /-- Every transaction has the branch, and nothing else has changed. -/
  each : List.Forall₂ (fun tx tx' => tx'.branch = branch ∧ OnlyAttachment tx tx') bundle out
  /-- Every transaction has the nonce of its own call, and there are no other calls. -/
  nonces : nonceCalls τ = (bundle.zip out).reverse.map (ownCall I mwm)

/-- An attached bundle took one call of `ta_pow_flex` for each of its transactions. -/
theorem Attached.length_nonceCalls {bundle out : List Transaction}
    (h : Attached I trunk branch mwm τ bundle out) : (nonceCalls τ).length = bundle.length := by
  rw [h.nonces, List.length_map, List.length_reverse, List.length_zip, ← h.each.length_eq,
    Nat.min_self]

namespace Walk

variable {txs ws : List Transaction}

theorem length_eq (h : Walk I branch mwm trunk txs τ ws) : ws.length = txs.length := by
  induction h with
  | stop trunk => rfl
  | pass timestamp ret rest ih => rw [List.length_cons, List.length_cons, ih]

theorem each (h : Walk I branch mwm trunk txs τ ws) :
    List.Forall₂ (fun tx tx' => tx'.branch = branch ∧ OnlyAttachment tx tx') txs ws := by
  induction h with
  | stop trunk => exact .nil
  | pass timestamp ret rest ih => exact .cons ⟨rfl, rfl⟩ ih

theorem head_trunk (h : Walk I branch mwm trunk txs τ ws) : ∀ w ∈ ws.head?, w.trunk = trunk := by
  cases h with
  | stop trunk => simp
  | pass timestamp ret rest =>
      intro w hw
      obtain rfl := Option.some.inj hw
      rfl

theorem link (h : Walk I branch mwm trunk txs τ ws) :
    ws.IsChain fun next tx => tx.trunk = I.digest (I.serialize next) := by
  induction h with
  | stop trunk => exact .nil
  | pass timestamp ret rest ih =>
      rw [List.isChain_cons]
      exact ⟨rest.head_trunk, ih⟩

theorem nonceCalls_eq (h : Walk I branch mwm trunk txs τ ws) :
    nonceCalls τ = (txs.zip ws).map (ownCall I mwm) := by
  induction h with
  | stop trunk => rfl
  | pass timestamp ret rest ih =>
      rw [List.zip_cons_cons, List.map_cons, ← ih]
      rfl

theorem length_nonceCalls (h : Walk I branch mwm trunk txs τ ws) :
    (nonceCalls τ).length = txs.length := by
  rw [h.nonceCalls_eq, List.length_map, List.length_zip, h.length_eq, Nat.min_self]

/-- The passes over a whole bundle attach it. -/
theorem attached {bundle : List Transaction} (h : Walk I branch mwm trunk bundle.reverse τ ws) :
    Attached I trunk branch mwm τ bundle ws.reverse where
  tip := by
    rw [List.getLast?_reverse]
    exact h.head_trunk
  link := by
    have hlink := h.link
    rw [← List.reverse_reverse ws, List.isChain_reverse, List.isChain_iff_getElem] at hlink
    exact hlink
  each := by
    have heach := h.each
    rwa [← List.reverse_reverse ws, List.forall₂_reverse_iff] at heach
  nonces := by
    have hlen : bundle.length = ws.reverse.length := by
      rw [List.length_reverse, h.length_eq, List.length_reverse]
    have hzip : (bundle.zip ws.reverse).reverse = bundle.reverse.zip ws.reverse.reverse :=
      List.reverse_zipWith hlen
    rw [h.nonceCalls_eq, hzip, List.reverse_reverse]

end Walk

/-! ## The walk of a bundle -/

/-- Where the bundle is walked to: as far as the last index of its last transaction says. -/
theorem path_taPow {bundle out : List Transaction} {last : Transaction}
    (hlast : bundle.getLast? = some last)
    (h : Path (taPow I bundle trunk branch mwm).run τ (.ok out)) :
    ∃ ws,
      Walk I branch mwm trunk (bundle.reverse.take (passes (last.lastIndex.toUInt64 + 1))) τ ws ∧
      out = (bundle.reverse.drop (passes (last.lastIndex.toUInt64 + 1))).reverse ++ ws.reverse := by
  rw [taPow, hlast, path_run_bind_ok] at h
  obtain ⟨tx, τ₁, τ₂, rfl, hdemand, h⟩ := h
  obtain ⟨rfl, htx⟩ := (path_run_settle ..).mp hdemand
  rw [Except.ok.inj htx] at h
  obtain ⟨ws, hwalk, hout⟩ := path_taPowLoop_walk h
  rw [List.append_nil] at hout
  exact ⟨ws, hwalk, hout⟩

/-- The walk makes one call of `ta_pow_flex` for each transaction it reaches. -/
theorem length_nonceCalls_taPow {bundle out : List Transaction} {last : Transaction}
    (hlast : bundle.getLast? = some last)
    (h : Path (taPow I bundle trunk branch mwm).run τ (.ok out)) :
    (nonceCalls τ).length = min (passes (last.lastIndex.toUInt64 + 1)) bundle.length := by
  obtain ⟨ws, hwalk, -⟩ := path_taPow hlast h
  rw [hwalk.length_nonceCalls, List.length_take, List.length_reverse]

/-- A bundle the walk reaches the front of is attached. -/
theorem attached_of_passes {bundle out : List Transaction} {last : Transaction}
    (hlast : bundle.getLast? = some last)
    (hpasses : bundle.length ≤ passes (last.lastIndex.toUInt64 + 1))
    (h : Path (taPow I bundle trunk branch mwm).run τ (.ok out)) :
    Attached I trunk branch mwm τ bundle out := by
  obtain ⟨ws, hwalk, rfl⟩ := path_taPow hlast h
  have hall : bundle.reverse.length ≤ passes (last.lastIndex.toUInt64 + 1) := by
    rwa [List.length_reverse]
  rw [List.take_of_length_le hall] at hwalk
  rw [List.drop_of_length_le hall, List.reverse_nil, List.nil_append]
  exact hwalk.attached

/-- If `ta_pow` succeeds on a bundle whose last transaction has the last index of the bundle, the
bundle is attached. -/
theorem taPow_attached {bundle out : List Transaction} {last : Transaction}
    (hlast : bundle.getLast? = some last)
    (hindex : last.lastIndex.toInt = (bundle.length : Int) - 1)
    (h : Path (taPow I bundle trunk branch mwm).run τ (.ok out)) :
    Attached I trunk branch mwm τ bundle out := by
  refine attached_of_passes hlast ?_ h
  have hpasses := passes_lastIndex last.lastIndex
  have hlt := last.lastIndex.toInt_lt
  omega

/-- A bundle of two transactions of zeros. -/
def Sample.pair : List Transaction := [{ txn with lastIndex := 1 }, { txn with lastIndex := 1 }]

theorem taPow_attached_pair : ∃ τ out,
    Path (taPow Sample.iota Sample.pair (Vector.replicate 81 1) (Vector.replicate 81 2) 14).run τ
      (.ok out) ∧
    Attached Sample.iota (Vector.replicate 81 1) (Vector.replicate 81 2) 14 τ Sample.pair out := by
  have hrun := path_exec (V := world)
    (taPow Sample.iota Sample.pair (Vector.replicate 81 1) (Vector.replicate 81 2) 14).run
    (fun _ => Sample.good) Sample.buffered
  exact ⟨_, _, hrun, taPow_attached rfl (by decide) hrun⟩

end TangleAccelerator
