import TangleAccelerator.Buffer.Attach
import TangleAccelerator.Tangle.Chain

/-!
# Trytes that are sent

`ta_send_trytes` is called with an array of serialized transactions that its caller goes on to
use: `ta_send_transfer` buffers it after a failure, and `api_send_trytes` answers with it after a
success.  `taSendTrytesArray` is the function with that array, `taSendTrytesArray_eq` connects it
to `taSendTrytes`, which only has the attached trytes.

What is sent is the attached form of what was given exactly where the proof of work has reached
every transaction.
-/

namespace TangleAccelerator

open Effect

variable {I : Iota} {info : TaConfig} {iconf : IotaConfig} {τ : List (Event sig)}

/-! ## The array -/

/-- The loop that copies an array, one element after the other. -/
def pushEach : List Hash8019 → List Hash8019 → List Hash8019
  | arr, [] => arr
  | arr, elt :: rest => pushEach (arr ++ [elt]) rest

/-- The loop that fills an array again, by index. -/
def pushFrom (src arr : List Hash8019) (len : Nat) : List Hash8019 :=
  (List.range len).foldl (fun arr i => arr ++ src[i]?.toList) arr

theorem pushEach_eq (arr src : List Hash8019) : pushEach arr src = arr ++ src := by
  induction src generalizing arr with
  | nil => rw [pushEach, List.append_nil]
  | cons elt rest ih => rw [pushEach, ih, List.append_assoc, List.singleton_append]

theorem pushFrom_eq (src arr : List Hash8019) (len : Nat) :
    pushFrom src arr len = arr ++ src.take len := by
  induction len with
  | zero => simp [pushFrom]
  | succ len ih =>
      rw [pushFrom, List.range_succ, List.foldl_append, List.foldl_cons, List.foldl_nil, ← pushFrom,
        ih, List.take_add_one, List.append_assoc]

/-- `ta_send_trytes` with the array it is given: its status, and the array afterwards. -/
def taSendTrytesArray (I : Iota) (info : TaConfig) (iconf : IotaConfig) (trytes : List Hash8019) :
    Prog sig (Except Status Unit × List Hash8019) := do
  match ← (transactionsToApprove I info iconf).run with
  | .error e => pure (.error e, trytes)
  | .ok tips => do
      match ← (taAttachToTangle I (pushEach [] trytes) tips iconf.mwm).run with
      | .error e => pure (.error e, trytes)
      | .ok attached => do
          match ← command (S := sig) (.storeAndBroadcast attached) with
          | false => pure (.error .cclientFailedResponse, trytes)
          | true => pure (.ok (), pushFrom attached [] attached.length)

/-- The array is replaced by the attached trytes where the call succeeds, and only there. -/
theorem taSendTrytesArray_eq (trytes : List Hash8019) :
    taSendTrytesArray I info iconf trytes =
      (taSendTrytes I info iconf trytes).run >>= fun r =>
        pure (r.map fun _ => (), r.toOption.getD trytes) := by
  rw [taSendTrytesArray, taSendTrytes, ExceptT.run_bind, bind_assoc, pushEach_eq, List.nil_append]
  congr 1
  funext tips
  cases tips with
  | error e => rfl
  | ok tips =>
      dsimp only
      rw [ExceptT.run_bind, bind_assoc]
      congr 1
      funext attached
      cases attached with
      | error e => rfl
      | ok attached =>
          dsimp only
          rw [pushFrom_eq, List.nil_append, List.take_length]
          refine congrArg (Prog.call (S := sig) (.storeAndBroadcast attached)) (funext fun ok => ?_)
          cases ok with
          | false => rfl
          | true => rfl

/-! ## The calls of sending -/

@[simp] theorem nonceCalls_append (τ₁ τ₂ : List (Event sig)) :
    nonceCalls (τ₁ ++ τ₂) = nonceCalls τ₁ ++ nonceCalls τ₂ :=
  List.filterMap_append

theorem nonceCalls_serializeBundle {txs : List Transaction} {raw : List Hash8019}
    (h : Path (serializeBundle I txs).run τ (.ok raw)) : nonceCalls τ = [] := by
  induction txs generalizing τ raw with
  | nil =>
      obtain ⟨rfl, -⟩ := (path_run_pure ..).mp h
      rfl
  | cons tx txs ih =>
      rw [serializeBundle, path_run_request_bind] at h
      obtain ⟨ok, τ₁, rfl, h⟩ := h
      rw [path_run_bind_ok] at h
      obtain ⟨_, τ₂, τ₃, rfl, hensure, h⟩ := h
      obtain ⟨rfl, -⟩ := (path_run_ensure ..).mp hensure
      rw [path_run_bind_ok] at h
      obtain ⟨trytes, τ₄, τ₅, rfl, hrest, h⟩ := h
      obtain ⟨rfl, -⟩ := (path_run_pure ..).mp h
      rw [List.append_nil, List.nil_append]
      exact (List.filterMap_cons_none rfl).trans (ih hrest)

/-- The trunk and branch a call of `ta_send_trytes` attaches to: what the node answered in this
call, or what a new response holds. -/
def TipsOf (I : Iota) (info : TaConfig) (iconf : IotaConfig) (τ : List (Event sig))
    (tips : Hash243 × Hash243) : Prop :=
  if info.gtta then
    (⟨.getTransactionsToApprove iconf.milestoneDepth, some tips⟩ : Event sig) ∈ τ
  else
    tips = I.freshTips

theorem path_transactionsToApprove {tips : Hash243 × Hash243}
    (h : Path (transactionsToApprove I info iconf).run τ (.ok tips)) :
    TipsOf I info iconf τ tips ∧ nonceCalls τ = [] := by
  rw [transactionsToApprove] at h
  rw [TipsOf]
  split at h
  · rename_i hgtta
    rw [if_pos hgtta]
    rw [path_run_request_bind] at h
    obtain ⟨ans, τ₁, rfl, h⟩ := h
    obtain ⟨rfl, hans⟩ := (path_run_settle ..).mp h
    cases ans with
    | none => cases hans
    | some tips' =>
        cases hans
        exact ⟨List.mem_cons_self .., rfl⟩
  · rename_i hgtta
    rw [if_neg hgtta]
    obtain ⟨rfl, htips⟩ := (path_run_pure ..).mp h
    exact ⟨Except.ok.inj htips, rfl⟩

theorem TipsOf.append {tips : Hash243 × Hash243} (h : TipsOf I info iconf τ tips)
    (ρ : List (Event sig)) : TipsOf I info iconf (τ ++ ρ) tips := by
  unfold TipsOf at h ⊢
  split
  · rename_i hgtta
    rw [if_pos hgtta] at h
    exact List.mem_append_left _ h
  · rename_i hgtta
    rwa [if_neg hgtta] at h

/-! ## What is sent -/

/-- What is sent is the attached form of what was given, attached in this call: to its tips, with
nonces of its own calls of `ta_pow_flex`. -/
def SentAttached (I : Iota) (info : TaConfig) (iconf : IotaConfig) (τ : List (Event sig))
    (trytes sent : List Hash8019) : Prop :=
  ∃ tips out, TipsOf I info iconf τ tips ∧ sent = out.map I.serialize ∧
    Attached I tips.1 tips.2 iconf.mwm τ (trytes.map (I.deserialize · true)) out

/-- What is sent is attached exactly where the walk over the bundle reaches its front. -/
theorem sentAttached_iff {trytes sent : List Hash8019} {last : Hash8019}
    (hlast : trytes.getLast? = some last)
    (h : Path (taSendTrytes I info iconf trytes).run τ (.ok sent)) :
    SentAttached I info iconf τ trytes sent ↔
      (trytes.length : Int) ≤ (I.deserialize last true).lastIndex.toInt % 2 ^ 64 + 1 := by
  obtain ⟨tips, τ₁, τ₂, rfl, htips, hattach⟩ := taSendTrytes_parts h
  obtain ⟨htipsOf, hcalls₁⟩ := path_transactionsToApprove htips
  rw [taAttachToTangle, path_run_bind_ok] at hattach
  obtain ⟨out, τ₃, τ₄, rfl, hpow, hser⟩ := hattach
  have hcalls : nonceCalls (τ₁ ++ (τ₃ ++ τ₄ ++ [⟨.storeAndBroadcast sent, true⟩])) =
      nonceCalls τ₃ := by
    rw [nonceCalls_append, hcalls₁, nonceCalls_append, nonceCalls_append,
      nonceCalls_serializeBundle hser, List.nil_append, List.append_nil]
    exact List.append_nil _
  have hlast' : (trytes.map (I.deserialize · true)).getLast? = some (I.deserialize last true) := by
    rw [List.getLast?_map, hlast]
    rfl
  have hpasses := passes_lastIndex (I.deserialize last true).lastIndex
  constructor
  · intro hsent
    obtain ⟨tips', out', -, -, hattached⟩ := hsent
    -- one call for each transaction, and one for each pass
    have hlen := hattached.length_nonceCalls
    rw [hcalls, length_nonceCalls_taPow hlast' hpow, List.length_map] at hlen
    omega
  · intro hle
    have hreach : (trytes.map (I.deserialize · true)).length ≤
        passes ((I.deserialize last true).lastIndex.toUInt64 + 1) := by
      rw [List.length_map]
      omega
    have hattached := attached_of_passes hlast' hreach hpow
    refine ⟨tips, out, htipsOf.append _, path_serializeBundle hser, ?_⟩
    exact { hattached with nonces := hcalls.trans hattached.nonces }

/-- If `ta_send_trytes` succeeds, the node has accepted what it returns, and that is attached
exactly where the last index of the last transaction, as a `size_t`, is at least the number of
transactions before it. -/
theorem taSendTrytes_attached_iff {trytes sent : List Hash8019} {last : Hash8019}
    (hlast : trytes.getLast? = some last)
    (h : Path (taSendTrytes I info iconf trytes).run τ (.ok sent)) :
    stored τ = [sent] ∧ (SentAttached I info iconf τ trytes sent ↔
      (trytes.length : Int) ≤ (I.deserialize last true).lastIndex.toInt % 2 ^ 64 + 1) :=
  ⟨(path_taSendTrytes h).1, sentAttached_iff hlast h⟩

theorem taSendTrytes_attached_one : ∃ τ sent,
    Path (taSendTrytes Sample.iota Sample.core.taConf Sample.core.iotaConf [Sample.trytes]).run τ
      (.ok sent) ∧
    SentAttached Sample.iota Sample.core.taConf Sample.core.iotaConf τ [Sample.trytes] sent := by
  have hrun := path_exec (V := world)
    (taSendTrytes Sample.iota Sample.core.taConf Sample.core.iotaConf [Sample.trytes]).run
    (fun _ => Sample.good) Sample.buffered
  exact ⟨_, _, hrun, (taSendTrytes_attached_iff rfl hrun).2.mpr (by decide)⟩

/-- Two transactions with the last index `0`: both are broadcast, and only the last one was worked
on.  The first goes out as it came. -/
theorem taSendTrytes_front_as_sent : ∃ τ worked,
    Path (taSendTrytes Sample.iota Sample.core.taConf Sample.core.iotaConf
      [Sample.trytes, Sample.trytes]).run τ
      (.ok [Sample.iota.serialize (Sample.iota.deserialize Sample.trytes true), worked]) ∧
    (nonceCalls τ).length = 1 ∧
    ¬ SentAttached Sample.iota Sample.core.taConf Sample.core.iotaConf τ
      [Sample.trytes, Sample.trytes]
      [Sample.iota.serialize (Sample.iota.deserialize Sample.trytes true), worked] := by
  have hrun := path_exec (V := world)
    (taSendTrytes Sample.iota Sample.core.taConf Sample.core.iotaConf
      [Sample.trytes, Sample.trytes]).run (fun _ => Sample.good) Sample.buffered
  refine ⟨_, _, hrun, rfl, ?_⟩
  rintro ⟨tips, out, -, -, hattached⟩
  exact absurd hattached.length_nonceCalls (by decide)

/-! ## What becomes of the array -/

theorem path_taSendTrytesArray {trytes arr : List Hash8019} {st : Except Status Unit}
    (h : Path (taSendTrytesArray I info iconf trytes) τ (st, arr)) :
    (∃ e, st = .error e ∧ arr = trytes) ∨
      st = .ok () ∧ Path (taSendTrytes I info iconf trytes).run τ (.ok arr) := by
  rw [taSendTrytesArray_eq, path_bind] at h
  obtain ⟨r, τ₁, τ₂, rfl, hsend, h⟩ := h
  obtain ⟨rfl, hres⟩ := (path_pure ..).mp h
  rw [List.append_nil]
  cases r with
  | error e =>
      cases hres
      exact Or.inl ⟨e, rfl, rfl⟩
  | ok attached =>
      cases hres
      exact Or.inr ⟨rfl, hsend⟩

/-- `ta_pow` refuses an empty bundle. -/
theorem taAttachToTangle_ne_nil {trytes attached : List Hash8019} {tips : Hash243 × Hash243}
    {mwm : Nat} (h : Path (taAttachToTangle I trytes tips mwm).run τ (.ok attached)) :
    trytes ≠ [] := by
  rintro rfl
  rw [taAttachToTangle, path_run_bind_ok] at h
  obtain ⟨out, τ₁, τ₂, -, hpow, -⟩ := h
  rw [taPow, path_run_bind_ok] at hpow
  obtain ⟨tx, τ₃, τ₄, -, hdemand, -⟩ := hpow
  cases ((path_run_settle ..).mp hdemand).2

/-- A failure leaves the array as it was.  A success leaves an array of the same length, which is
what the node has accepted, and its elements are the attached forms of what was there exactly where
the last index of the last transaction, as a `size_t`, is at least the number of transactions
before it. -/
theorem taSendTrytesArray_result {trytes arr : List Hash8019} {st : Except Status Unit}
    (h : Path (taSendTrytesArray I info iconf trytes) τ (st, arr)) :
    (∀ e, st = .error e → arr = trytes) ∧
      (st = .ok () → arr.length = trytes.length ∧ stored τ = [arr] ∧
        (SentAttached I info iconf τ trytes arr ↔ ∀ last ∈ trytes.getLast?,
          (trytes.length : Int) ≤ (I.deserialize last true).lastIndex.toInt % 2 ^ 64 + 1)) := by
  rcases path_taSendTrytesArray h with ⟨e, rfl, rfl⟩ | ⟨rfl, hsend⟩
  · exact ⟨fun _ _ => rfl, fun hok => by cases hok⟩
  · refine ⟨fun e he => (by cases he), fun _ => ?_⟩
    obtain ⟨hstored, tips, τ', hattach⟩ := path_taSendTrytes hsend
    obtain ⟨out, hout, hmap⟩ := path_taAttachToTangle hattach
    have hlen := congrArg List.length hmap
    rw [List.length_map, List.length_map] at hlen
    refine ⟨by rw [hout, List.length_map, hlen], hstored, ?_⟩
    cases hlast : trytes.getLast? with
    | none =>
        rw [List.getLast?_eq_none_iff] at hlast
        exact absurd hlast (taAttachToTangle_ne_nil hattach)
    | some last =>
        rw [sentAttached_iff hlast hsend]
        simp

theorem taSendTrytesArray_result_one : ∃ τ arr,
    Path (taSendTrytesArray Sample.iota Sample.core.taConf Sample.core.iotaConf [Sample.trytes]) τ
      (.ok (), arr) ∧ arr.length = 1 ∧ stored τ = [arr] ∧
    SentAttached Sample.iota Sample.core.taConf Sample.core.iotaConf τ [Sample.trytes] arr := by
  have hrun := path_exec (V := world)
    (taSendTrytesArray Sample.iota Sample.core.taConf Sample.core.iotaConf [Sample.trytes])
    (fun _ => Sample.good) Sample.buffered
  obtain ⟨hlen, hstored, hiff⟩ := (taSendTrytesArray_result hrun).2 rfl
  refine ⟨_, _, hrun, hlen, hstored, hiff.mpr ?_⟩
  intro last hlast
  cases hlast
  decide

/-- The array of two transactions with the last index `0` is replaced by one whose first element
is not the attached form of the first transaction. -/
theorem taSendTrytesArray_unattached : ∃ τ arr,
    Path (taSendTrytesArray Sample.iota Sample.core.taConf Sample.core.iotaConf
      [Sample.trytes, Sample.trytes]) τ (.ok (), arr) ∧
    arr.length = 2 ∧ (nonceCalls τ).length = 1 ∧
    ¬ SentAttached Sample.iota Sample.core.taConf Sample.core.iotaConf τ
      [Sample.trytes, Sample.trytes] arr := by
  have hrun := path_exec (V := world)
    (taSendTrytesArray Sample.iota Sample.core.taConf Sample.core.iotaConf
      [Sample.trytes, Sample.trytes]) (fun _ => Sample.good) Sample.buffered
  refine ⟨_, _, hrun, rfl, rfl, ?_⟩
  rintro ⟨tips, out, -, -, hattached⟩
  exact absurd hattached.length_nonceCalls (by decide)

end TangleAccelerator
