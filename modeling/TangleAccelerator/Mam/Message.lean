import TangleAccelerator.Mam.Keys

/-!
# The course of a MAM send

A call of `ta_send_mam_message` that returns `SC_OK` has four phases: the library is set up, the
message is written, the bundles are sent, and the library is torn down.  `Course` names the
traces of these phases.  `SendsWritten` is the third one: the bundle of the message is handed to
`ta_send_bundle`, and after the last message of a channel also the bundle of an announcement.
-/

namespace TangleAccelerator

open Effect

variable {I : Iota} {M : MamLib} {τ : List (Event sig)} {info : TaConfig} {iconf : IotaConfig}

/-- The bundles that were handed to `ta_send_bundle`, each with the trace of its sending. -/
abbrev Sends := List (List Transaction × List (Event sig))

/-- How a written message is sent. -/
inductive SendsWritten (I : Iota) (info : TaConfig) (iconf : IotaConfig) (d : Nat)
    (keys : MamEncryptKey) (wr : Written M) : List (Event sig) → SendMamRes → Sends → Prop where
  | message {τ : List (Event sig)} {sent : List Transaction}
      (operation : wr.operation = .sendMessage)
      (send : Path (taSendBundle I info iconf wr.bundle).run τ (.ok sent)) :
      SendsWritten I info iconf d keys wr τ
        { chid := some wr.chid, msgId := some wr.msgId, bundleHash := sent.head?.map (·.bundle) }
        [(wr.bundle, τ)]
  | announced {τ₁ τ₂ : List (Event sig)} {sent announced : List Transaction}
      {announce : List Transaction} {ch : Hash243 × M.Api}
      (operation : wr.operation = .announceChid)
      (send : Path (taSendBundle I info iconf wr.bundle).run τ₁ (.ok sent))
      (create : ch = M.channelCreate wr.api d)
      (write : announce = (M.announceChannel ch.2 wr.chid ch.1 keys).1)
      (sendAnnounce : Path (taSendBundle I info iconf announce).run τ₂ (.ok announced)) :
      SendsWritten I info iconf d keys wr
        (τ₁ ++ ([⟨.mam .channelCreate, true⟩, ⟨.mam .announceChannel, true⟩] ++ τ₂))
        { chid := some wr.chid, msgId := some wr.msgId, bundleHash := sent.head?.map (·.bundle),
          chid1 := some ch.1, announcementBundleHash := announced.head?.map (·.bundle) }
        [(wr.bundle, τ₁), (announce, τ₂)]

theorem path_taMamWriteAnnounceToBundle {api : M.Api} {d : Nat} {chid : Hash243}
    {keys : MamEncryptKey} {announce : List Transaction × Hash243 × M.Api}
    (h : Path (taMamWriteAnnounceToBundle M api d chid keys).run τ (.ok announce)) :
    τ = [⟨.mam .channelCreate, true⟩, ⟨.mam .announceChannel, true⟩] ∧
      announce.1 = (M.announceChannel (M.channelCreate api d).2 chid
        (M.channelCreate api d).1 keys).1 ∧
      announce.2.1 = (M.channelCreate api d).1 := by
  rw [taMamWriteAnnounceToBundle, path_run_bind_ok] at h
  obtain ⟨ch, τ₁, τ₂, rfl, hcreate, h⟩ := h
  obtain ⟨rfl, rfl⟩ := path_channelCreate.mp hcreate
  rw [path_run_bind_ok] at h
  obtain ⟨_, τ₃, τ₄, rfl, hannounce, h⟩ := h
  obtain ⟨rfl, hres⟩ := (path_run_pure ..).mp h
  cases hres
  rw [path_mamCall.mp hannounce]
  exact ⟨rfl, rfl, rfl⟩

theorem path_sendWritten {d : Nat} {keys : MamEncryptKey} {wr : Written M} {res : SendMamRes}
    {api : M.Api} (h : Path (sendWritten I M info iconf d keys wr).run τ (.ok (res, api))) :
    ∃ sends, SendsWritten I info iconf d keys wr τ res sends := by
  rw [sendWritten, path_run_bind_ok] at h
  obtain ⟨sent, τ₁, τ₂, rfl, hsend, h⟩ := h
  rw [path_withApi] at hsend
  dsimp only at h
  split at h
  · rename_i hop
    obtain ⟨rfl, hres⟩ := (path_run_pure ..).mp h
    cases hres
    rw [List.append_nil]
    exact ⟨_, .message hop hsend⟩
  · rename_i hop
    rw [path_run_bind_ok] at h
    obtain ⟨announce, τ₃, τ₄, rfl, hwrite, h⟩ := h
    obtain ⟨rfl, hbundle, hchid1⟩ := path_taMamWriteAnnounceToBundle hwrite
    obtain ⟨bundle, chid1, api'⟩ := announce
    rw [path_run_bind_ok] at h
    obtain ⟨announced, τ₅, τ₆, rfl, hannounce, h⟩ := h
    obtain ⟨rfl, hres⟩ := (path_run_pure ..).mp h
    cases hres
    rw [path_withApi] at hannounce
    rw [List.append_nil, hchid1]
    exact ⟨_, .announced hop hsend rfl hbundle hannounce⟩

/-! ## The whole call -/

/-- The setup: the library state it leaves for a seed. -/
theorem path_taMamInit {seed : Option Hash243} {api : M.Api}
    (h : Path (taMamInit M iconf seed).run τ (.ok api)) :
    (∀ e ∈ τ, e.cmd.SetsUp) ∧ ∀ s, seed = some s → api = M.apiInit s := by
  refine ⟨(uses_taMamInit M (fun _ hc => hc) iconf seed).path h, ?_⟩
  rintro s rfl
  rw [taMamInit, path_run_request_bind] at h
  obtain ⟨ok, τ', rfl, h⟩ := h
  rw [path_run_bind_ok] at h
  obtain ⟨_, τ₁, τ₂, rfl, -, h⟩ := h
  obtain ⟨-, hres⟩ := (path_run_pure ..).mp h
  cases hres
  rfl

theorem path_mamDone {seed : Option Hash243} {api : M.Api} {ret : Except Status SendMamRes}
    {res : SendMamRes} (h : Path (mamDone M seed api ret).run τ (.ok res)) :
    (∀ e ∈ τ, e.cmd.SetsUp) ∧ ret = .ok res := by
  refine ⟨(uses_mamDone M (fun _ hc => hc) seed api ret).path h, ?_⟩
  unfold mamDone at h
  split at h
  · cases ((path_run_throw ..).mp h).2
  · rw [path_run_bind_ok] at h
    obtain ⟨saved, τ₁, τ₂, rfl, -, h⟩ := h
    rw [path_run_request_bind] at h
    obtain ⟨destroyed, τ₃, rfl, h⟩ := h
    obtain ⟨-, hres⟩ := (path_run_settle ..).mp h
    cases destroyed with
    | false => cases hres
    | true =>
        cases saved with
        | false => cases hres
        | true => exact hres.symm

/-- The phases of a call that returns `SC_OK`. -/
inductive Course (I : Iota) (M : MamLib) (fuel : Nat) (info : TaConfig) (iconf : IotaConfig)
    (req : SendMamReq) : List (Event sig) → Option SendMamRes → Sends → Prop where
  /-- The model of the loop over the channels ran out of fuel. -/
  | outOfFuel {api : M.Api} {keys : MamEncryptKey} {payload : String} {τ₀ τ₁ : List (Event sig)}
      (init : ∀ s, req.seed = some s → api = M.apiInit s) (before : ∀ e ∈ τ₀, e.cmd.SetsUp)
      (write : Path (taMamWrittenMsgToBundle M fuel api req.chMssDepth req.chid keys payload).run
        τ₁ (.ok none)) :
      Course I M fuel info iconf req (τ₀ ++ τ₁) none []
  | sent {api : M.Api} {keys : MamEncryptKey} {payload : String} {wr : Written M}
      {res : SendMamRes} {sends : Sends} {τ₀ τ₁ τ₂ τ₃ : List (Event sig)}
      (init : ∀ s, req.seed = some s → api = M.apiInit s) (before : ∀ e ∈ τ₀, e.cmd.SetsUp)
      (write : Path (taMamWrittenMsgToBundle M fuel api req.chMssDepth req.chid keys payload).run
        τ₁ (.ok (some wr)))
      (send : SendsWritten I info iconf req.chMssDepth.toNat keys wr τ₂ res sends)
      (after : ∀ e ∈ τ₃, e.cmd.SetsUp) :
      Course I M fuel info iconf req (τ₀ ++ (τ₁ ++ (τ₂ ++ τ₃))) (some res) sends

/-- The keys and the time come before the message is written. -/
theorem path_sendMamBody {fuel : Nat} {req : SendMamReq} {api api' : M.Api}
    {o : Option SendMamRes}
    (h : Path (sendMamBody I M fuel info iconf req api).run τ (.ok (o, api'))) :
    ∃ keys payload written τ₁ τ₂ τ₃, τ = τ₁ ++ (τ₂ ++ τ₃) ∧ (∀ e ∈ τ₁, e.cmd.SetsUp) ∧
      Path (taMamWrittenMsgToBundle M fuel api req.chMssDepth req.chid keys payload).run τ₂
        (.ok written) ∧
      (written = none ∧ o = none ∧ τ₃ = [] ∨ ∃ wr res sends, written = some wr ∧ o = some res ∧
        SendsWritten I info iconf req.chMssDepth.toNat keys wr τ₃ res sends) := by
  rw [sendMamBody, path_run_bind_ok] at h
  obtain ⟨keys, τ₁, τ₂, rfl, hkeys, h⟩ := h
  rw [path_withApi] at hkeys
  rw [path_run_request_bind] at h
  obtain ⟨sec, τ₃, rfl, h⟩ := h
  rw [path_run_bind_ok] at h
  obtain ⟨written, τ₄, τ₅, rfl, hwrite, h⟩ := h
  refine ⟨keys, timestamped sec req.message, written, τ₁ ++ [⟨.clockGettime, sec⟩], τ₄, τ₅, ?_, ?_,
    hwrite, ?_⟩
  · rw [List.append_assoc]
    rfl
  · have huses : Uses (S := sig) Cmd.SetsUp (taSetMamKey req.pskArray req.ntruArray).run :=
      uses_taSetMamKey (fun _ hc => hc) _ _
    refine List.forall_mem_append.mpr ⟨huses.path hkeys, ?_⟩
    rw [List.forall_mem_singleton]
    trivial
  · cases written with
    | none =>
        obtain ⟨rfl, hres⟩ := (path_run_pure ..).mp h
        cases hres
        exact Or.inl ⟨rfl, rfl, rfl⟩
    | some wr =>
        rw [path_run_bind_ok] at h
        obtain ⟨⟨res, api''⟩, τ₆, τ₇, rfl, hsend, h⟩ := h
        obtain ⟨rfl, hres⟩ := (path_run_pure ..).mp h
        cases hres
        rw [List.append_nil]
        obtain ⟨sends, hsends⟩ := path_sendWritten hsend
        exact Or.inr ⟨wr, res, sends, rfl, rfl, hsends⟩

/-- Every call of `ta_send_mam_message` that returns `SC_OK` takes this course. -/
theorem path_taSendMamMessage {fuel : Nat} {req : SendMamReq} {o : Option SendMamRes}
    (h : Path (taSendMamMessage I M fuel info iconf req).run τ (.ok o)) :
    ∃ sends, Course I M fuel info iconf req τ o sends := by
  rw [taSendMamMessage, path_run_bind_ok] at h
  obtain ⟨api, τ₀, τ₁, rfl, hinit, h⟩ := h
  obtain ⟨hbefore, hapi⟩ := path_taMamInit hinit
  rw [path_run_attempt_bind] at h
  obtain ⟨ret, τ₂, τ₃, rfl, hbody, h⟩ := h
  rcases ret with ⟨e, api'⟩ | ⟨o', api'⟩
  · -- an error is handed on by the label `done`
    dsimp only at h
    rw [map_eq_pure_bind, path_run_bind_ok] at h
    obtain ⟨res, τ₄, τ₅, -, hdone, -⟩ := h
    cases (path_mamDone hdone).2
  · obtain ⟨keys, payload, written, τ₄, τ₅, τ₆, rfl, hkeys, hwrite, hcase⟩ := path_sendMamBody hbody
    have hsetup : ∀ e ∈ τ₀ ++ τ₄, e.cmd.SetsUp := List.forall_mem_append.mpr ⟨hbefore, hkeys⟩
    rcases hcase with ⟨rfl, rfl, rfl⟩ | ⟨wr, res, sends, rfl, rfl, hsend⟩
    · obtain ⟨rfl, hres⟩ := (path_run_pure ..).mp h
      cases hres
      rw [List.append_nil, List.append_nil, ← List.append_assoc]
      exact ⟨[], .outOfFuel hapi hsetup hwrite⟩
    · dsimp only at h
      rw [map_eq_pure_bind, path_run_bind_ok] at h
      obtain ⟨res', τ₇, τ₈, rfl, hdone, h⟩ := h
      obtain ⟨rfl, hres⟩ := (path_run_pure ..).mp h
      cases hres
      obtain ⟨hafter, hres⟩ := path_mamDone hdone
      cases hres
      have htrace : τ₀ ++ (τ₄ ++ (τ₅ ++ τ₆) ++ (τ₇ ++ [])) = (τ₀ ++ τ₄) ++ (τ₅ ++ (τ₆ ++ τ₇)) := by
        simp only [List.append_nil, List.append_assoc]
      rw [htrace]
      exact ⟨sends, .sent hapi hsetup hwrite hsend hafter⟩

end TangleAccelerator
