import TangleAccelerator.Buffer.Atomic
import TangleAccelerator.Buffer.Handover

/-!
# What `cache_set` has stored

`redis_set` issues a `SET` with `NX`, in one of two forms, and returns `SC_OK` whatever the reply
is.  A text that was to be stored can be read back exactly where the key was free and Redis did not
refuse the command, or where the key held the same text all along (`Retained`).

Three functions take `SC_OK` for "stored".  `api_send_mam_message` and `ta_register_mam_channel`
store under a UUID they have just drawn, so they depend on both conditions.  The broadcast of MAM
requests deletes the key before it stores the result, and depends on the reply only.
-/

namespace TangleAccelerator

open Effect

/-- `ta_register_mam_channel_req_t`. -/
structure RegisterMamChannelReq where
  seed : String
  length_seed : seed.length = 81

/-- `ta_register_mam_channel`: the UUID it stores the seed under. -/
def taRegisterMamChannel (cache : TaCache) (req : RegisterMamChannelReq) : Proc Uuid := do
  let uuid ← request .uuidGenerateRandom
  cacheSet cache.state (.uuid uuid) req.seed cache.timeout
  pure uuid

/-- A `cache_get` that follows at once returns the text. -/
def ReadsBack (w : World) (key : Key) (text : String) : Prop :=
  ∀ τ r w', Runs steady (cacheGet true key).run w τ r w' → r = .ok text

/-- Redis refused no `SET` of the key. -/
def NotRefused (key : Key) (τ : List (Event sig)) : Prop :=
  ∀ text ex, (⟨.redis (.set key text ex), .error⟩ : Event sig) ∉ τ

/-- The key held the text before, or it was free and its `SET` was not refused. -/
def Retained (w : World) (τ : List (Event sig)) (key : Key) (text : String) : Prop :=
  w.redis key = some (.str text) ∨ (w.redis key = none ∧ NotRefused key τ)

section Set

variable {w w' : World} {τ : List (Event sig)} {key : Key} {text : String}

theorem readsBack_iff : ReadsBack w key text ↔ w.redis key = some (.str text) := by
  constructor
  · intro h
    have hread := runs_exec (V := steady) (cacheGet true key).run (fun _ => SteadyChoice.any) w
    have hget := h _ _ _ hread
    rw [hget] at hread
    exact (runs_cacheGet ⟨hread.1, Served.of_steady hread.2⟩).2
  · intro h τ r w' hread
    obtain ⟨-, hread⟩ | ⟨hoff, -⟩ := runs_cacheOn.mp hread
    · obtain ⟨reply, -, rfl, hs⟩ := runs_redisCommand.mp hread
      obtain ⟨rfl, -⟩ := steady_redis.mp hs
      simp only [Redis.exec, h, Redis.Cmd.act]
      rfl
    · cases hoff

theorem NotRefused.append_iff {τ₁ τ₂ : List (Event sig)} :
    NotRefused key (τ₁ ++ τ₂) ↔ NotRefused key τ₁ ∧ NotRefused key τ₂ := by
  simp only [NotRefused, List.mem_append, not_or, forall_and]

theorem NotRefused.cons_iff {e : Event sig} (he : ∀ text ex, e.cmd ≠ .redis (.set key text ex)) :
    NotRefused key (e :: τ) ↔ NotRefused key τ := by
  refine forall₂_congr fun text ex => not_congr ?_
  rw [List.mem_cons, or_iff_right]
  rintro rfl
  exact he text ex rfl

theorem notRefused_singleton {ex : Option Nat}
    {reply : Redis.Reply (Redis.Cmd.set key text ex : Redis.Cmd Key Key.Elem).Bulk} :
    NotRefused key [⟨.redis (.set key text ex), reply⟩] ↔ reply ≠ .error := by
  constructor
  · rintro h rfl
    exact h text ex (List.mem_singleton.mpr rfl)
  · intro h text' ex' hmem
    cases List.mem_singleton.mp hmem
    exact h rfl

/-- What the command `SET` makes of its key. -/
theorem serves_set_iff {ex : Option Nat}
    {reply : Redis.Reply (Redis.Cmd.set key text ex : Redis.Cmd Key Key.Elem).Bulk}
    (h : world.Serves w ⟨.redis (.set key text ex), reply⟩ w') :
    w'.redis key = some (.str text) ↔
      w.redis key = some (.str text) ∨ (w.redis key = none ∧ reply ≠ .error) := by
  have ha := (serves_redis.mp h).1
  by_cases hreply : reply = .status
  · subst hreply
    obtain ⟨hfree, hset⟩ := ha.set_status
    exact iff_of_true hset (Or.inr ⟨hfree, by simp⟩)
  · rw [ha.set_other hreply]
    constructor
    · exact Or.inl
    · rintro (hset | ⟨hfree, hne⟩)
      · exact hset
      · exact absurd (ha.set_free hfree hne) hreply

theorem runs_cacheSet_iff {state : Bool} {timeout : Nat}
    (h : Runs world (cacheSet state key text timeout).run w τ (.ok ()) w') :
    w'.redis key = some (.str text) ↔ Retained w τ key text := by
  obtain ⟨-, reply, rfl, -, hs⟩ := runs_cacheOn_ok.mp h
  rw [serves_set_iff hs, Retained, notRefused_singleton]

/-- A trace that starts with another command. -/
theorem Retained.cons_iff {e : Event sig} {w₁ : World} (he : ∀ c, e.cmd ≠ .redis c)
    (hs : world.Serves w e w₁) : Retained w (e :: τ) key text ↔ Retained w₁ τ key text := by
  rw [Retained, Retained, serves_redis_eq hs he, NotRefused.cons_iff fun _ _ => he _]

end Set

/-! ## The callers -/

/-- The trace has a call of the program with this result. -/
def HasCall {α : Type} (x : Proc α) (a : α) (τ : List (Event sig)) : Prop :=
  ∃ τ₁ τ₂ τ₃, τ = τ₁ ++ (τ₂ ++ τ₃) ∧ Path x.run τ₂ (.ok a)

/-- The send of a request with this text is in the trace, and it returned this result. -/
def SentIn (I : Iota) (M : MamLib) (J : Codec) (core : TaCore) (fuel : Nat) (json : String)
    (res : SendMamRes) (τ : List (Event sig)) : Prop :=
  ∃ req, J.sendMamReq json = .ok req ∧
    HasCall (taSendMamMessage I M fuel core.taConf core.iotaConf req) (some res) τ

theorem HasCall.append {α : Type} {x : Proc α} {a : α} {τ : List (Event sig)} (h : HasCall x a τ)
    (τ₁ τ₂ : List (Event sig)) : HasCall x a (τ₁ ++ (τ ++ τ₂)) := by
  obtain ⟨τ₃, τ₄, τ₅, rfl, hpath⟩ := h
  exact ⟨τ₁ ++ τ₃, τ₄, τ₅ ++ τ₂, by simp only [List.append_assoc], hpath⟩

section Callers

variable {w w' : World} {τ : List (Event sig)} {cache : TaCache}

theorem runs_taRegisterMamChannel {req : RegisterMamChannelReq} {u : Uuid}
    (h : Runs world (taRegisterMamChannel cache req).run w τ (.ok u) w') :
    w'.redis (.uuid u) = some (.str req.seed) ↔ Retained w τ (.uuid u) req.seed := by
  rw [taRegisterMamChannel, runs_run_request_bind] at h
  obtain ⟨u', τ₁, w₁, rfl, hdraw, h⟩ := h
  rw [runs_run_bind_ok] at h
  obtain ⟨_, τ₂, τ₃, w₂, rfl, hset, hpure⟩ := h
  obtain ⟨rfl, hu, rfl⟩ := (runs_run_pure ..).mp hpure
  cases hu
  rw [List.append_nil, Retained.cons_iff (fun c hc => by cases hc) hdraw]
  exact runs_cacheSet_iff hset

theorem runs_apiSendMamMessage {J : Codec} {obj res : String} {u : Uuid}
    (h : Runs world (apiSendMamMessage J cache obj).run w τ (.ok (u, res)) w') :
    w'.redis (.uuid u) = some (.str obj) ↔ Retained w τ (.uuid u) obj := by
  rw [apiSendMamMessage, runs_run_bind_ok] at h
  obtain ⟨req, τ₁, τ₂, w₁, rfl, hread, h⟩ := h
  obtain ⟨rfl, -, rfl⟩ := (runs_run_settle ..).mp hread
  rw [runs_run_request_bind] at h
  obtain ⟨u', τ₃, w₂, rfl, hdraw, h⟩ := h
  rw [runs_run_bind_ok] at h
  obtain ⟨_, τ₄, τ₅, w₃, rfl, hset, h⟩ := h
  rw [runs_run_bind_ok] at h
  obtain ⟨_, τ₆, τ₇, w₄, rfl, hpush, hpure⟩ := h
  obtain ⟨rfl, hu, rfl⟩ := (runs_run_pure ..).mp hpure
  cases hu
  -- the push is about another key
  obtain ⟨-, reply, rfl, -, hs⟩ := runs_cacheOn_ok.mp hpush
  have hone : NotRefused (.uuid u) [⟨.redis (.lpush (.list .mamBuffer) u), reply⟩] := by
    rw [NotRefused.cons_iff fun _ _ hc => by cases hc]
    exact fun _ _ => List.not_mem_nil
  rw [(serves_redis.mp hs).1.ne (by simp), List.append_nil, List.nil_append,
    Retained.cons_iff (fun c hc => by cases hc) hdraw, runs_cacheSet_iff hset, Retained, Retained,
    NotRefused.append_iff, and_iff_left hone]

variable {I : Iota} {M : MamLib} {J : Codec} {core : TaCore} {fuel : Nat} {u : Uuid}

/-- A send is not about the cache. -/
theorem notRefused_taSendMamMessage {req : SendMamReq} {r : Except Status (Option SendMamRes)}
    (h : Path (taSendMamMessage I M fuel core.taConf core.iotaConf req).run τ r) (key : Key) :
    NotRefused key τ := by
  have hcmds := (uses_taSendMamMessage (P := fun c => ¬ c.OnCache) M (fun c hc => hc.not_onCache)
    (fun _ => id) id I fuel core.taConf core.iotaConf req).path h
  exact fun text ex hmem => hcmds _ hmem trivial

/-- The key is free when the result is stored, for it has just been deleted. -/
theorem runs_publishMam {json : String}
    (h : Runs world (publishMam I M J core fuel u).run w τ (.ok (some json)) w') :
    ∃ res, SentIn I M J core fuel json res τ ∧
      (w'.redis (.uuid u) = some (.str (J.sendMamRes res)) ↔ NotRefused (.uuid u) τ) := by
  rw [publishMam, runs_run_bind_ok] at h
  obtain ⟨json', τ₁, τ₂, w₁, rfl, hget, h⟩ := h
  obtain ⟨-, getReply, rfl, -⟩ := runs_cacheOn_ok.mp hget
  rw [runs_run_bind_ok] at h
  obtain ⟨req, τ₃, τ₄, w₂, rfl, hread, h⟩ := h
  obtain ⟨rfl, hreq, rfl⟩ := (runs_run_settle ..).mp hread
  rw [runs_run_bind_ok] at h
  obtain ⟨out, τ₅, τ₆, w₃, rfl, hsend, h⟩ := h
  cases out with
  | none => cases ((runs_run_pure ..).mp h).2.1
  | some res =>
      rw [runs_run_request_bind] at h
      obtain ⟨ok, τ₇, w₄, rfl, -, h⟩ := h
      rw [runs_run_bind_ok] at h
      obtain ⟨_, τ₈, τ₉, w₅, rfl, hensure, h⟩ := h
      obtain ⟨rfl, -⟩ := (runs_run_ensure ..).mp hensure
      rw [runs_run_bind_ok] at h
      obtain ⟨_, τ₁₀, τ₁₁, w₆, rfl, hdel, h⟩ := h
      rw [runs_run_bind_ok] at h
      obtain ⟨_, τ₁₂, τ₁₃, w₇, rfl, hset, hpure⟩ := h
      obtain ⟨rfl, hjson, rfl⟩ := (runs_run_pure ..).mp hpure
      cases hjson
      obtain ⟨hfree, -, -⟩ := runs_cacheDel hdel
      obtain ⟨-, delReply, rfl, -⟩ := runs_cacheOn_ok.mp hdel
      refine ⟨res, ⟨req, hreq.symm, [⟨.redis (.get (.uuid u)), getReply⟩], τ₅, _, rfl, hsend.1⟩, ?_⟩
      have hkept : Retained w₆ τ₁₂ (.uuid u) (J.sendMamRes res) ↔ NotRefused (.uuid u) τ₁₂ := by
        rw [Retained, hfree, and_iff_right rfl]
        exact or_iff_right (by simp)
      rw [runs_cacheSet_iff hset, hkept, List.append_nil, List.nil_append, List.nil_append,
        List.singleton_append, List.singleton_append,
        NotRefused.cons_iff (fun _ _ hc => by cases hc), NotRefused.append_iff,
        and_iff_right (notRefused_taSendMamMessage hsend.1 _),
        NotRefused.cons_iff (fun _ _ hc => by cases hc),
        NotRefused.cons_iff (fun _ _ hc => by cases hc)]

theorem runs_broadcastMamIteration {it : Iteration String}
    (h : Runs world (broadcastMamIteration I M J core fuel).run w τ (.ok (.moved it)) w') :
    ∃ res, SentIn I M J core fuel it.sent res τ ∧
      (w'.redis (.uuid it.peeked) = some (.str (J.sendMamRes res)) ↔
        NotRefused (.uuid it.peeked) τ) := by
  obtain ⟨len, τ₀, reply, -, hpublish, rfl⟩ := path_broadcastIteration h.1
  obtain ⟨w₁, hlen, w₂, hpeek, hserved⟩ := h.2
  obtain ⟨w₃, hs, hend⟩ := (served_append ..).mp hserved
  obtain ⟨res, ⟨req, hreq, hcalls⟩, hiff⟩ := runs_publishMam ⟨hpublish, hs⟩
  refine ⟨res, ⟨req, hreq, hcalls.append [⟨.redis (.llen (.list .mamBuffer)), len⟩,
    ⟨.redis (.lindex (.list .mamBuffer) 0), .bulk it.peeked⟩] _⟩, ?_⟩
  -- the pop, the push and the unlocking are about other keys
  have hlast : NotRefused (.uuid it.peeked)
      [⟨.redis (.lpop (.list .mamBuffer)), .bulk it.popped⟩,
        ⟨.redis (.lpush (.list .mamComplete) it.popped), reply⟩, ⟨.unlock, true⟩] := by
    rw [NotRefused.cons_iff (fun _ _ hc => by cases hc),
      NotRefused.cons_iff (fun _ _ hc => by cases hc),
      NotRefused.cons_iff (fun _ _ hc => by cases hc)]
    exact fun _ _ => List.not_mem_nil
  have hkey : w'.redis (.uuid it.peeked) = w₃.redis (.uuid it.peeked) := by
    refine served_key hend fun e he => ?_
    simp only [List.mem_cons, List.not_mem_nil, or_false] at he
    rcases he with rfl | rfl | rfl
    · exact fun hw => by cases hw.2
    · exact fun hw => by cases hw.2
    · exact id
  rw [hkey, hiff, NotRefused.cons_iff (fun _ _ hc => by cases hc),
    NotRefused.cons_iff (fun _ _ hc => by cases hc), NotRefused.append_iff, and_iff_left hlast]

end Callers

/-- For every state of the cache, every key, text and timeout, and all refusals of commands: where
`cache_set` returns `SC_OK` the text can be read back exactly if it was kept.  The same is so at the
end of the calls of `api_send_mam_message` and `ta_register_mam_channel`.  At the end of a pass of
the broadcast the result of the send can be read back exactly if its `SET` was not refused. -/
theorem cacheSet_readsBack_iff (I : Iota) (M : MamLib) (J : Codec) (core : TaCore) (fuel : Nat)
    (w w' : World) (τ : List (Event sig)) :
    (∀ state key text timeout,
      Runs world (cacheSet state key text timeout).run w τ (.ok ()) w' →
        (ReadsBack w' key text ↔ Retained w τ key text)) ∧
    (∀ obj u res, Runs world (apiSendMamMessage J core.cache obj).run w τ (.ok (u, res)) w' →
      (ReadsBack w' (.uuid u) obj ↔ Retained w τ (.uuid u) obj)) ∧
    (∀ req u, Runs world (taRegisterMamChannel core.cache req).run w τ (.ok u) w' →
      (ReadsBack w' (.uuid u) req.seed ↔ Retained w τ (.uuid u) req.seed)) ∧
    ∀ it, Runs world (broadcastMamIteration I M J core fuel).run w τ (.ok (.moved it)) w' →
      ∃ res, SentIn I M J core fuel it.sent res τ ∧
        (ReadsBack w' (.uuid it.peeked) (J.sendMamRes res) ↔ NotRefused (.uuid it.peeked) τ) := by
  refine ⟨?_, ?_, ?_, ?_⟩
  · intro state key text timeout h
    rw [readsBack_iff, runs_cacheSet_iff h]
  · intro obj u res h
    rw [readsBack_iff, runs_apiSendMamMessage h]
  · intro req u h
    rw [readsBack_iff, runs_taRegisterMamChannel h]
  · intro it h
    obtain ⟨res, hsent, hiff⟩ := runs_broadcastMamIteration h
    exact ⟨res, hsent, by rw [readsBack_iff, hiff]⟩

namespace Sample

/-- The UUID that is drawn next is taken. -/
def taken : World :=
  { mamBuffered with
    redis := Function.update mamBuffered.redis (.uuid 2#128) (some (.str "taken")) }

/-- Redis refuses to set. -/
def refusedSet : (c : Cmd) → Choice c
  | .redis (.set _ _ _) => true
  | c => good c

/-- A channel to register. -/
def channelReq : RegisterMamChannelReq :=
  ⟨String.ofList (List.replicate 81 '9'), by rw [String.length_ofList, List.length_replicate]⟩

end Sample

/-- A free key and a server that refuses nothing. -/
theorem cacheSet_readsBack_free : ∃ τ w',
    Runs world (cacheSet true (.uuid 2#128) "text" 0).run Sample.mamBuffered τ (.ok ()) w' ∧
      ReadsBack w' (.uuid 2#128) "text" := by
  have hrun := runs_exec (V := world) (cacheSet true (.uuid 2#128) "text" 0).run
    (fun _ => Sample.good) Sample.mamBuffered
  have hiff := (cacheSet_readsBack_iff Sample.iota Sample.mam Sample.codec Sample.core 1 _ _ _).1
    _ _ _ _ hrun
  refine ⟨_, _, hrun, hiff.mpr (Or.inr ⟨rfl, notRefused_singleton.mpr ?_⟩)⟩
  intro hreply
  cases hreply

/-- Each call returns `SC_OK` and what it was to store cannot be read: a UUID was taken, or the
`SET` of the result was refused. -/
theorem cacheSet_not_stored :
    (∃ τ w', Runs world (cacheSet true (.uuid 2#128) "text" 0).run Sample.taken τ (.ok ()) w' ∧
      ¬ ReadsBack w' (.uuid 2#128) "text") ∧
    (∃ τ w', Runs world (cacheSet true (.uuid 2#128) "text" 60).run Sample.mamBuffered τ (.ok ())
        w' ∧ ¬ ReadsBack w' (.uuid 2#128) "text") ∧
    (∃ τ w', Runs world (apiSendMamMessage Sample.codec Sample.core.cache "text").run Sample.taken τ
        (.ok (2#128, "")) w' ∧ ¬ ReadsBack w' (.uuid 2#128) "text") ∧
    (∃ τ w', Runs world (taRegisterMamChannel Sample.core.cache Sample.channelReq).run
        Sample.taken τ (.ok 2#128) w' ∧ ¬ ReadsBack w' (.uuid 2#128) Sample.channelReq.seed) ∧
    ∃ τ w', Runs world (broadcastMamIteration Sample.iota Sample.mam Sample.codec Sample.core 1).run
        Sample.mamBuffered τ (.ok (.moved ⟨1#128, "", 1#128⟩)) w' ∧
      ∀ text, ¬ ReadsBack w' (.uuid 1#128) text := by
  have hne : ∀ {w : World} {key : Key} (text : String) {text' : String},
      w.redis key = some (.str text) → text ≠ text' → ¬ ReadsBack w key text' := by
    intro w key text text' hkey hne hread
    rw [readsBack_iff, hkey] at hread
    cases hread
    exact hne rfl
  have hnone : ∀ {w : World} {key : Key} {text : String},
      w.redis key = none → ¬ ReadsBack w key text := by
    intro w key text hkey hread
    rw [readsBack_iff, hkey] at hread
    cases hread
  refine ⟨⟨_, _, runs_exec (V := world) _ (fun _ => Sample.good) _, hne "taken" rfl ?_⟩,
    ⟨_, _, runs_exec (V := world) _ (fun _ => Sample.refusedSet) _, hnone rfl⟩,
    ⟨_, _, runs_exec (V := world) _ (fun _ => Sample.good) _, hne "taken" rfl ?_⟩,
    ⟨_, _, runs_exec (V := world) _ (fun _ => Sample.good) _, hne "taken" rfl ?_⟩,
    ⟨_, _, runs_exec (V := world) _ (fun _ => Sample.refusedSet) _, fun _ => hnone rfl⟩⟩
  · decide
  · decide
  · intro h
    exact absurd (congrArg String.length h) (by rw [Sample.channelReq.length_seed]; decide)

end TangleAccelerator
