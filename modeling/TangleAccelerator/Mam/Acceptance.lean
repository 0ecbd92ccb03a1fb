import TangleAccelerator.Buffer.Once
import TangleAccelerator.Mam.Message

/-!
# What a sent message means

`ta_send_bundle` logs the status of `ta_send_trytes` and returns `SC_OK`.  So
`ta_send_mam_message` returns `SC_OK` whether or not the node has accepted the message, and
`broadcast_buffered_send_mam_request` moves the UUID of the request to the list of completed
requests either way.

The first half of the main result is about one call: what it sent was accepted exactly when no
call of its sends failed.  The second half is about every run of the broadcast function in
which no send fails and each pop takes the UUID that was read: a UUID comes to the complete
list only after the node has accepted its message.
-/

namespace TangleAccelerator

open Effect

variable {I : Iota} {M : MamLib} {τ : List (Event sig)} {info : TaConfig} {iconf : IotaConfig}
  {fuel : Nat}

/-! ## Bundles are not empty -/

/-- The libraries make no empty bundles. -/
structure MamBundles (I : Iota) (M : MamLib) : Prop where
  finalize : ∀ txs, txs ≠ [] → I.finalize txs ≠ []
  packet : ∀ api id payload bundle, bundle ≠ [] → (M.writePacket api id payload bundle).1 ≠ []
  announce : ∀ api chid chid1 keys, (M.announceChannel api chid chid1 keys).1 ≠ []

theorem searchKey_bundle_ne {keys : MamEncryptKey} {chid : Hash243} {tags : List Hash81}
    {remain : Nat} {used : Int} {api : M.Api} {k : KeySearch M}
    (h : Path (searchKey M keys chid tags remain used api).run τ (.ok (some k))) :
    k.bundle ≠ [] := by
  induction remain generalizing used api τ with
  | zero => cases ((path_run_pure ..).mp h).2
  | succ remain ih =>
      rw [searchKey, path_run_bind_ok] at h
      obtain ⟨_, τ₁, τ₂, -, -, h⟩ := h
      dsimp only at h
      split at h
      · split at h
        · cases ((path_run_pure ..).mp h).2
          exact List.cons_ne_nil _ _
        · exact ih h
      · cases ((path_run_pure ..).mp h).2
        exact List.cons_ne_nil _ _

theorem searchChannel_bundle_ne {keys : MamEncryptKey} {d : Nat} {firstIter : Bool}
    {chid chid' : Hash243} {api : M.Api} {op : MamSendOperation} {k : KeySearch M}
    (h : Path (searchChannel M keys d fuel firstIter chid api).run τ
      (.ok (some (chid', op, k)))) : k.bundle ≠ [] := by
  induction fuel generalizing firstIter chid api τ with
  | zero => cases ((path_run_pure ..).mp h).2
  | succ fuel ih =>
      rw [searchChannel, path_run_bind_ok] at h
      obtain ⟨fetch, τ₁, τ₂, -, -, h⟩ := h
      rw [path_run_bind_ok] at h
      obtain ⟨found, τ₃, τ₄, -, hsearch, h⟩ := h
      cases found with
      | none => cases ((path_run_pure ..).mp h).2
      | some k' =>
          dsimp only at h
          split at h
          · cases ((path_run_pure ..).mp h).2
            exact searchKey_bundle_ne hsearch
          · split at h
            · exact ih h
            · cases ((path_run_pure ..).mp h).2
              exact searchKey_bundle_ne hsearch

theorem written_bundle_ne (B : MamBundles I M) {api : M.Api} {depth : Int}
    {target : Option Hash243} {keys : MamEncryptKey} {payload : String} {wr : Written M}
    (h : Path (taMamWrittenMsgToBundle M fuel api depth target keys payload).run τ
      (.ok (some wr))) : wr.bundle ≠ [] := by
  rw [taMamWrittenMsgToBundle, path_run_bind_ok] at h
  obtain ⟨_, τ₁, τ₂, -, -, h⟩ := h
  rw [path_run_bind_ok] at h
  obtain ⟨ch, τ₃, τ₄, -, -, h⟩ := h
  rw [path_run_bind_ok] at h
  obtain ⟨found, τ₅, τ₆, -, hsearch, h⟩ := h
  cases found with
  | none => cases ((path_run_pure ..).mp h).2
  | some found =>
      obtain ⟨chid, op, k⟩ := found
      rw [path_run_bind_ok] at h
      obtain ⟨_, τ₇, τ₈, -, -, h⟩ := h
      cases ((path_run_pure ..).mp h).2
      exact B.packet _ _ _ _ (searchChannel_bundle_ne hsearch)

/-! ## One call -/

/-- The node accepted every bundle. -/
def AllAccepted (sends : Sends) : Prop := ∀ s ∈ sends, stored s.2 ≠ []

theorem SendsWritten.accepted_iff (B : MamBundles I M) {d : Nat} {keys : MamEncryptKey}
    {wr : Written M} {res : SendMamRes} {sends : Sends} (hne : wr.bundle ≠ [])
    (h : SendsWritten I info iconf d keys wr τ res sends) :
    AllAccepted sends ↔ ∀ e ∈ τ, SendFails e = false := by
  cases h with
  | message operation send =>
      rw [AllAccepted, List.forall_mem_singleton]
      exact taSendBundle_stored_iff (B.finalize _ hne) send
  | announced operation send create write sendAnnounce =>
      subst write
      rw [AllAccepted, List.forall_mem_cons, List.forall_mem_singleton,
        taSendBundle_stored_iff (B.finalize _ hne) send,
        taSendBundle_stored_iff (B.finalize _ (B.announce _ _ _ _)) sendAnnounce,
        List.forall_mem_append, List.forall_mem_append]
      simp [SendFails]

/-- Commands of a call outside its sends. -/
theorem not_sendFails {e : Event sig} (h : e.cmd.SetsUp ∨ e.cmd.Searches) :
    SendFails e = false := by
  obtain ⟨c, r⟩ := e
  cases c with
  | getTransactionsToApprove depth => exact absurd h (by simp [Cmd.SetsUp, Cmd.Searches])
  | transactionSerialize tx => exact absurd h (by simp [Cmd.SetsUp, Cmd.Searches])
  | dcurlEntry trytes mwm => exact absurd h (by simp [Cmd.SetsUp, Cmd.Searches])
  | storeAndBroadcast trytes => exact absurd h (by simp [Cmd.SetsUp, Cmd.Searches])
  | _ => rfl

/-- What a call sent was accepted exactly when no call of its sends failed. -/
theorem Course.accepted_iff (B : MamBundles I M) {req : SendMamReq} {res : SendMamRes}
    {sends : Sends} (h : Course I M fuel info iconf req τ (some res) sends) :
    AllAccepted sends ↔ ∀ e ∈ τ, SendFails e = false := by
  cases h with
  | sent init before write send after =>
      have hwrite := (uses_taMamWrittenMsgToBundle M (fun _ hc => hc) fuel _ _ _ _ _).path write
      rw [send.accepted_iff B (written_bundle_ne B write), List.forall_mem_append,
        List.forall_mem_append, List.forall_mem_append]
      constructor
      · intro hsend
        exact ⟨fun e he => not_sendFails (Or.inl (before e he)),
          fun e he => not_sendFails (Or.inr (hwrite e he)), hsend,
          fun e he => not_sendFails (Or.inl (after e he))⟩
      · intro hall
        exact hall.2.2.1

/-! ## Watching the loop -/

section Watching

variable {m : Watch} {x : ListName × Uuid}

/-- The log of the watch only grows. -/
theorem Watch.mem_log_next {e : Event sig} (h : x ∈ m.log) : x ∈ (m.next e).log := by
  unfold Watch.next
  split
  · exact h
  · exact h
  · exact h
  · exact h
  · split
    · exact List.mem_cons_of_mem _ h
    · exact h
  · exact h

theorem mem_log_after (h : x ∈ m.log) : x ∈ (watching.after m τ).log := by
  induction τ generalizing m with
  | nil => exact h
  | cons e τ ih => exact ih (Watch.mem_log_next h)

theorem after_unwatched (h : ∀ e ∈ τ, e.cmd.Unwatched) : watching.after m τ = m := by
  induction τ with
  | nil => rfl
  | cons e τ ih =>
      have hnext : watching.next m e = m := (h e (List.mem_cons_self ..) m).2 e.ans
      rw [Protocol.after_cons, hnext]
      exact ih fun e' he' => h e' (List.mem_cons_of_mem _ he')

/-- What the node accepts after the UUID was read is logged for this UUID. -/
theorem mem_log_of_stored (hτ : ∀ e ∈ τ, e.cmd.Quiet ∨ ∃ t, e.cmd = .storeAndBroadcast t)
    (hp : m.peeked = some x) (hstored : stored τ ≠ []) : x ∈ (watching.after m τ).log := by
  induction τ with
  | nil => exact absurd rfl hstored
  | cons e τ ih =>
      have hrest := ih fun e' he' => hτ e' (List.mem_cons_of_mem _ he')
      obtain ⟨c, r⟩ := e
      rcases hτ _ (List.mem_cons_self ..) with hq | ⟨t, ht⟩
      · have hnext : watching.next m ⟨c, r⟩ = m := (Cmd.Quiet.unwatched hq m).2 r
        have hnone : stored [⟨c, r⟩] = [] :=
          stored_eq_nil (List.forall_mem_singleton.mpr (Cmd.Quiet.storesNothing hq))
        rw [Protocol.after_cons, hnext]
        refine hrest fun h => hstored ?_
        rw [← List.singleton_append, stored_append, hnone, h]
        rfl
      · dsimp only at ht
        subst ht
        cases r with
        | false => exact hrest hstored
        | true =>
            have hnext : watching.next m ⟨.storeAndBroadcast t, true⟩ =
                ⟨none, some x, x :: m.log⟩ := by
              simp only [Watch.next, hp]
            rw [Protocol.after_cons, hnext]
            exact mem_log_after (List.mem_cons_self ..)

theorem SendsWritten.mem_log {d : Nat} {keys : MamEncryptKey} {wr : Written M} {res : SendMamRes}
    {sends : Sends} (h : SendsWritten I info iconf d keys wr τ res sends)
    (hall : AllAccepted sends) (hp : m.peeked = some x) : x ∈ (watching.after m τ).log := by
  have hsend : ∀ {bundle sent : List Transaction} {τ₁ : List (Event sig)},
      Path (taSendBundle I info iconf bundle).run τ₁ (.ok sent) →
      ∀ e ∈ τ₁, e.cmd.Quiet ∨ ∃ t, e.cmd = .storeAndBroadcast t := by
    intro bundle sent τ₁ hpath
    exact (uses_taSendBundle (P := fun c => c.Quiet ∨ ∃ t, c = .storeAndBroadcast t)
      (fun _ hc => Or.inl hc.quiet) (fun t => Or.inr ⟨t, rfl⟩) I info iconf bundle).path hpath
  cases h with
  | message operation send =>
      exact mem_log_of_stored (hsend send) hp (hall _ (List.mem_cons_self ..))
  | announced operation send create write sendAnnounce =>
      rw [Protocol.after_append]
      exact mem_log_after (mem_log_of_stored (hsend send) hp (hall _ (List.mem_cons_self ..)))

/-- A call whose bundles were accepted has its UUID in the log. -/
theorem Course.mem_log {req : SendMamReq} {res : SendMamRes} {sends : Sends}
    (h : Course I M fuel info iconf req τ (some res) sends) (hall : AllAccepted sends)
    (hp : m.peeked = some x) : x ∈ (watching.after m τ).log := by
  cases h with
  | sent init before write send after =>
      have hwrite := (uses_taMamWrittenMsgToBundle M (fun _ hc => hc) fuel _ _ _ _ _).path write
      rw [Protocol.after_append, after_unwatched fun e he => (before e he).quiet.unwatched,
        Protocol.after_append, after_unwatched fun e he => (hwrite e he).quiet.unwatched,
        Protocol.after_append]
      exact mem_log_after (send.mem_log hall hp)

end Watching

/-- What is remembered of a run of the broadcast function: the watch, and the UUID that was
read last. -/
structure Publish where
  watch : Watch := {}
  head : Option Uuid := none

/-- What is remembered after an event. -/
def Publish.next (m : Publish) (e : Event sig) : Publish where
  watch := m.watch.next e
  head :=
    match e with
    | ⟨.redis (.lindex (.list .mamBuffer) 0), .bulk u⟩ => some u
    | _ => m.head

/-- A UUID comes to the complete list only after its message was accepted. -/
def Publish.may (m : Publish) : Cmd → Prop
  | .redis (.lpush (.list .mamComplete) u) => (.mamBuffer, u) ∈ m.watch.log
  | _ => True

/-- A pop of the buffer list takes the UUID that was read last. -/
def Publish.pops (m : Publish) : Event sig → Bool
  | ⟨.redis (.lpop (.list .mamBuffer)), .bulk p⟩ => m.head == some p
  | _ => true

/-- No send fails, and each pop takes the UUID that was read. -/
@[reducible] def publishing : Protocol sig where
  State := Publish
  next := Publish.next
  may := Publish.may
  admits m e := SendFails e = false ∧ m.pops e = true

theorem publishing_after_watch (m : Publish) (τ : List (Event sig)) :
    (publishing.after m τ).watch = watching.after m.watch τ := by
  induction τ generalizing m with
  | nil => rfl
  | cons e τ ih => exact ih (m.next e)

/-! ## The loop obeys the protocol -/

section Obeys

variable {m : Publish} {u : Uuid}

/-- Commands the protocol does not see. -/
def Cmd.Unmarked (c : Cmd) : Prop := ∀ m : Publish, m.may c ∧ ∀ r, m.next ⟨c, r⟩ = m

theorem Cmd.Unwatched.unmarked {c : Cmd} (h : c.Unwatched) (hc : ∀ c', c = .redis c' →
    ∃ u, c'.key = .uuid u) : c.Unmarked := by
  intro m
  have hnext : ∀ r, Publish.mk (m.watch.next ⟨c, r⟩) m.head = m :=
    fun r => congrArg (Publish.mk · m.head) ((h m.watch).2 r)
  cases c with
  | redis c =>
      obtain ⟨u, hu⟩ := hc c rfl
      cases c with
      | lindex k i =>
          cases hu
          exact ⟨trivial, hnext⟩
      | lpush k e =>
          cases hu
          exact ⟨trivial, hnext⟩
      | _ => exact ⟨trivial, hnext⟩
  | _ => exact ⟨trivial, hnext⟩

theorem unmarked_of_uuid {c : Redis.Cmd Key Key.Elem} (hc : c.key = .uuid u) :
    (Cmd.redis c).Unmarked := by
  refine Cmd.Unwatched.unmarked (unwatched_of_key fun n hn => ?_) fun c' hc' => ?_
  · rw [hc] at hn
    cases hn
  · cases hc'
    exact ⟨u, hc⟩

theorem unmarked_trywrlock : Cmd.trywrlock.Unmarked :=
  Cmd.Unwatched.unmarked (Cmd.OnLock.unwatched trivial) nofun

/-- A program the protocol does not see. -/
theorem safe_unmarked {α : Type} {p : Prog sig α} (h : Uses (S := sig) Cmd.Unmarked p) :
    Safe publishing p m fun _ m' => m' = m := by
  refine Safe.of_uses (R := publishing) (J := fun m' => m' = m) ?_ ?_ h rfl
  · intro m' c _ hc
    exact (hc m').1
  · intro m' c r hm hc
    exact ((hc m').2 r).trans hm

/-- The UUID that was read has been accepted, or is about to be. -/
structure Publish.Reads (m : Publish) (u : Uuid) : Prop where
  peeked : m.watch.peeked = some (.mamBuffer, u)
  head : m.head = some u

/-- How the steps between the peek and the pop end. -/
def Publishes (u : Uuid) {α : Type} (r : Except Status (Option α)) (m : Publish) : Prop :=
  ∀ a, r = .ok (some a) → (.mamBuffer, u) ∈ m.watch.log ∧ m.head = some u

theorem publishing_after_head (h : ∀ e ∈ τ, ¬ e.cmd.OnCache) :
    (publishing.after m τ).head = m.head := by
  induction τ generalizing m with
  | nil => rfl
  | cons e τ ih =>
      obtain ⟨c, r⟩ := e
      have hhead : (m.next ⟨c, r⟩).head = m.head := by
        cases c with
        | redis c => exact absurd trivial (h _ (List.mem_cons_self ..))
        | _ => rfl
      rw [Protocol.after_cons, ih fun e' he' => h e' (List.mem_cons_of_mem _ he')]
      exact hhead

theorem sendFails_of_admitted : ∀ {τ : List (Event sig)} {m : Publish}, publishing.Admitted m τ →
    ∀ e ∈ τ, SendFails e = false := by
  intro τ
  induction τ with
  | nil => intro m _ e he; cases he
  | cons e τ ih =>
      intro m h
      rw [List.forall_mem_cons]
      exact ⟨h.1.1, ih h.2⟩

theorem publishing_taSendMamMessage (B : MamBundles I M) (req : SendMamReq) (hm : m.Reads u) :
    Safe publishing (taSendMamMessage I M fuel info iconf req).run m (Publishes u) := by
  refine Safe.of_path ?_ fun τ r hpath hadm res hres => ?_
  · refine uses_taSendMamMessage M (fun c hc m => ?_) (fun t m => trivial) (fun m => trivial) I fuel
      info iconf req
    cases c with
    | redis c => exact hc.elim
    | _ => trivial
  · subst hres
    obtain ⟨sends, hcourse⟩ := path_taSendMamMessage hpath
    have hall := (hcourse.accepted_iff B).mpr (sendFails_of_admitted hadm)
    refine ⟨?_, ?_⟩
    · rw [publishing_after_watch]
      exact hcourse.mem_log hall hm.peeked
    · rw [publishing_after_head, hm.head]
      exact (uses_taSendMamMessage M (P := fun c => ¬ c.OnCache) (fun c hc => hc.not_onCache)
        (fun t => id) id I fuel info iconf req).path hpath

theorem safe_unmarked_then {α β : Type} {y : Proc α} {f : α → Proc β}
    {Q : Except Status β → Publish → Prop} (hy : Uses (S := sig) Cmd.Unmarked y.run)
    (herr : ∀ e, Q (.error e) m) (hf : ∀ a, Safe publishing (f a).run m Q) :
    Safe publishing (y >>= f).run m Q := by
  rw [safe_run_bind]
  refine (safe_unmarked hy).mono fun r m' hm' => ?_
  rw [hm']
  cases r with
  | ok a => exact hf a
  | error e => exact herr e

variable {J : Codec} {core : TaCore}

theorem publishing_publishMam (B : MamBundles I M) (hm : m.Reads u) :
    Safe publishing (publishMam I M J core fuel u).run m (Publishes u) := by
  have hfail : ∀ (m : Publish) (e : Status), Publishes u (.error e : Except _ (Option String)) m :=
    fun m e => nofun
  refine safe_unmarked_then (Uses.cacheOn (uses_redisCommand.mpr (unmarked_of_uuid rfl))) (hfail m)
    fun json => ?_
  refine safe_unmarked_then (uses_run_settle _) (hfail m) fun req => ?_
  rw [safe_run_bind]
  refine (publishing_taSendMamMessage B req hm).mono fun r m₁ hr => ?_
  rcases r with e | _ | res
  · exact hfail m₁ e
  · exact nofun
  · refine safe_unmarked_then ((uses_run_request .trywrlock).mpr unmarked_trywrlock) (hfail m₁)
      fun ok => ?_
    refine safe_unmarked_then (uses_run_ensure _ _) (hfail m₁) fun _ => ?_
    refine safe_unmarked_then (Uses.cacheOn (uses_redisCommand.mpr (unmarked_of_uuid rfl)))
      (hfail m₁) fun _ => ?_
    refine safe_unmarked_then (Uses.cacheOn (uses_redisCommand.mpr (unmarked_of_uuid rfl)))
      (hfail m₁) fun _ => ?_
    exact fun _ _ => hr res rfl

/-- Commands that may always be issued. -/
theorem safe_may {α : Type} {p : Prog sig α}
    (h : Uses (S := sig) (fun c => ∀ m : Publish, m.may c) p) :
    Safe publishing p m fun _ _ => True :=
  Safe.of_path h fun _ _ _ _ => trivial

theorem publishing_peek :
    Safe publishing (cacheListPeek true (.list .mamBuffer)).run m fun r m' =>
      ∀ u, r = .ok u → m'.Reads u := by
  rw [cacheListPeek, safe_cacheOn_true, redisListPeek, safe_redisCommand]
  refine ⟨trivial, fun reply _ => ?_⟩
  cases reply with
  | bulk u =>
      intro v hv
      cases hv
      exact ⟨rfl, rfl⟩
  | _ =>
      intro v hv
      cases hv

theorem publishing_pop (hlog : (.mamBuffer, u) ∈ m.watch.log) (hhead : m.head = some u) :
    Safe publishing (cacheListPop true (.list .mamBuffer)).run m fun r m' =>
      ∀ p, r = .ok p → (.mamBuffer, p) ∈ m'.watch.log := by
  rw [cacheListPop, safe_cacheOn_true, redisListPop, safe_redisCommand]
  refine ⟨trivial, fun reply hreply => ?_⟩
  cases reply with
  | bulk v =>
      intro p hp
      cases hp
      -- the pop takes the UUID that was read
      have hv : m.head = some v := beq_iff_eq.mp hreply.2
      cases hhead.symm.trans hv
      exact Watch.mem_log_next hlog
  | _ =>
      intro p hp
      cases hp

theorem publishing_push (hlog : (.mamBuffer, u) ∈ m.watch.log) :
    Safe publishing (cacheListPush true (.list .mamComplete) u).run m fun _ _ => True := by
  rw [cacheListPush, safe_cacheOn_true, redisListPush, safe_redisCommand]
  exact ⟨hlog, fun _ _ => trivial⟩

/-- An iteration pushes what it popped, which is what it read and what was accepted. -/
theorem publishing_iteration (B : MamBundles I M) (m : Publish) :
    Safe publishing (broadcastMamIteration I M J core fuel).run m fun _ _ => True := by
  unfold broadcastMamIteration
  cases hstate : core.cache.state with
  | false => trivial
  | true =>
      have hsize : Uses (S := sig) (fun c => ∀ m : Publish, m.may c)
          (cacheListSize true (.list .mamBuffer)).run :=
        Uses.cacheOn (uses_redisCommand.mpr fun _ => trivial)
      rw [broadcastIteration, safe_run_bind]
      refine (safe_may hsize).mono fun r m₁ _ => ?_
      cases r with
      | error e => trivial
      | ok len =>
          dsimp only
          split
          · trivial
          rw [safe_run_bind]
          refine publishing_peek.mono fun r m₂ hpeek => ?_
          cases r with
          | error e => trivial
          | ok u =>
              dsimp only
              rw [safe_run_bind]
              refine (publishing_publishMam B (hpeek u rfl)).mono fun r m₃ hpublish => ?_
              rcases r with e | _ | json
              · trivial
              · trivial
              · obtain ⟨hlog, hhead⟩ := hpublish json rfl
                dsimp only
                rw [safe_run_bind]
                refine (publishing_pop hlog hhead).mono fun r m₄ hpop => ?_
                cases r with
                | error e => trivial
                | ok p =>
                    dsimp only
                    rw [safe_run_bind]
                    refine (publishing_push (hpop p rfl)).mono fun r m₅ _ => ?_
                    cases r with
                    | error e => trivial
                    | ok _ =>
                        refine safe_may (Uses.run_bind ?_ fun ok => ?_)
                        · exact (uses_run_request .unlock).mpr fun _ => trivial
                        · exact Uses.run_bind (uses_run_ensure _ _) fun _ => trivial

theorem publishing_loop (B : MamBundles I M) (m : Publish) :
    Safe publishing (broadcastBufferedSendMamRequest I M J core fuel).run m fun _ _ => True := by
  unfold broadcastBufferedSendMamRequest
  generalize hn : fuel = n
  nth_rewrite 1 [← hn]
  clear hn
  induction n generalizing m with
  | zero => trivial
  | succ n ih =>
      rw [broadcastLoop, safe_run_bind]
      refine (publishing_iteration B m).mono fun r m' _ => ?_
      rcases r with e | _ | it | _
      · trivial
      · trivial
      · exact ih m'
      · trivial

end Obeys

/-- A call that returns `SC_OK` has handed bundles to the node, and the node has accepted all of
them exactly when no call of the sends failed.  In every run of the broadcast function in which
no send fails and each pop takes the UUID that was read, a UUID comes to the complete list only
after its message was accepted. -/
theorem sendMam_accepted_iff (B : MamBundles I M) (J : Codec) (core : TaCore) (fuel : Nat) :
    (∀ req τ res,
      Path (taSendMamMessage I M fuel core.taConf core.iotaConf req).run τ (.ok (some res)) →
      (∃ sends, Course I M fuel core.taConf core.iotaConf req τ (some res) sends) ∧
      ∀ sends, Course I M fuel core.taConf core.iotaConf req τ (some res) sends →
        (AllAccepted sends ↔ ∀ e ∈ τ, SendFails e = false)) ∧
    (∀ τ p, Steps (broadcastBufferedSendMamRequest I M J core fuel).run τ p →
      publishing.Admitted {} τ →
      ∀ ρ u reply ρ', τ = ρ ++ ⟨.redis (.lpush (.list .mamComplete) u), reply⟩ :: ρ' →
        (.mamBuffer, u) ∈ accepted ρ) := by
  constructor
  · intro req τ res hpath
    exact ⟨path_taSendMamMessage hpath, fun sends hcourse => hcourse.accepted_iff B⟩
  · intro τ p hsteps hadm ρ u reply ρ' hτ
    subst hτ
    have hmay := ((publishing_loop B {}).allowed hsteps hadm).may
    rw [accepted, ← publishing_after_watch {} ρ]
    exact hmay

namespace Sample

theorem mamBundles : MamBundles iota mam where
  finalize _ h := h
  packet _ _ _ _ h := h
  announce _ _ _ _ := List.cons_ne_nil _ _

/-- A request of the sample codec. -/
def mamReq : SendMamReq := ⟨some (Vector.replicate 81 0), 2, none, "", [], []⟩

/-- The broadcast function with one buffered request. -/
def publishTrace (o : (c : Cmd) → Choice c) : List (Event sig) :=
  (exec world (broadcastBufferedSendMamRequest iota mam codec core 2).run (fun _ => o)
    mamBuffered).1

/-- The events of a sample trace before the UUID is pushed on the complete list. -/
def beforePush (o : (c : Cmd) → Choice c) : List (Event sig) := (publishTrace o).take 19

theorem publishTrace_good : ∃ reply ρ', publishTrace good =
    beforePush good ++ ⟨.redis (.lpush (.list .mamComplete) 1#128), reply⟩ :: ρ' :=
  ⟨_, _, rfl⟩

theorem publishTrace_rejected : ∃ reply ρ', publishTrace rejected =
    beforePush rejected ++ ⟨.redis (.lpush (.list .mamComplete) 1#128), reply⟩ :: ρ' :=
  ⟨_, _, rfl⟩

end Sample

/-- Where everything succeeds, the message is accepted, and the UUID is pushed after that. -/
theorem sendMam_accepted_good :
    (∃ τ res sends, Course Sample.iota Sample.mam 2 Sample.core.taConf Sample.core.iotaConf
      Sample.mamReq τ (some res) sends ∧ AllAccepted sends) ∧
    ∃ ρ reply ρ', Sample.publishTrace Sample.good =
        ρ ++ ⟨.redis (.lpush (.list .mamComplete) 1#128), reply⟩ :: ρ' ∧
      (.mamBuffer, 1#128) ∈ accepted ρ := by
  obtain ⟨hcall, hrun⟩ := sendMam_accepted_iff Sample.mamBundles Sample.codec Sample.core 2
  constructor
  · have hpath := path_exec (V := world) (taSendMamMessage Sample.iota Sample.mam 2
      Sample.core.taConf Sample.core.iotaConf Sample.mamReq).run (fun _ => Sample.good)
      Sample.mamBuffered
    obtain ⟨⟨sends, hcourse⟩, hiff⟩ := hcall _ _ _ hpath
    exact ⟨_, _, sends, hcourse, (hiff sends hcourse).mpr (by decide)⟩
  · have hpath := path_exec (V := world) (broadcastBufferedSendMamRequest Sample.iota Sample.mam
      Sample.codec Sample.core 2).run (fun _ => Sample.good) Sample.mamBuffered
    obtain ⟨reply, ρ', htrace⟩ := Sample.publishTrace_good
    exact ⟨_, reply, ρ', htrace, hrun _ _ ((steps_ret_iff ..).mpr hpath) (by decide)
      _ _ _ _ htrace⟩

/-- The node rejects the only bundle of the request.  The call returns `SC_OK`, and the
broadcast function pushes the UUID on the complete list. -/
theorem sendMam_sent_unaccepted :
    (∃ τ res w', Runs world (taSendMamMessage Sample.iota Sample.mam 2 Sample.core.taConf
        Sample.core.iotaConf Sample.mamReq).run Sample.mamBuffered τ (.ok (some res)) w' ∧
      stored τ = []) ∧
    ∃ τ ρ reply ρ' w', Runs world (broadcastBufferedSendMamRequest Sample.iota Sample.mam
        Sample.codec Sample.core 2).run Sample.mamBuffered τ (.ok (some ())) w' ∧
      τ = ρ ++ ⟨.redis (.lpush (.list .mamComplete) 1#128), reply⟩ :: ρ' ∧
      stored τ = [] ∧ accepted ρ = [] := by
  obtain ⟨reply, ρ', htrace⟩ := Sample.publishTrace_rejected
  exact ⟨⟨_, _, _, runs_exec (V := world) _ (fun _ => Sample.rejected) _, rfl⟩,
    ⟨_, _, reply, ρ', _, runs_exec (V := world) _ (fun _ => Sample.rejected) _, htrace, rfl,
      by decide⟩⟩

end TangleAccelerator
