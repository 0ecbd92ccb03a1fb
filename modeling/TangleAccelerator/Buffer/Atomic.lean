import TangleAccelerator.Buffer.Fetch
import TangleAccelerator.Buffer.Report

/-!
# Calls that fail

Four functions change the cache with more than one Redis command: `push_txn_to_buffer`,
`api_send_mam_message`, `ta_fetch_txn_with_uuid` and `ta_fetch_mam_with_uuid`.  None of them undoes
what it has done when a later command fails.

For each of them the trace of a failed call says whether the cache is as before.  A push has to fail
at its first command.  A MAM request is only left behind where its `SET` stored it.  A fetch reads
before it writes, and its first write is the deletion, so all is well unless it is the pop that
fails (`Balanced`).
-/

namespace TangleAccelerator

open Effect

/-- The lists and what is stored under UUIDs are the same. -/
structure SameStored (w w' : World) : Prop where
  lists : ∀ n, w'.redis (.list n) = w.redis (.list n)
  values : ∀ u, w'.redis (.uuid u) = w.redis (.uuid u)

/-- A call of one of the four functions. -/
inductive CacheCall where
  | pushTxn (trytes : List Hash8019)
  | sendMam (obj : String)
  | fetchTxn (u : Uuid)
  | fetchMam (u : Uuid)

/-- Its program, with the status it returns. -/
def CacheCall.program (I : Iota) (J : Codec) (cache : TaCache) : CacheCall → Proc Unit
  | .pushTxn trytes => do
      let (_, ret) ← pushTxnToBuffer cache trytes
      settle ret
  | .sendMam obj => do
      let _ ← apiSendMamMessage J cache obj
  | .fetchTxn u => do
      let _ ← taFetchTxnWithUuid I cache u
  | .fetchMam u => do
      let _ ← taFetchMamWithUuid cache u

/-- The trace has no pop of the list. -/
def NoPop (n : ListName) (τ : List (Event sig)) : Prop :=
  ∀ e ∈ τ, e.cmd ≠ .redis (.lpop (.list n))

/-- Where the call failed: a push at its first Redis command, a MAM request without having stored
its text, and a fetch not at its pop. -/
def CacheCall.FailsEarly (τ : List (Event sig)) : CacheCall → Prop
  | .pushTxn _ => τ.length ≤ 2
  | .sendMam _ => ∀ key text ex, (⟨.redis (.set key text ex), .status⟩ : Event sig) ∉ τ
  | .fetchTxn _ => NoPop .complete τ
  | .fetchMam _ => NoPop .mamComplete τ

theorem SameStored.of_redis_eq {w w' : World} (h : w'.redis = w.redis) : SameStored w w' :=
  ⟨fun _ => congrFun h _, fun _ => congrFun h _⟩

theorem sameStored_congr {w w₁ w' : World} (h : w₁.redis = w.redis) :
    SameStored w₁ w' ↔ SameStored w w' := by
  constructor
  · intro hs
    exact ⟨fun n => (hs.lists n).trans (congrFun h _), fun u => (hs.values u).trans (congrFun h _)⟩
  · intro hs
    exact ⟨fun n => (hs.lists n).trans (congrFun h.symm _),
      fun u => (hs.values u).trans (congrFun h.symm _)⟩

section Push

variable {w w' : World} {τ : List (Event sig)} {state : Bool} {key : Key}

/-- A push that fails changes nothing.  One that succeeds was a command. -/
theorem runs_push_cases {e : key.Elem} {r : Except Status Unit}
    (h : Runs world (cacheListPush state key e).run w τ r w') :
    (r = .ok () ∧ state = true ∧ τ.length = 1 ∧
        (Redis.items w'.redis key).length = (Redis.items w.redis key).length + 1) ∨
      (r ≠ .ok () ∧ τ.length ≤ 1 ∧ (state = true → τ ≠ []) ∧ w'.redis = w.redis) := by
  obtain ⟨-, hok, herror⟩ := runs_cacheListPush h
  rcases runs_cacheOn.mp h with ⟨hon, hpush⟩ | ⟨hoff, rfl, rfl, rfl⟩
  · obtain ⟨reply, rfl, -⟩ := runs_redisCommand.mp hpush
    by_cases hr : r = .ok ()
    · refine Or.inl ⟨hr, hon, rfl, ?_⟩
      rw [hok hr, List.length_cons]
    · exact Or.inr ⟨hr, le_refl 1, fun _ => List.cons_ne_nil _ _, herror hr⟩
  · refine Or.inr ⟨fun hr => ?_, Nat.zero_le 1, fun hon => ?_, rfl⟩
    · cases hr
    · rw [hoff] at hon
      cases hon

/-- A push loop that fails changes nothing exactly if it fails at its first command. -/
theorem runs_pushAll_error {es : List key.Elem} {e : Status}
    (h : Runs world (cacheListPushAll state key es).run w τ (.error e) w') :
    (state = true → τ ≠ []) ∧
      ((τ.length ≤ 1 ∧ w'.redis = w.redis) ∨
        (2 ≤ τ.length ∧
          (Redis.items w.redis key).length < (Redis.items w'.redis key).length)) := by
  induction es generalizing w τ with
  | nil => cases ((runs_run_pure ..).mp h).2.1
  | cons x es ih =>
      rw [cacheListPushAll, runs_run_bind] at h
      rcases h with ⟨err, -, hpush⟩ | ⟨_, τ₁, τ₂, w₁, rfl, hpush, hrest⟩
      · rcases runs_push_cases hpush with ⟨hok, -⟩ | ⟨-, hlen, hne, hw⟩
        · cases hok
        · exact ⟨hne, Or.inl ⟨hlen, hw⟩⟩
      · rcases runs_push_cases hpush with ⟨-, hon, hlen, hitems⟩ | ⟨herr, -⟩
        · obtain ⟨hne, hcases⟩ := ih hrest
          have hpos := List.length_pos_iff.mpr (hne hon)
          rw [List.length_append]
          refine ⟨fun _ he => ?_, Or.inr ⟨by omega, ?_⟩⟩
          · have := congrArg List.length he
            rw [List.length_append, List.length_nil] at this
            omega
          · rcases hcases with ⟨-, hw⟩ | ⟨-, hlt⟩
            · rw [hw, hitems]
              exact Nat.lt_succ_self _
            · omega
        · exact absurd rfl herr

theorem not_sameStored_of_items {u : Uuid}
    (h : (Redis.items w.redis (.uuid u)).length < (Redis.items w'.redis (.uuid u)).length) :
    ¬ SameStored w w' := by
  intro hsame
  rw [Redis.items, Redis.items, hsame.values u] at h
  exact lt_irrefl _ h

theorem runs_bufferTxn_error {cache : TaCache} {trytes : List Hash8019} {u : Uuid} {e : Status}
    (h : Runs world (bufferTxn cache trytes u).run w τ (.error e) w') :
    SameStored w w' ↔ τ.length ≤ 1 := by
  rw [bufferTxn, runs_run_bind] at h
  rcases h with ⟨err, -, hall⟩ | ⟨_, τ₁, τ₂, w₁, rfl, hall, hpush⟩
  · rcases (runs_pushAll_error hall).2 with ⟨hlen, hw⟩ | ⟨hlen, hlt⟩
    · exact iff_of_true (.of_redis_eq hw) hlen
    · exact iff_of_false (not_sameStored_of_items hlt) (by omega)
  · -- all transactions are stored, and the UUID is not pushed on the buffer list
    rcases runs_push_cases hpush with ⟨hok, -⟩ | ⟨-, hlen, hne, hw⟩
    · cases hok
    · obtain ⟨-, hstored⟩ := runs_cacheListPushAll hall
      have hitems := hstored rfl
      rw [← hw] at hitems
      cases trytes with
      | nil =>
          obtain ⟨rfl, -, rfl⟩ := (runs_run_pure ..).mp hall
          exact iff_of_true (.of_redis_eq hw) hlen
      | cons t trytes =>
          rw [cacheListPushAll, runs_run_bind_ok] at hall
          obtain ⟨_, τ₃, τ₄, w₂, rfl, hfirst, -⟩ := hall
          rcases runs_push_cases hfirst with ⟨-, hon, hone, -⟩ | ⟨herr, -⟩
          · have hpos := List.length_pos_iff.mpr (hne hon)
            refine iff_of_false (not_sameStored_of_items (u := u) ?_) ?_
            · rw [hitems, List.length_append, List.length_reverse, List.length_cons]
              omega
            · rw [List.length_append, List.length_append]
              omega
          · exact absurd rfl herr

end Push

section Calls

variable {w w' : World} {τ : List (Event sig)} {e : Status} {cache : TaCache}

theorem pushTxn_unchanged_iff {I : Iota} {J : Codec} {trytes : List Hash8019}
    (h : Runs world ((CacheCall.pushTxn trytes).program I J cache).run w τ (.error e) w') :
    SameStored w w' ↔ τ.length ≤ 2 := by
  rw [CacheCall.program, pushTxnToBuffer, bind_assoc, runs_run_request_bind] at h
  obtain ⟨u, τ₁, w₁, rfl, hdraw, h⟩ := h
  have hw₁ : w₁.redis = w.redis := serves_redis_eq hdraw fun c hc => by cases hc
  rw [bind_assoc, runs_run_attempt_bind] at h
  obtain ⟨ret, τ₂, τ₃, w₂, rfl, hbuffer, h⟩ := h
  rw [pure_bind] at h
  obtain ⟨rfl, rfl, rfl⟩ := (runs_run_settle ..).mp h
  have hiff := runs_bufferTxn_error hbuffer
  rw [← sameStored_congr hw₁, hiff, List.append_nil, List.length_cons]
  omega

/-- A call whose value is dropped fails where the call fails. -/
theorem runs_drop_error {α : Type} {x : Proc α}
    (h : Runs world (do let _ ← x : Proc Unit).run w τ (.error e) w') :
    Runs world x.run w τ (.error e) w' := by
  rcases (runs_run_bind ..).mp h with ⟨err, he, hx⟩ | ⟨_, τ₁, τ₂, w₁, -, -, hpure⟩
  · cases he
    exact hx
  · cases ((runs_run_pure ..).mp hpure).2.1

/-- A `SET` stores its text or changes nothing. -/
theorem runs_cacheSet_cases {state : Bool} {key : Key} {text : String} {timeout : Nat}
    {r : Except Status Unit} (h : Runs world (cacheSet state key text timeout).run w τ r w') :
    (state = false ∧ τ = [] ∧ r = .error .cacheOff ∧ w' = w) ∨
      ∃ ex reply, state = true ∧ τ = [⟨.redis (.set key text ex), reply⟩] ∧ r = .ok () ∧
        (reply = .status → w.redis key = none ∧ w'.redis key = some (.str text)) ∧
        (reply ≠ .status → w'.redis = w.redis) := by
  rcases runs_cacheOn.mp h with ⟨hon, hset⟩ | ⟨hoff, hτ, hr, hw⟩
  · obtain ⟨reply, rfl, hr, hs⟩ := runs_redisCommand.mp hset
    have ha := (serves_redis.mp hs).1
    refine Or.inr ⟨_, reply, hon, rfl, hr, ?_, fun hother => ha.set_other hother⟩
    rintro rfl
    exact ha.set_status
  · exact Or.inl ⟨hoff, hτ, hr, hw⟩

theorem sendMam_unchanged_iff {I : Iota} {J : Codec} {obj : String}
    (h : Runs world ((CacheCall.sendMam obj).program I J cache).run w τ (.error e) w') :
    SameStored w w' ↔ (CacheCall.sendMam obj).FailsEarly τ := by
  have hcall := runs_drop_error h
  rw [apiSendMamMessage, runs_run_bind] at hcall
  rcases hcall with ⟨err, -, hread⟩ | ⟨req, τ₁, τ₂, w₁, rfl, hread, hcall⟩
  · obtain ⟨rfl, -, rfl⟩ := (runs_run_settle ..).mp hread
    exact iff_of_true ⟨fun _ => rfl, fun _ => rfl⟩ fun _ _ _ => List.not_mem_nil
  obtain ⟨rfl, -, rfl⟩ := (runs_run_settle ..).mp hread
  rw [runs_run_request_bind] at hcall
  obtain ⟨u, τ₃, w₂, rfl, hdraw, hcall⟩ := hcall
  have hw₂ : w₂.redis = w₁.redis := serves_redis_eq hdraw fun c hc => by cases hc
  rw [← sameStored_congr hw₂]
  rw [runs_run_bind] at hcall
  rcases hcall with ⟨err, -, hset⟩ | ⟨_, τ₄, τ₅, w₃, rfl, hset, hcall⟩
  · rcases runs_cacheSet_cases hset with ⟨-, rfl, -, rfl⟩ | ⟨ex, reply, -, -, hr, -⟩
    · exact iff_of_true ⟨fun _ => rfl, fun _ => rfl⟩ (by simp [CacheCall.FailsEarly])
    · cases hr
  · rcases runs_cacheSet_cases hset with ⟨-, -, hr, -⟩ | ⟨ex, reply, hon, rfl, -, hstored, hother⟩
    · cases hr
    -- only the push on the buffer list can fail now
    rw [runs_run_bind] at hcall
    rcases hcall with ⟨err, -, hpush⟩ | ⟨_, τ₆, τ₇, w₄, -, -, hpure⟩
    · rcases runs_push_cases hpush with ⟨hok, -⟩ | ⟨-, -, -, hw'⟩
      · cases hok
      have hnotset : ∀ event ∈ τ₅, ∀ key text ex,
          event ≠ (⟨.redis (.set key text ex), .status⟩ : Event sig) := by
        rcases runs_cacheOn.mp hpush with ⟨-, hpush⟩ | ⟨-, rfl, -⟩
        · obtain ⟨reply', rfl, -⟩ := runs_redisCommand.mp hpush
          intro event hevent key text ex he
          cases List.mem_singleton.mp hevent
          cases he
        · intro event hevent
          exact absurd hevent List.not_mem_nil
      by_cases hreply : reply = .status
      · refine iff_of_false (fun hsame => ?_) (fun hearly => ?_)
        · obtain ⟨hnone, hsome⟩ := hstored hreply
          have hvalue := hsame.values u
          rw [hw', hnone, hsome] at hvalue
          cases hvalue
        · subst hreply
          exact hearly (.uuid u) obj ex (by simp)
      · refine iff_of_true (.of_redis_eq (hw'.trans (hother hreply))) ?_
        intro key text ex' hmem
        simp only [List.nil_append, List.mem_cons, List.mem_append, List.not_mem_nil,
          or_false] at hmem
        rcases hmem with he | he | hmem
        · cases he
        · cases he
          exact hreply rfl
        · exact hnotset _ hmem key text ex' rfl
    · cases ((runs_run_pure ..).mp hpure).2.1

end Calls

/-! ## Fetches -/

/-- The command changes nothing in the cache. -/
def Cmd.ReadsOnly (c : Cmd) : Prop := ∀ k, ¬ c.WritesKey k

/-- Where the program fails, the cache is as before exactly if the list was not popped. -/
def Balanced (n : ListName) {α : Type} (x : Proc α) : Prop :=
  ∀ w τ e w', Runs world x.run w τ (.error e) w' → (SameStored w w' ↔ NoPop n τ)

section Fetches

variable {n : ListName} {α β : Type} {x : Proc α} {f : α → Proc β}

theorem runs_readsOnly {p : Prog sig α} {w w' : World} {τ : List (Event sig)} {a : α}
    (hp : Uses (S := sig) Cmd.ReadsOnly p) (h : Runs world p w τ a w') :
    w'.redis = w.redis ∧ NoPop n τ := by
  have hevents := hp.path h.1
  refine ⟨funext fun k => served_key h.2 fun e he => hevents e he k, fun e he hpop => ?_⟩
  have hreads := hevents e he (.list n)
  rw [hpop] at hreads
  exact hreads ⟨trivial, rfl⟩

theorem NoPop.append_iff {τ₁ τ₂ : List (Event sig)} :
    NoPop n (τ₁ ++ τ₂) ↔ NoPop n τ₁ ∧ NoPop n τ₂ := List.forall_mem_append

theorem Balanced.of_reads (hx : Uses (S := sig) Cmd.ReadsOnly x.run) : Balanced n x := by
  intro w τ e w' h
  obtain ⟨hw, hτ⟩ := runs_readsOnly hx h
  exact iff_of_true (.of_redis_eq hw) hτ

/-- Reading comes before what is balanced. -/
theorem Balanced.bind (hx : Uses (S := sig) Cmd.ReadsOnly x.run) (hf : ∀ a, Balanced n (f a)) :
    Balanced n (x >>= f) := by
  intro w τ e w' h
  rcases (runs_run_bind ..).mp h with ⟨err, -, hx'⟩ | ⟨a, τ₁, τ₂, w₁, rfl, hx', hf'⟩
  · obtain ⟨hw, hτ⟩ := runs_readsOnly hx hx'
    exact iff_of_true (.of_redis_eq hw) hτ
  · obtain ⟨hw, hτ⟩ := runs_readsOnly hx hx'
    rw [← sameStored_congr hw, hf a _ _ _ _ hf', NoPop.append_iff]
    exact (and_iff_right hτ).symm

/-- The end of both functions: delete the value and pop the list. -/
theorem balanced_del_pop {state : Bool} {u : Uuid} {res : FetchRes} :
    Balanced n (do
      cacheDel state (.uuid u)
      let _ ← cacheListPop state (.list n)
      pure res : Proc FetchRes) := by
  intro w τ e w' h
  rcases (runs_run_bind ..).mp h with ⟨err, -, hdel⟩ | ⟨_, τ₁, τ₂, w₁, rfl, hdel, hpop⟩
  · -- a deletion that fails changes nothing
    rcases runs_cacheOn.mp hdel with ⟨-, hdel⟩ | ⟨-, rfl, -, rfl⟩
    · obtain ⟨reply, rfl, hr, hs⟩ := runs_redisCommand.mp hdel
      have hw : w'.redis = w.redis := by
        refine (serves_redis.mp hs).1.del_other fun m hm => ?_
        by_contra hne
        rw [hm, integerField, if_neg hne] at hr
        cases hr
      refine iff_of_true (.of_redis_eq hw) fun event hevent hcmd => ?_
      cases List.mem_singleton.mp hevent
      cases hcmd
    · exact iff_of_true ⟨fun _ => rfl, fun _ => rfl⟩ fun event hevent =>
        absurd hevent List.not_mem_nil
  · obtain ⟨hnone, hsome, -⟩ := runs_cacheDel hdel
    obtain ⟨hon, -⟩ := runs_cacheOn_ok.mp hdel
    rcases (runs_run_bind ..).mp hpop with ⟨err, -, hpop⟩ | ⟨_, τ₃, τ₄, w₂, -, -, hpure⟩
    · rcases runs_cacheOn.mp hpop with ⟨-, hpop⟩ | ⟨hoff, -⟩
      · obtain ⟨reply, rfl, -, hs⟩ := runs_redisCommand.mp hpop
        refine iff_of_false (fun hsame => ?_) (fun hτ => ?_)
        · have hvalue := hsame.values u
          rw [(serves_redis.mp hs).1.ne (by simp), hnone] at hvalue
          exact hsome hvalue.symm
        · exact (NoPop.append_iff.mp hτ).2 _ (List.mem_singleton.mpr rfl) rfl
      · rw [hon] at hoff
        cases hoff
    · cases ((runs_run_pure ..).mp hpure).2.1

theorem readsOnly_lock {c : Cmd} (h : c.OnLock) : c.ReadsOnly := by
  intro k
  cases c with
  | redis c => exact h.elim
  | _ => exact id

theorem readsOnly_redis {c : Redis.Cmd Key Key.Elem} (h : ¬ c.Writes) :
    Cmd.ReadsOnly (.redis c) := fun _ hk => h hk.1

theorem uses_unlockLogged_reads : Uses (S := sig) Cmd.ReadsOnly unlockLogged.run :=
  uses_unlockLogged (readsOnly_lock trivial)

theorem uses_cacheListExist_reads (state : Bool) (l : ListName) (u : Uuid) :
    Uses (S := sig) Cmd.ReadsOnly (cacheListExist state l u).run :=
  uses_cacheListExist (readsOnly_redis id) (fun _ => readsOnly_redis id) u

theorem balanced_unlock {y : Proc β} (hy : Uses (S := sig) Cmd.ReadsOnly y.run) :
    Balanced n (do unlockLogged; y) :=
  .of_reads (Uses.run_bind uses_unlockLogged_reads fun _ => hy)

theorem balanced_taFetchTxnWithUuid (I : Iota) (cache : TaCache) (u : Uuid) :
    Balanced .complete (taFetchTxnWithUuid I cache u) := by
  refine .bind ((uses_run_request _).mpr (readsOnly_lock trivial)) fun ok => ?_
  refine .bind (uses_run_ensure _ _) fun _ => ?_
  refine .bind (uses_run_attempt (uses_cacheListExist_reads ..)) fun r => ?_
  rcases r with e | _ | _
  · exact balanced_unlock trivial
  · refine .bind (uses_cacheListExist_reads ..) fun b => ?_
    cases b with
    | false => exact balanced_unlock trivial
    | true =>
        refine .bind (Uses.cacheOn (uses_redisCommand.mpr (readsOnly_redis id))) fun len => ?_
        refine .bind uses_unlockLogged_reads fun _ => ?_
        refine .bind (uses_cacheListRead (fun _ => readsOnly_redis id) _) fun trytes => ?_
        exact balanced_del_pop
  · exact balanced_unlock trivial

theorem balanced_taFetchMamWithUuid (cache : TaCache) (u : Uuid) :
    Balanced .mamComplete (taFetchMamWithUuid cache u) := by
  refine .bind ((uses_run_request _).mpr (readsOnly_lock trivial)) fun ok => ?_
  refine .bind (uses_run_ensure _ _) fun _ => ?_
  refine .bind (uses_run_attempt (uses_cacheListExist_reads ..)) fun r => ?_
  rcases r with e | _ | _
  · exact balanced_unlock trivial
  · refine .bind (uses_run_attempt (uses_cacheListExist_reads ..)) fun r => ?_
    rcases r with e | _ | _
    · exact balanced_unlock trivial
    · exact balanced_unlock trivial
    · refine .bind uses_unlockLogged_reads fun _ => ?_
      refine .bind (Uses.cacheOn (uses_redisCommand.mpr (readsOnly_redis id))) fun res => ?_
      exact balanced_del_pop
  · exact balanced_unlock trivial

end Fetches

/-- For every call of the four functions, every cache and all refusals of commands: a call that
returns an error leaves the lists and the stored values as they were exactly if it failed early. -/
theorem cacheCall_unchanged_iff (I : Iota) (J : Codec) (cache : TaCache) (call : CacheCall)
    {w w' : World} {τ : List (Event sig)} {e : Status}
    (h : Runs world (call.program I J cache).run w τ (.error e) w') :
    SameStored w w' ↔ call.FailsEarly τ := by
  cases call with
  | pushTxn trytes => exact pushTxn_unchanged_iff h
  | sendMam obj => exact sendMam_unchanged_iff h
  | fetchTxn u => exact balanced_taFetchTxnWithUuid I cache u _ _ _ _ (runs_drop_error h)
  | fetchMam u => exact balanced_taFetchMamWithUuid cache u _ _ _ _ (runs_drop_error h)

namespace Sample

/-- Redis refuses the command with this number. -/
def failAt (n : Nat) : Nat → (c : Cmd) → Choice c := fun i => if i = n then refused else good

end Sample

/-- A push that is refused at its first command. -/
theorem cacheCall_unchanged_first : ∃ τ w',
    Runs world ((CacheCall.pushTxn [Sample.trytes, Sample.trytes]).program Sample.iota Sample.codec
        Sample.core.cache).run Sample.buffered τ (.error .cacheFailedResponse) w' ∧
      SameStored Sample.buffered w' := by
  have hrun := runs_exec (V := world) ((CacheCall.pushTxn [Sample.trytes, Sample.trytes]).program
    Sample.iota Sample.codec Sample.core.cache).run (Sample.failAt 1) Sample.buffered
  exact ⟨_, _, hrun, (cacheCall_unchanged_iff _ _ _ _ hrun).mpr (le_refl 2)⟩

/-- The last command of each function is refused.  One of two transactions stays under a new UUID,
and so does the text of a MAM request.  What was stored under a fetched UUID is deleted. -/
theorem cacheCall_leaves_changes :
    (∃ τ w', Runs world ((CacheCall.pushTxn [Sample.trytes, Sample.trytes]).program Sample.iota
        Sample.codec Sample.core.cache).run Sample.buffered τ (.error .cacheFailedResponse) w' ∧
      Sample.buffered.redis (.uuid 2#128) = none ∧
      w'.redis (.uuid 2#128) = some (.list Sample.trytes [])) ∧
    (∃ τ w', Runs world ((CacheCall.sendMam "").program Sample.iota Sample.codec
        Sample.core.cache).run Sample.buffered τ (.error .cacheFailedResponse) w' ∧
      Sample.buffered.redis (.uuid 2#128) = none ∧ w'.redis (.uuid 2#128) = some (.str "")) ∧
    (∃ τ w', Runs world ((CacheCall.fetchTxn 1#128).program Sample.iota Sample.codec
        Sample.core.cache).run (Sample.sent (.list Sample.trytes []) 1#128 []) τ
        (.error .cacheFailedResponse) w' ∧ w'.redis (.uuid 1#128) = none) ∧
    ∃ τ w', Runs world ((CacheCall.fetchMam 1#128).program Sample.iota Sample.codec
        Sample.core.cache).run (Sample.sent (.str "") 1#128 []) τ
        (.error .cacheFailedResponse) w' ∧ w'.redis (.uuid 1#128) = none :=
  ⟨⟨_, _, runs_exec (V := world) _ (Sample.failAt 2) _, rfl, rfl⟩,
    ⟨_, _, runs_exec (V := world) _ (Sample.failAt 2) _, rfl, rfl⟩,
    ⟨_, _, runs_exec (V := world) _ (Sample.failAt 8) _, rfl⟩,
    ⟨_, _, runs_exec (V := world) _ (Sample.failAt 7) _, rfl⟩⟩

end TangleAccelerator
