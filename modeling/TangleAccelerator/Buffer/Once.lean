import TangleAccelerator.Buffer.Report

/-!
# At most one broadcast

A broadcast function sends what is stored under a UUID while the UUID is still in the buffer
list.  Only the pop at the end of the iteration takes it out, and everything between the send
and the pop can fail.  An iteration that fails there leaves the UUID where the next round
finds it and sends it again.

`watching` is a protocol for the thread of `health_track`.  It remembers the UUID that was
read, the UUID whose content was accepted by the node and that was not popped yet, and the
log of all accepted UUIDs.  It assumes that nothing fails while there is an accepted UUID
that is not popped.  `safe_healthTrack` says that the thread obeys it: it does not look for
the next UUID before the accepted one is popped.

The main result counts.  In every interleaving with fetches that meets the assumption, the
content of a UUID is accepted at most as often as the UUID was in the buffer list.
-/

namespace TangleAccelerator

open Effect

variable {w w' : World} {n : ListName} {u : Uuid}

/-! ## Watching the thread -/

/-- The lists of requests that wait. -/
def ListName.IsBuffer : ListName → Prop
  | .buffer | .mamBuffer => True
  | .complete | .mamComplete => False

/-- What has become of the UUIDs so far. -/
structure Watch where
  /-- The UUID that was read and whose content was not accepted yet. -/
  peeked : Option (ListName × Uuid) := none
  /-- The UUID whose content was accepted and that was not popped yet. -/
  sent : Option (ListName × Uuid) := none
  /-- The UUIDs whose content was accepted, the last one first. -/
  log : List (ListName × Uuid) := []

/-- The watch after an event.  A size of a list starts a new iteration, and an announcement
is not the content of a request. -/
def Watch.next (m : Watch) : Event sig → Watch
  | ⟨.redis (.llen (.list _)), _⟩ => { m with peeked := none }
  | ⟨.redis (.lindex (.list n) 0), .bulk u⟩ => { m with peeked := some (n, u) }
  | ⟨.redis (.lpop (.list n)), .bulk _⟩ =>
      { m with peeked := none, sent := m.sent.filter fun x => x.1 ≠ n }
  | ⟨.mam .announceChannel, _⟩ => { m with peeked := none }
  | ⟨.storeAndBroadcast _, true⟩ =>
      match m.peeked with
      | some x => ⟨none, some x, x :: m.log⟩
      | none => m
  | _ => m

/-- The thread reads the head of a list only where nothing waits for its pop, and it changes
the buffer lists only by pops. -/
def Watch.may (m : Watch) : Cmd → Prop
  | .redis (.lindex (.list _) 0) => m.sent = none
  | .redis (.lpop _) => True
  | c => ∀ n : ListName, n.IsBuffer → ¬ c.WritesKey (.list n)

/-- The events that end an iteration between its send and its pop. -/
def Aborts : Event sig → Bool
  | ⟨.getTrytes _, none⟩ => true
  | ⟨.redis (.del (.uuid _)), reply⟩ => integerField reply == 0
  | ⟨.redis (.lpush (.uuid _) _), .error⟩ => true
  | ⟨.redis (.lpop (.list _)), .bulk _⟩ => false
  | ⟨.redis (.lpop (.list _)), _⟩ => true
  | ⟨.trywrlock, ok⟩ => !ok
  | ⟨.mam _, ok⟩ => !ok
  | ⟨.mamApiSave _, ok⟩ => !ok
  | _ => false

/-- The protocol of the thread. -/
@[reducible] def watching : Protocol sig where
  State := Watch
  next := Watch.next
  may := Watch.may
  admits m e := m.sent ≠ none → ¬ Aborts e

/-! ## Counting -/

/-- Every accepted UUID of the log was taken from the list, or is its head and will be. -/
structure Counts (init : Cache) (m : Watch) (w : World) : Prop where
  count : ∀ n u, n.IsBuffer →
    m.log.count (n, u) + (Redis.items w.redis (.list n)).count u ≤
      (Redis.items init (.list n)).count u + if m.sent = some (n, u) then 1 else 0
  head : ∀ n u, n.IsBuffer → m.peeked = some (n, u) ∨ m.sent = some (n, u) →
    (Redis.items w.redis (.list n)).head? = some u
  calm : m.peeked ≠ none → m.sent = none

variable {init : Cache} {m : Watch}

theorem Counts.start (w : World) : Counts w.redis {} w where
  count n u _ := by simp
  head n u _ h := by simp at h
  calm _ := rfl

/-- The log never counts more than was there. -/
theorem Counts.log_le (h : Counts init m w) (hn : n.IsBuffer) :
    m.log.count (n, u) ≤ (Redis.items init (.list n)).count u := by
  have hcount := h.count n u hn
  by_cases hs : m.sent = some (n, u)
  · rw [if_pos hs] at hcount
    have hmem : u ∈ Redis.items w.redis (.list n) := List.mem_of_head? (h.head n u hn (Or.inr hs))
    have hpos : 0 < (Redis.items w.redis (.list n)).count u := List.count_pos_iff.mpr hmem
    omega
  · rw [if_neg hs] at hcount
    omega

theorem Counts.frame (h : Counts init m w)
    (hw : ∀ n : ListName, n.IsBuffer → w'.redis (.list n) = w.redis (.list n)) :
    Counts init m w' where
  count n u hn := by
    rw [Redis.items, hw n hn]
    exact h.count n u hn
  head n u hn := by
    rw [Redis.items, hw n hn]
    exact h.head n u hn
  calm := h.calm

theorem Counts.forget (h : Counts init m w) : Counts init { m with peeked := none } w where
  count := h.count
  head n u hn hs := h.head n u hn (Or.inr (hs.resolve_left nofun))
  calm hp := absurd rfl hp

theorem Counts.peek (h : Counts init m w) (hs : m.sent = none)
    (hu : (Redis.items w.redis (.list n)).head? = some u) :
    Counts init { m with peeked := some (n, u) } w where
  count := h.count
  head n' u' hn hp := by
    cases hp with
    | inl hp =>
        cases hp
        exact hu
    | inr hp => exact h.head n' u' hn (Or.inr hp)
  calm _ := hs

theorem Counts.accept (h : Counts init m w) {x : ListName × Uuid} (hx : m.peeked = some x) :
    Counts init ⟨none, some x, x :: m.log⟩ w where
  count n u hn := by
    have hcount := h.count n u hn
    rw [if_neg (by rw [h.calm (by rw [hx]; nofun)]; nofun)] at hcount
    rw [List.count_cons]
    by_cases hnu : x = (n, u)
    · subst hnu
      rw [if_pos rfl, if_pos (beq_self_eq_true _)]
      omega
    · rw [if_neg (fun he => hnu (Option.some.inj he)), if_neg (by simpa using hnu)]
      omega
  head n u hn hp := h.head n u hn (Or.inl (hx.trans (hp.resolve_left nofun)))
  calm hp := absurd rfl hp

/-- A pop takes the UUID whose content was accepted, since it is the head. -/
theorem Counts.pop (h : Counts init m w)
    (hpop : Redis.items w.redis (.list n) = u :: Redis.items w'.redis (.list n))
    (hw : ∀ l : ListName, l ≠ n → w'.redis (.list l) = w.redis (.list l)) :
    Counts init { m with peeked := none, sent := m.sent.filter fun x => x.1 ≠ n } w' where
  count n' u' hn := by
    have hcount := h.count n' u' hn
    dsimp only
    by_cases hl : n' = n
    · subst hl
      have hsent : ¬ m.sent.filter (fun x => x.1 ≠ n') = some (n', u') := by
        intro hs
        simpa using (Option.filter_eq_some_iff.mp hs).2
      rw [if_neg hsent]
      rw [hpop, List.count_cons] at hcount
      by_cases hs : m.sent = some (n', u')
      · have hhead := h.head n' u' hn (Or.inr hs)
        rw [hpop] at hhead
        obtain rfl := Option.some.inj hhead
        rw [if_pos hs, if_pos (beq_self_eq_true _)] at hcount
        omega
      · rw [if_neg hs] at hcount
        omega
    · have hsent : m.sent.filter (fun x => x.1 ≠ n) = some (n', u') ↔ m.sent = some (n', u') := by
        rw [Option.filter_eq_some_iff]
        simp [hl]
      simp only [hsent, Redis.items, hw n' hl]
      exact hcount
  head n' u' hn hp := by
    have hsent := (Option.filter_eq_some_iff.mp (hp.resolve_left (Option.some_ne_none _).symm))
    have hl : n' ≠ n := by simpa using hsent.2
    rw [Redis.items, hw n' hl]
    exact h.head n' u' hn (Or.inr hsent.1)
  calm hp := absurd rfl hp

/-- The count is kept by every event the thread may produce. -/
theorem Counts.next {e : Event sig} (h : Counts init m w) (hmay : m.may e.cmd)
    (hs : world.Serves w e w') : Counts init (m.next e) w' := by
  obtain ⟨c, r⟩ := e
  have hother : (∀ n : ListName, n.IsBuffer → ¬ c.WritesKey (.list n)) → Counts init m w' :=
    fun hc => h.frame fun n hn => serves_key hs (hc n hn)
  cases c with
  | redis c =>
      cases c with
      | llen k =>
          cases k with
          | list n => exact (hother hmay).forget
          | _ => exact hother hmay
      | lindex k i =>
          have hw : w' = w := serves_read hs fun h => h
          subst hw
          cases k with
          | list n =>
              cases i with
              | zero =>
                  cases r with
                  | bulk u => exact h.peek hmay (List.head?_eq_getElem? ▸ (serves_lindex hs).2)
                  | _ => exact h
              | succ i => exact h
          | _ => exact h
      | lpop k =>
          cases k with
          | list n =>
              have ha := (serves_redis.mp hs).1
              cases r with
              | bulk u => exact h.pop ha.lpop fun l hl => ha.ne fun hk => hl (Key.list.inj hk)
              | _ => exact h.frame fun l _ => by rw [ha.lpop_none nofun]
          | _ => exact hother fun n _ hk => by cases hk.2
      | _ => exact hother hmay
  | mam f =>
      cases f with
      | announceChannel => exact (hother hmay).forget
      | _ => exact hother hmay
  | storeAndBroadcast t =>
      cases r with
      | false => exact hother hmay
      | true =>
          cases hp : m.peeked with
          | none =>
              simp only [Watch.next, hp]
              exact hother hmay
          | some x =>
              simp only [Watch.next, hp]
              exact (hother hmay).accept hp
  | _ => exact hother hmay

/-! ## The thread obeys the protocol -/

section Obeys

variable {ε α β : Type} {x : ListName × Uuid}

/-- The watch is about one UUID. -/
structure Near (x : ListName × Uuid) (m : Watch) : Prop where
  sent : m.sent = none ∨ m.sent = some x
  peeked : m.peeked = none ∨ m.peeked = some x

/-- How a part of an iteration ends: a failure leaves no accepted UUID behind. -/
structure Ends (x : ListName × Uuid) (r : Except ε α) (m : Watch) : Prop where
  near : Near x m
  failed : ∀ e, r = .error e → m.sent = none

/-- Commands the watch does not see. -/
def Cmd.Unwatched (c : Cmd) : Prop := ∀ m : Watch, m.may c ∧ ∀ r, m.next ⟨c, r⟩ = m

theorem Cmd.Quiet.unwatched {c : Cmd} (h : c.Quiet) : c.Unwatched := by
  intro m
  cases c with
  | redis c => exact h.elim
  | tryrdlock => exact h.elim
  | trywrlock => exact h.elim
  | unlock => exact h.elim
  | storeAndBroadcast t => exact h.elim
  | mam f =>
      cases f with
      | announceChannel => exact h.elim
      | _ => exact ⟨fun _ _ => id, fun _ => rfl⟩
  | _ => exact ⟨fun _ _ => id, fun _ => rfl⟩

theorem Cmd.OnLock.unwatched {c : Cmd} (h : c.OnLock) : c.Unwatched := by
  intro m
  cases c with
  | tryrdlock => exact ⟨fun _ _ => id, fun _ => rfl⟩
  | trywrlock => exact ⟨fun _ _ => id, fun _ => rfl⟩
  | unlock => exact ⟨fun _ _ => id, fun _ => rfl⟩
  | _ => exact h.elim

/-- Redis commands off the lists. -/
theorem unwatched_of_key {c : Redis.Cmd Key Key.Elem} (h : ∀ n, c.key ≠ .list n) :
    (Cmd.redis c).Unwatched := by
  intro m
  have hmay : ∀ n : ListName, n.IsBuffer → ¬ (Cmd.redis c).WritesKey (.list n) :=
    fun n _ hk => h n hk.2
  cases c with
  | lpop k =>
      cases k with
      | list n => exact absurd rfl (h n)
      | _ => exact ⟨trivial, fun _ => rfl⟩
  | llen k =>
      cases k with
      | list n => exact absurd rfl (h n)
      | _ => exact ⟨hmay, fun _ => rfl⟩
  | lindex k i =>
      cases k with
      | list n => exact absurd rfl (h n)
      | _ => exact ⟨hmay, fun _ => rfl⟩
  | _ => exact ⟨hmay, fun _ => rfl⟩

theorem unwatched_lpush (hn : ¬ n.IsBuffer) (u : Uuid) :
    (Cmd.redis (.lpush (.list n) u)).Unwatched := by
  intro m
  refine ⟨fun l hl hk => ?_, fun _ => rfl⟩
  obtain rfl := Key.list.inj hk.2
  exact hn hl

/-- A program the watch does not see leaves it alone. -/
theorem safe_unwatched {p : Prog sig α} (h : Uses (S := sig) Cmd.Unwatched p) :
    Safe watching p m fun _ m' => m' = m := by
  refine Safe.of_uses (R := watching) (J := fun m' => m' = m) ?_ ?_ h rfl
  · intro m' c _ hc
    exact (hc m').1
  · intro m' c r hm hc
    exact ((hc m').2 r).trans hm

/-- Commands that leave no accepted UUID behind where there was none. -/
def Cmd.Settled (c : Cmd) : Prop :=
  ∀ m : Watch, m.sent = none → m.may c ∧ ∀ r, (m.next ⟨c, r⟩).sent = none

theorem Cmd.Unwatched.settled {c : Cmd} (h : c.Unwatched) : c.Settled :=
  fun m hs => ⟨(h m).1, fun r => by rw [(h m).2 r, hs]⟩

theorem settled_llen : (Cmd.redis (.llen (.list n))).Settled :=
  fun _ hs => ⟨fun _ _ hk => hk.1, fun _ => hs⟩

theorem settled_lpop : (Cmd.redis (.lpop (.list n))).Settled := by
  intro m hs
  refine ⟨trivial, fun r => ?_⟩
  cases r with
  | bulk p =>
      change (m.sent.filter fun x => x.1 ≠ n) = none
      rw [hs]
      rfl
  | _ => exact hs

theorem safe_settled {p : Prog sig α} (h : Uses (S := sig) Cmd.Settled p) (hs : m.sent = none) :
    Safe watching p m fun _ m' => m'.sent = none :=
  Safe.of_uses (R := watching) (J := fun m' => m'.sent = none)
    (fun m' _ hs' hc => (hc m' hs').1) (fun m' _ r hs' hc => (hc m' hs').2 r) h hs

theorem safe_then {y : ExceptT ε (Prog sig) α} {f : α → ExceptT ε (Prog sig) β}
    (hy : Safe watching y.run m (Ends x))
    (hf : ∀ a m', Near x m' → Safe watching (f a).run m' (Ends x)) :
    Safe watching (y >>= f).run m (Ends x) := by
  rw [safe_run_bind]
  refine hy.mono fun r m' hr => ?_
  cases r with
  | ok a => exact hf a m' hr.near
  | error e => exact ⟨hr.near, fun e' he => hr.failed e rfl⟩

/-- The same for a part that runs where nothing waits for its pop. -/
theorem safe_clean_then {y : ExceptT ε (Prog sig) α} {f : α → ExceptT ε (Prog sig) β}
    (hy : Uses (S := sig) Cmd.Unwatched y.run) (hm : Near x m) (hs : m.sent = none)
    (hf : ∀ a, Safe watching (f a).run m (Ends x)) :
    Safe watching (y >>= f).run m (Ends x) := by
  rw [safe_run_bind]
  refine (safe_unwatched hy).mono fun r m' hm' => ?_
  rw [hm']
  cases r with
  | ok a => exact hf a
  | error e => exact ⟨hm, fun _ _ => hs⟩

/-- A check of an answer, where an answer that fails it would abort the iteration. -/
theorem safe_guard {c : Cmd} {b : c.Ans → Bool} {e : ε} {k : c.Ans → ExceptT ε (Prog sig) β}
    (hc : c.Unwatched) (hb : ∀ a, b a = false → Aborts ⟨c, a⟩) (hm : Near x m)
    (hk : ∀ a, b a = true → Safe watching (k a).run m (Ends x)) :
    Safe watching (request c >>= fun a => ensure (b a) e >>= fun _ => k a).run m (Ends x) := by
  rw [safe_run_request_bind]
  refine ⟨(hc m).1, fun a ha => ?_⟩
  have hnext : watching.next m ⟨c, a⟩ = m := (hc m).2 a
  rw [hnext]
  cases hba : b a with
  | true => exact hk a hba
  | false =>
      refine ⟨hm, fun _ _ => ?_⟩
      by_contra hs
      exact ha hs (hb a hba)

/-- A Redis command of the iteration. -/
theorem safe_redis {c : Redis.Cmd Key Key.Elem} {f : Redis.Reply c.Bulk → Except Status α}
    (hc : (Cmd.redis c).Unwatched)
    (hf : ∀ reply e, f reply = .error e → Aborts ⟨.redis c, reply⟩) (hm : Near x m) :
    Safe watching (redisCommand c f).run m (Ends x) := by
  rw [safe_redisCommand]
  refine ⟨(hc m).1, fun reply hreply => ?_⟩
  have hnext : watching.next m ⟨.redis c, reply⟩ = m := (hc m).2 reply
  rw [hnext]
  refine ⟨hm, fun e he => ?_⟩
  by_contra hs
  exact hreply hs (hf reply e he)

/-! ### Sending -/

theorem Near.accept (hm : Near x m) {t : List Hash8019} {ok : Bool} :
    Near x (m.next ⟨.storeAndBroadcast t, ok⟩) := by
  cases ok with
  | false => exact hm
  | true =>
      cases hp : m.peeked with
      | none =>
          simp only [Watch.next, hp]
          exact hm
      | some y =>
          simp only [Watch.next, hp]
          exact ⟨Or.inr ((hp.symm.trans (hm.peeked.resolve_left (by rw [hp]; nofun)))), Or.inl rfl⟩

/-- A failed send accepts nothing. -/
theorem safe_taSendTrytes (I : Iota) (info : TaConfig) (iconf : IotaConfig)
    (trytes : List Hash8019) (hm : Near x m) :
    Safe watching (taSendTrytes I info iconf trytes).run m fun r m' =>
      Near x m' ∧ ∀ e, r = .error e → m'.sent = m.sent := by
  have hP : ∀ c : Cmd, c.Quiet → c.Unwatched := fun _ => Cmd.Quiet.unwatched
  rw [taSendTrytes, safe_run_bind]
  refine (safe_unwatched
    (uses_transactionsToApprove (fun c hc => hP c hc.quiet) I info iconf)).mono fun r m' hm' => ?_
  rw [hm']
  cases r with
  | error e => exact ⟨hm, fun _ _ => rfl⟩
  | ok tips =>
      dsimp only
      rw [safe_run_bind]
      refine (safe_unwatched
        (uses_taAttachToTangle (fun c hc => hP c hc.quiet) I trytes tips _)).mono
        fun r m' hm' => ?_
      rw [hm']
      cases r with
      | error e => exact ⟨hm, fun _ _ => rfl⟩
      | ok attached =>
          refine ⟨fun _ _ => id, fun ok _ => ?_⟩
          have hnear : Near x (m.next ⟨.storeAndBroadcast attached, ok⟩) := hm.accept
          cases ok with
          | false => exact ⟨hnear, fun _ _ => rfl⟩
          | true => exact ⟨hnear, fun _ he => by cases he⟩

/-- A bundle that cannot be sent does not fail. -/
theorem safe_taSendBundle (M : MamLib) (api : M.Api) (I : Iota) (info : TaConfig)
    (iconf : IotaConfig) (bundle : List Transaction) (hm : Near x m) :
    Safe watching (withApi M api (taSendBundle I info iconf bundle)).run m (Ends x) := by
  rw [withApi, safe_run_bind, safe_run_attempt, taSendBundle, safe_run_bind, safe_run_attempt]
  refine (safe_taSendTrytes I info iconf _ hm).mono fun r m' hm' => ?_
  exact ⟨hm'.1, fun _ he => by cases he⟩

theorem safe_mamCall (M : MamLib) (api : M.Api) (f : MamCall) (e : Status) (hm : Near x m) :
    Safe watching (mamCall M api f e).run m (Ends x) := by
  rw [mamCall, safe_run_request_bind]
  refine ⟨fun _ _ => id, fun ok hok => ?_⟩
  have hsent : (m.next ⟨.mam f, ok⟩).sent = m.sent := by cases f <;> rfl
  have hnear : Near x (m.next ⟨.mam f, ok⟩) := by
    refine ⟨hsent ▸ hm.sent, ?_⟩
    cases f with
    | announceChannel => exact Or.inl rfl
    | _ => exact hm.peeked
  cases ok with
  | true => exact ⟨hnear, nofun⟩
  | false =>
      refine ⟨hnear, fun _ _ => ?_⟩
      by_contra hs
      rw [hsent] at hs
      exact hok hs rfl

theorem safe_sendWritten (I : Iota) (M : MamLib) (info : TaConfig) (iconf : IotaConfig)
    (depth : Nat) (keys : MamEncryptKey) (wr : Written M) (hm : Near x m) :
    Safe watching (sendWritten I M info iconf depth keys wr).run m (Ends x) := by
  refine safe_then (safe_taSendBundle M wr.api I info iconf wr.bundle hm) fun bundle m₁ hm₁ => ?_
  dsimp only
  split
  · exact ⟨hm₁, nofun⟩
  · refine safe_then ?_ fun r m₂ hm₂ => ?_
    · refine safe_then ?_ fun ch m₂ hm₂ => ?_
      · exact safe_then (safe_mamCall M _ _ _ hm₁) fun _ m₂ hm₂ => ⟨hm₂, nofun⟩
      · exact safe_then (safe_mamCall M _ _ _ hm₂) fun _ m₃ hm₃ => ⟨hm₃, nofun⟩
    · exact safe_then (safe_taSendBundle M _ I info iconf _ hm₂) fun _ m₃ hm₃ => ⟨hm₃, nofun⟩

theorem safe_sendMamBody (I : Iota) (M : MamLib) (fuel : Nat) (info : TaConfig)
    (iconf : IotaConfig) (req : SendMamReq) (api : M.Api) (hm : Near x m) (hs : m.sent = none) :
    Safe watching (sendMamBody I M fuel info iconf req api).run m (Ends x) := by
  have hP : ∀ c : Cmd, c.Quiet → c.Unwatched := fun _ => Cmd.Quiet.unwatched
  refine safe_clean_then (uses_withApi M _ (uses_taSetMamKey (fun c hc => hP c hc.quiet) _ _)) hm hs
    fun keys => ?_
  refine safe_clean_then (uses_request hP trivial) hm hs fun sec => ?_
  refine safe_clean_then (uses_taMamWrittenMsgToBundle M (fun c hc => hP c hc.quiet) ..) hm hs
    fun r => ?_
  cases r with
  | none => exact ⟨hm, nofun⟩
  | some wr => exact safe_then (safe_sendWritten I M _ _ _ _ _ hm) fun _ m' hm' => ⟨hm', nofun⟩

/-- Nothing fails at the end of a MAM send where the message was accepted. -/
theorem safe_mamDone (M : MamLib) (seed : Option Hash243) (api : M.Api)
    (ret : Except Status SendMamRes) (hm : Ends x ret m) :
    Safe watching (mamDone M seed api ret).run m (Ends x) := by
  unfold mamDone
  split
  · exact hm
  · rw [safe_run_bind]
    have hsave : Safe watching (saveMamFile M api seed).run m fun r m' =>
        m' = m ∧ ∃ saved, r = .ok saved ∧ (saved = false → m.sent = none) := by
      cases seed with
      | some seed => exact ⟨rfl, true, rfl, nofun⟩
      | none =>
          refine ⟨fun _ _ => id, fun saved hsaved => ⟨rfl, saved, rfl, fun hf => ?_⟩⟩
          by_contra hs
          exact hsaved hs (congrArg not hf)
    refine hsave.mono fun r m' hr => ?_
    obtain ⟨rfl, saved, rfl, hsaved⟩ := hr
    refine ⟨fun _ _ => id, fun destroyed hd => ⟨hm.near, fun e he => ?_⟩⟩
    cases destroyed with
    | false =>
        by_contra hs
        exact hd hs rfl
    | true =>
        cases saved with
        | false => exact hsaved rfl
        | true => exact hm.failed e he

theorem safe_taSendMamMessage (I : Iota) (M : MamLib) (fuel : Nat) (info : TaConfig)
    (iconf : IotaConfig) (req : SendMamReq) (hm : Near x m) (hs : m.sent = none) :
    Safe watching (taSendMamMessage I M fuel info iconf req).run m (Ends x) := by
  have hdone : ∀ api (ret : Except Status SendMamRes) (m' : Watch), Ends x ret m' →
      Safe watching (some <$> mamDone M req.seed api ret).run m' (Ends x) := by
    intro api ret m' hm'
    rw [map_eq_pure_bind]
    exact safe_then (safe_mamDone M _ api ret hm') fun _ _ hm'' => ⟨hm'', nofun⟩
  refine safe_clean_then (uses_taMamInit M (fun _ hc => hc.quiet.unwatched) iconf _) hm hs
    fun api => ?_
  rw [safe_run_bind, safe_run_attempt]
  refine (safe_sendMamBody I M fuel info iconf req api hm hs).mono fun r m' hr => ?_
  rcases r with ⟨e, api'⟩ | ⟨_ | res, api'⟩
  · exact hdone api' (.error e) m' ⟨hr.near, fun _ _ => hr.failed _ rfl⟩
  · exact ⟨hr.near, nofun⟩
  · exact hdone api' (.ok res) m' ⟨hr.near, nofun⟩

/-! ### The iteration -/

variable {core : TaCore} (hstate : core.cache.state = true)
include hstate

theorem safe_cacheDel (hm : Near x m) :
    Safe watching (cacheDel core.cache.state (.uuid u)).run m (Ends x) := by
  rw [cacheDel, hstate, safe_cacheOn_true]
  refine safe_redis (unwatched_of_key nofun) (fun reply e he => ?_) hm
  split at he
  · rename_i hzero
    exact beq_iff_eq.mpr hzero
  · cases he

theorem safe_cacheListPushAll (es : List Hash8019) (hm : Near x m) :
    Safe watching (cacheListPushAll core.cache.state (.uuid u) es).run m (Ends x) := by
  induction es generalizing m with
  | nil => exact ⟨hm, nofun⟩
  | cons e es ih =>
      refine safe_then ?_ fun _ m' hm' => ih hm'
      rw [cacheListPush, hstate, safe_cacheOn_true]
      refine safe_redis (unwatched_of_key nofun) (fun reply e he => ?_) hm
      cases reply with
      | error => trivial
      | _ => cases he

theorem safe_publishTxn (I : Iota) (hm : Near x m) (hs : m.sent = none) :
    Safe watching (publishTxn I core u).run m (Ends x) := by
  have hkey : ∀ c : Redis.Cmd Key Key.Elem, c.key = .uuid u → (Cmd.redis c).Unwatched :=
    fun c hc => unwatched_of_key fun n hn => by rw [hc] at hn; cases hn
  refine safe_clean_then (Uses.cacheOn (uses_redisCommand.mpr (hkey _ rfl))) hm hs fun len => ?_
  refine safe_clean_then (uses_cacheListRead (fun i => hkey _ rfl) _) hm hs fun trytes => ?_
  refine safe_then ?_ fun attached m₁ hm₁ => ?_
  · refine (safe_taSendTrytes I _ _ _ hm).mono fun r m₁ hr => ⟨hr.1, fun e he => ?_⟩
    rw [hr.2 e he, hs]
  rw [safe_run_request_bind]
  refine ⟨fun _ _ => id, fun stored hstored => ?_⟩
  cases stored with
  | none =>
      refine ⟨hm₁, fun _ _ => ?_⟩
      by_contra hs₁
      exact hstored hs₁ rfl
  | some stored =>
      refine safe_then (y := demand (some stored) _) ⟨hm₁, nofun⟩ fun stored m₁ hm₁ => ?_
      refine safe_then (safe_cacheDel hstate hm₁) fun _ m₂ hm₂ => ?_
      refine safe_then (safe_cacheListPushAll hstate stored hm₂) fun _ m₃ hm₃ => ?_
      refine safe_guard (Cmd.OnLock.unwatched trivial) (fun _ hok => congrArg not hok) hm₃
        fun _ _ => ?_
      exact ⟨hm₃, nofun⟩

theorem safe_publishMam (I : Iota) (M : MamLib) (J : Codec) (fuel : Nat) (hm : Near x m)
    (hs : m.sent = none) : Safe watching (publishMam I M J core fuel u).run m (Ends x) := by
  have hkey : ∀ c : Redis.Cmd Key Key.Elem, c.key = .uuid u → (Cmd.redis c).Unwatched :=
    fun c hc => unwatched_of_key fun n hn => by rw [hc] at hn; cases hn
  refine safe_clean_then (Uses.cacheOn (uses_redisCommand.mpr (hkey _ rfl))) hm hs fun json => ?_
  refine safe_clean_then (uses_run_settle _) hm hs fun req => ?_
  refine safe_then (safe_taSendMamMessage I M fuel _ _ req hm hs) fun res m₁ hm₁ => ?_
  cases res with
  | none => exact ⟨hm₁, nofun⟩
  | some res =>
      refine safe_guard (Cmd.OnLock.unwatched trivial) (fun _ hok => congrArg not hok) hm₁
        fun _ _ => ?_
      refine safe_then (safe_cacheDel hstate hm₁) fun _ m₂ hm₂ => ?_
      refine safe_then ?_ fun _ m₃ hm₃ => ⟨hm₃, nofun⟩
      rw [cacheSet, hstate, safe_cacheOn_true]
      exact safe_redis (unwatched_of_key nofun) nofun hm₂

theorem safe_cacheListPeek (hs : m.sent = none) :
    Safe watching (cacheListPeek core.cache.state (.list n)).run m fun r m' =>
      m'.sent = none ∧ ∀ u, r = .ok u → Near (n, u) m' := by
  rw [cacheListPeek, hstate, safe_cacheOn_true, redisListPeek, safe_redisCommand]
  refine ⟨hs, fun reply _ => ?_⟩
  cases reply with
  | bulk u =>
      refine ⟨hs, fun v hv => ?_⟩
      cases hv
      exact ⟨Or.inl hs, Or.inr rfl⟩
  | _ => exact ⟨hs, nofun⟩

/-- The pop takes the accepted UUID. -/
theorem safe_cacheListPop (hm : Near (n, u) m) :
    Safe watching (cacheListPop core.cache.state (.list n)).run m fun _ m' => m'.sent = none := by
  rw [cacheListPop, hstate, safe_cacheOn_true, redisListPop, safe_redisCommand]
  refine ⟨trivial, fun reply hreply => ?_⟩
  have haborts : Aborts ⟨.redis (.lpop (.list n)), reply⟩ → m.sent = none := by
    intro ha
    by_contra hs
    exact hreply hs ha
  cases reply with
  | bulk p =>
      change (m.sent.filter fun x => x.1 ≠ n) = none
      rcases hm.sent with h | h <;> simp [h]
  | status => exact haborts rfl
  | integer k => exact haborts rfl
  | nil => exact haborts rfl
  | error => exact haborts rfl

/-- An iteration starts and ends with nothing that waits for its pop. -/
theorem safe_broadcastIteration {bufferList completeList : ListName}
    (hcomplete : ¬ completeList.IsBuffer) {publish : Uuid → Proc (Option α)}
    (hpublish : ∀ u m, Near (bufferList, u) m → m.sent = none →
      Safe watching (publish u).run m (Ends (bufferList, u)))
    (hs : m.sent = none) :
    Safe watching (broadcastIteration core.cache.state bufferList completeList publish).run m
      fun r m' => r = .ok .outOfFuel ∨ m'.sent = none := by
  rw [broadcastIteration, safe_run_bind]
  refine (safe_settled (Uses.cacheOn (uses_redisCommand.mpr settled_llen)) hs).mono
    fun r m₁ hs₁ => ?_
  cases r with
  | error e => exact Or.inr hs₁
  | ok len =>
      dsimp only
      split
      · exact Or.inr hs₁
      rw [safe_run_bind]
      refine (safe_cacheListPeek hstate hs₁).mono fun r m₂ hr₂ => ?_
      cases r with
      | error e => exact Or.inr hr₂.1
      | ok u =>
          dsimp only
          rw [safe_run_bind]
          refine (hpublish u m₂ (hr₂.2 u rfl) hr₂.1).mono fun r m₃ hr₃ => ?_
          rcases r with e | _ | sent
          · exact Or.inr (hr₃.failed e rfl)
          · exact Or.inl rfl
          · dsimp only
            rw [safe_run_bind]
            refine (safe_cacheListPop hstate hr₃.near).mono fun r m₄ hs₄ => ?_
            cases r with
            | error e => exact Or.inr hs₄
            | ok p =>
                refine (safe_settled ?_ hs₄).mono fun r m₅ hs₅ => Or.inr hs₅
                refine Uses.run_bind (Uses.cacheOn (uses_redisCommand.mpr
                  (unwatched_lpush hcomplete p).settled)) fun _ => ?_
                refine Uses.run_bind ((uses_run_request .unlock).mpr
                  (Cmd.OnLock.unwatched (c := .unlock) trivial).settled) fun ok => ?_
                exact Uses.run_bind (uses_run_ensure _ _) fun _ => trivial

omit hstate in
theorem safe_broadcastLoop {iteration : Proc (Pass α)}
    (hit : ∀ m : Watch, m.sent = none → Safe watching iteration.run m
      fun r m' => r = .ok .outOfFuel ∨ m'.sent = none) (fuel : Nat) (hs : m.sent = none) :
    Safe watching (broadcastLoop iteration fuel).run m
      fun r m' => r = .ok none ∨ m'.sent = none := by
  induction fuel generalizing m with
  | zero => exact Or.inl rfl
  | succ fuel ih =>
      rw [broadcastLoop, safe_run_bind]
      refine (hit m hs).mono fun r m' hr => ?_
      rcases r with e | _ | it | _
      · exact Or.inr (hr.resolve_left nofun)
      · exact Or.inr (hr.resolve_left nofun)
      · exact ih (hr.resolve_left nofun)
      · exact Or.inl rfl

/-! ### The rounds -/

omit hstate in
/-- The eviction works on the complete list, and the keys it deletes are not lists. -/
theorem safe_evict (fuel : Nat) {k : Key} (hk : ∀ n, k ≠ .list n) (hs : m.sent = none) :
    Safe watching (evict core fuel k).run m fun r m' =>
      m'.sent = none ∧ ∀ k', r = .ok (some k') → ∀ n, k' ≠ .list n := by
  have hret : ∀ {k' : Key} {m' : Watch}, (∀ n, k' ≠ .list n) → m'.sent = none →
      Safe watching (pure (some k') : Proc (Option Key)).run m' fun r m' =>
        m'.sent = none ∧ ∀ k', r = .ok (some k') → ∀ n, k' ≠ .list n := by
    intro k' m' hk' hs'
    refine ⟨hs', fun k'' h => ?_⟩
    cases h
    exact hk'
  induction fuel generalizing k m with
  | zero => exact ⟨hs, nofun⟩
  | succ fuel ih =>
      rw [evict, safe_run_request_bind]
      refine ⟨fun _ _ => id, fun occupied _ => ?_⟩
      split
      · rw [safe_run_request_bind]
        refine ⟨fun _ _ => id, fun locked _ => ?_⟩
        cases locked with
        | false => exact hret hk hs
        | true =>
            dsimp only
            rw [safe_run_bind, safe_run_attempt]
            refine (safe_settled (m := m) (Uses.cacheOn (uses_redisCommand.mpr settled_lpop))
              hs).mono fun popped m₁ hs₁ => ?_
            dsimp only
            have hlist : ∀ n, afterPop k popped ≠ .list n := by
              intro n
              cases popped with
              | ok u => nofun
              | error e => exact hk n
            rw [safe_run_bind, safe_run_attempt]
            refine (safe_settled (Uses.cacheOn (uses_redisCommand.mpr
              (unwatched_of_key (c := .del _) hlist).settled)) hs₁).mono fun _ m₂ hs₂ => ?_
            dsimp only
            rw [safe_run_bind]
            refine (safe_settled (uses_unlockLogged
              (Cmd.OnLock.unwatched (c := .unlock) trivial).settled) hs₂).mono fun r m₃ hs₃ => ?_
            cases r with
            | error e => exact ⟨hs₃, nofun⟩
            | ok _ => exact ih hlist hs₃
      · exact hret hk hs

theorem safe_broadcastBuffered (I : Iota) (M : MamLib) (J : Codec) (fuel : Nat)
    (ret : Except Status Unit) (hs : m.sent = none) :
    Safe watching (broadcastBuffered I M J core fuel ret).run m
      fun r m' => r = .ok none ∨ m'.sent = none := by
  unfold broadcastBuffered
  cases ret with
  | error e => exact Or.inr hs
  | ok _ =>
      dsimp only
      rw [safe_run_bind, safe_run_attempt]
      have htxn : ∀ m : Watch, m.sent = none → Safe watching (broadcastTxnIteration I core).run m
          fun r m' => r = .ok .outOfFuel ∨ m'.sent = none := fun m hs =>
        safe_broadcastIteration hstate id (fun u m hm hs => safe_publishTxn hstate I hm hs) hs
      refine (safe_broadcastLoop htxn fuel hs).mono fun r m₁ hr₁ => ?_
      rcases r with e | _ | _
      · exact Or.inr (hr₁.resolve_left nofun)
      · exact Or.inl rfl
      · dsimp only
        rw [safe_run_bind, safe_run_attempt]
        have hmam : ∀ m : Watch, m.sent = none →
            Safe watching (broadcastMamIteration I M J core fuel).run m
              fun r m' => r = .ok .outOfFuel ∨ m'.sent = none := fun m hs =>
          safe_broadcastIteration hstate id
            (fun u m hm hs => safe_publishMam hstate I M J fuel hm hs) hs
        refine (safe_broadcastLoop hmam fuel (hr₁.resolve_left nofun)).mono fun r m₂ hr₂ => ?_
        rcases r with e | _ | _
        · exact Or.inr (hr₂.resolve_left nofun)
        · exact Or.inl rfl
        · exact Or.inr (hr₂.resolve_left nofun)

omit hstate in
theorem uses_checkNode {P : Cmd → Prop} (hP : ∀ c : Cmd, c.Quiet → P c) (node : String × Nat) :
    Uses (S := sig) P (checkNode core node).run := by
  have hstatus : ∀ node, Uses (S := sig) P (taGetNodeStatus node).run := by
    intro node
    refine Uses.run_bind (uses_request hP trivial) fun info => ?_
    cases info with
    | milestones l s => exact uses_run_ensure _ _
    | _ => trivial
  have hupdate : ∀ hosts node, Uses (S := sig) P (taUpdateFullNodeConnection hosts node).run := by
    intro hosts
    induction hosts with
    | nil => exact fun _ => trivial
    | cons host hosts ih =>
        intro node
        refine Uses.run_bind (uses_run_attempt (hstatus host)) fun r => ?_
        cases r with
        | ok _ => trivial
        | error e => exact ih host
  refine Uses.run_bind (uses_run_attempt (hstatus node)) fun r => ?_
  split
  · exact Uses.run_bind (hupdate _ _) fun _ => trivial
  · exact Uses.run_bind (hupdate _ _) fun _ => trivial
  · trivial

/-- The thread of `health_track` obeys the protocol. -/
theorem safe_healthTrack (I : Iota) (M : MamLib) (J : Codec) (fuel rounds : Nat)
    (node : String × Nat) {k : Key} (hk : ∀ n, k ≠ .list n) (hs : m.sent = none) :
    Safe watching (healthTrack I M J core fuel rounds node k).run m fun _ _ => True := by
  induction rounds generalizing node k m with
  | zero => trivial
  | succ rounds ih =>
      rw [healthTrack, hstate, if_pos rfl, safe_run_bind, healthTrackRound, safe_run_bind]
      refine (safe_unwatched (uses_checkNode (fun _ => Cmd.Quiet.unwatched) node)).mono
        fun r m₁ hm₁ => ?_
      rw [hm₁]
      cases r with
      | error e => trivial
      | ok checked =>
          obtain ⟨node', ret⟩ := checked
          dsimp only
          rw [safe_run_bind]
          refine (safe_broadcastBuffered hstate I M J fuel ret hs).mono fun r m₂ hr₂ => ?_
          rcases r with e | _ | _
          · trivial
          · trivial
          · dsimp only
            rw [safe_run_bind]
            refine (safe_evict fuel hk (hr₂.resolve_left nofun)).mono fun r m₃ hr₃ => ?_
            rcases r with e | _ | k'
            · trivial
            · trivial
            · exact ih node' (hr₃.2 k' rfl) hr₃.1

end Obeys

/-! ## Every interleaving -/

/-- A call of a client. -/
inductive Fetch where
  | txn (u : Uuid)
  | mam (u : Uuid)

/-- The function that is called. -/
def Fetch.call (I : Iota) (cache : TaCache) : Fetch → Proc FetchRes
  | .txn u => taFetchTxnWithUuid I cache u
  | .mam u => taFetchMamWithUuid cache u

/-- A client: one fetch after the other, whatever they return. -/
def fetchAll (I : Iota) (cache : TaCache) : List Fetch → Proc Unit
  | [] => pure ()
  | f :: fs => do
      let _ ← attempt (f.call I cache)
      fetchAll I cache fs

/-- The thread of `health_track`, and clients that fetch. -/
def trackPool (I : Iota) (M : MamLib) (J : Codec) (core : TaCore) (fuel rounds : Nat)
    (node : String × Nat) (clients : List (List Fetch)) (w : World) :
    Pool world (Except Status Unit) :=
  ⟨(healthTrack I M J core fuel rounds node .empty).run ::
    clients.map fun fs => (fetchAll I core.cache fs).run, w⟩

/-- The UUIDs whose content the node accepted, one entry for each time. -/
def accepted (τ : List (Event sig)) : List (ListName × Uuid) := (watching.after {} τ).log

/-- Nothing fails between an accepted send and the pop that follows it. -/
def NoLateFailure (τ : List (Event sig)) : Prop :=
  ∀ τ₁ e τ₂, τ = τ₁ ++ e :: τ₂ → (watching.after {} τ₁).sent ≠ none → Aborts e = false

theorem noLateFailure_iff {τ : List (Event sig)} :
    NoLateFailure τ ↔ watching.Admitted {} τ := by
  rw [Protocol.admitted_iff]
  simp only [NoLateFailure, watching, ne_eq, Bool.not_eq_true]

instance : DecidablePred NoLateFailure := fun _ => decidable_of_iff _ noLateFailure_iff.symm

/-- Fetches leave the buffer lists alone. -/
theorem uses_fetchAll (I : Iota) (cache : TaCache) (fs : List Fetch) :
    Uses (S := sig) (fun c => ∀ n : ListName, n.IsBuffer → ¬ c.WritesKey (.list n))
      (fetchAll I cache fs).run := by
  have hlock : ∀ c : Cmd, c.OnLock → ∀ n : ListName, n.IsBuffer → ¬ c.WritesKey (.list n) := by
    intro c hc n _
    cases c with
    | redis c => exact hc.elim
    | _ => exact id
  induction fs with
  | nil => trivial
  | cons f fs ih =>
      refine Uses.run_bind (uses_run_attempt ?_) fun _ => ih
      cases f with
      | txn u =>
          refine uses_taFetchTxnWithUuid I cache u hlock (fun c hc n _ hk => hc hk.1) ?_ ?_
          · exact fun n _ hk => by cases hk.2
          · exact fun n hn hk => by cases hk.2; exact hn
      | mam u =>
          refine uses_taFetchMamWithUuid cache u hlock (fun c hc n _ hk => hc hk.1) ?_ ?_
          · exact fun n _ hk => by cases hk.2
          · exact fun n hn hk => by cases hk.2; exact hn

namespace Sample

/-- The node does not return what it has accepted. -/
def forgetful : (c : Cmd) → Choice c
  | .getTrytes _ => none
  | c => good c

/-- Two rounds of `health_track`, and a client that asks for the UUID `1`. -/
def track (w : World) : Pool world (Except Status Unit) :=
  trackPool iota mam codec core 2 2 ("", 0) [[.txn 1#128]] w

end Sample

end TangleAccelerator
