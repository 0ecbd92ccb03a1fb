import TangleAccelerator.Buffer.Stored

/-!
# A request that cannot be sent

Both broadcast functions read the head of their buffer list, send what is stored under it, and move
it to the complete list.  Where the send fails they return, and the request stays at the head.  So a
request that can never be sent keeps the ones behind it from being sent, in every call.

The surroundings (`Surroundings`) refuse nothing of the cache, and otherwise they may be anything in
which it is fixed, for each buffered request, whether its own send succeeds.  A call then sends the
requests up to the first one that cannot be sent, and leaves the others (`runs_broadcastLoop`).
-/

namespace TangleAccelerator

open Effect

/-- What the accelerator runs in: any server that serves the cache and the lock as a steady world
does. -/
structure Surroundings where
  server : Server sig
  view : server.State → World
  serves : ∀ {s s' : server.State} {e : Event sig}, server.Serves s e s' →
    steady.Serves (view s) e (view s')
  choice : (c : Cmd) → server.Choice c

namespace Surroundings

variable (S : Surroundings)

/-- In every run the program succeeds with such a value, or in every run it fails. -/
def Decides {α : Type} (x : Proc α) (done : α → Prop) (succeeds : Bool) : Prop :=
  ∀ s τ r s', Runs S.server x.run s τ r s' →
    if succeeds then ∃ a, r = .ok a ∧ done a else ∃ e, r = .error e

variable {S} {α : Type} {s s' : S.server.State} {τ : List (Event sig)}

theorem Decides.success {x : Proc α} {done : α → Prop} {r : Except Status α}
    (h : S.Decides x done true) (hrun : Runs S.server x.run s τ r s') :
    ∃ a, r = .ok a ∧ done a := h s τ r s' hrun

theorem Decides.failure {x : Proc α} {done : α → Prop} {r : Except Status α}
    (h : S.Decides x done false) (hrun : Runs S.server x.run s τ r s') :
    ∃ e, r = .error e := h s τ r s' hrun

theorem runs {p : Prog sig α} {a : α} (h : Runs S.server p s τ a s') :
    Runs steady p (S.view s) τ a (S.view s') :=
  ⟨h.1, h.2.simulates S.serves⟩

/-- A command of the cache. -/
theorem redis_of_runs {c : Redis.Cmd Key Key.Elem} {f : Redis.Reply c.Bulk → Except Status α}
    {r : Except Status α} (h : Runs S.server (cacheOn true (redisCommand c f)).run s τ r s') :
    r = f (Redis.exec c (S.view s).redis).1 ∧
      (S.view s').redis = (Redis.exec c (S.view s).redis).2 ∧
      (S.view s').lock = (S.view s).lock := by
  obtain ⟨hr, hw⟩ := steady_cacheOn (runs h)
  rw [hw]
  exact ⟨hr, rfl, rfl⟩

/-- A command that only reads. -/
theorem view_of_read {c : Redis.Cmd Key Key.Elem} {f : Redis.Reply c.Bulk → Except Status α}
    {r : Except Status α} (hc : ¬ c.Writes)
    (h : Runs S.server (cacheOn true (redisCommand c f)).run s τ r s') :
    r = f (Redis.exec c (S.view s).redis).1 ∧ S.view s' = S.view s := by
  obtain ⟨hr, hw⟩ := steady_cacheOn (runs h)
  have hsame : (Redis.exec c (S.view s).redis).2 = (S.view s).redis :=
    Redis.Answers.not_writes ⟨false, rfl⟩ hc
  rw [hw, hsame]
  exact ⟨hr, rfl⟩

theorem onCache_of_writesKey {c : Cmd} {k : Key} (h : c.WritesKey k) : c.OnCache := by
  cases c with
  | redis c => trivial
  | _ => exact h.elim

theorem onCache_of_onLock {c : Cmd} (h : c.OnLock) : c.OnCache := by
  cases c with
  | tryrdlock => trivial
  | trywrlock => trivial
  | unlock => trivial
  | _ => exact h.elim

/-- A program that does not write a key leaves it alone. -/
theorem key_of_runs {p : Prog sig α} {a : α} {k : Key} (h : Runs S.server p s τ a s')
    (hp : Uses (S := sig) (fun c => ¬ c.WritesKey k) p) :
    (S.view s').redis k = (S.view s).redis k :=
  served_key (Served.of_steady (runs h).2) (hp.path h.1)

/-- A program that has nothing to do with the lock leaves it alone. -/
theorem lock_of_runs {p : Prog sig α} {a : α} (h : Runs S.server p s τ a s')
    (hp : Uses (S := sig) (fun c => ¬ c.OnLock) p) : (S.view s').lock = (S.view s).lock := by
  have hserved := Served.of_steady (runs h).2
  have hcmds := hp.path h.1
  refine hserved.keeps (I := fun w : World => w.lock = (S.view s).lock) ?_ rfl
  intro e he w₁ w₂ hs hI
  exact (serves_lock_eq hs (hcmds e he)).trans hI

/-- A program that has nothing to do with the cache leaves it alone. -/
theorem cache_of_runs {p : Prog sig α} {a : α} (h : Runs S.server p s τ a s')
    (hp : Uses (S := sig) (fun c => ¬ c.OnCache) p) :
    (S.view s').lock = (S.view s).lock ∧ ∀ k, (S.view s').redis k = (S.view s).redis k :=
  ⟨lock_of_runs h (hp.mono fun _ hc hl => hc (onCache_of_onLock hl)),
    fun _ => key_of_runs h (hp.mono fun _ hc hw => hc (onCache_of_writesKey hw))⟩

/-- A deletion of a key that holds something counts it. -/
theorem deleted_of_ne_none {db : Cache} {k : Key} (h : db k ≠ none) :
    integerField (Redis.exec (.del k) db).1 ≠ 0 := by
  have hsome : (db k).isNone = false :=
    Option.isNone_eq_false_iff.mpr (Option.isSome_iff_ne_none.mpr h)
  rw [Redis.exec_del, hsome]
  exact Nat.one_ne_zero

end Surroundings

open Surroundings

/-! ## A call of a broadcast function -/

/-- What a call needs to know of the steps between the peek and the pop, for the UUIDs it finds and
the database it starts from: they work on the key of the UUID, and they succeed, take the lock and
send exactly for the UUIDs that are sendable. -/
structure Publication (S : Surroundings) {α : Type} (publish : Uuid → Proc (Option α))
    (sendable : Uuid → Bool) (Sends : Uuid → List (Event sig) → Prop) (us : List Uuid)
    (db : Cache) : Prop where
  append : ∀ {u τ}, Sends u τ → ∀ τ₁ τ₂, Sends u (τ₁ ++ (τ ++ τ₂))
  frame : ∀ {u s τ r s'}, Runs S.server (publish u).run s τ r s' → ∀ k, k ≠ .uuid u →
    (S.view s').redis k = (S.view s).redis k
  sends : ∀ {u s τ r s'}, u ∈ us → sendable u = true → (S.view s).lock = .readers 0 →
    (S.view s).redis (.uuid u) = db (.uuid u) → Runs S.server (publish u).run s τ r s' →
    (∃ a, r = .ok (some a)) ∧ Sends u τ ∧ (S.view s').lock = .writer
  fails : ∀ {u s τ r s'}, u ∈ us → sendable u = false → (S.view s).lock = .readers 0 →
    (S.view s).redis (.uuid u) = db (.uuid u) → Runs S.server (publish u).run s τ r s' →
    ∃ e, r = .error e

section Loop

variable {S : Surroundings} {α : Type} {n m : ListName} {publish : Uuid → Proc (Option α)}
  {sendable : Uuid → Bool} {Sends : Uuid → List (Event sig) → Prop} {all : List Uuid} {db : Cache}
  {s s' : S.server.State} {τ : List (Event sig)}

/-- The steps of a pass after the publication. -/
def passEnd (n m : ListName) (uuid : Uuid) : Option α → Proc (Pass α)
  | none => pure .outOfFuel
  | some sent => do
      let popped ← cacheListPop true (.list n)
      cacheListPush true (.list m) popped
      ensure (← request .unlock) .cacheLockFailure
      pure (.moved ⟨uuid, sent, popped⟩)

/-- A call can start: the lock is free, and the lists are lists. -/
structure Ready (n m : ListName) (us : List Uuid) (w : World) : Prop where
  lock : w.lock = .readers 0
  buffered : Redis.items w.redis (.list n) = us
  buffer : Redis.isStr w.redis (.list n) = false
  complete : Redis.isStr w.redis (.list m) = false

/-- A call with an empty buffer list. -/
theorem runs_pass_empty {r : Except Status (Pass α)} (hready : Ready n m [] (S.view s))
    (h : Runs S.server (broadcastIteration true n m publish).run s τ r s') :
    r = .ok .empty ∧ S.view s' = S.view s := by
  rw [broadcastIteration, runs_run_bind] at h
  rcases h with ⟨e, -, hlen⟩ | ⟨len, τ₁, τ₂, s₁, -, hlen, h⟩
  · obtain ⟨hr, -⟩ := view_of_read id hlen
    rw [Redis.exec_llen_eq hready.buffer] at hr
    cases hr
  · obtain ⟨hr, hs₁⟩ := view_of_read id hlen
    rw [Redis.exec_llen_eq hready.buffer] at hr
    obtain rfl := Except.ok.inj hr
    rw [integerField, hready.buffered, List.length_nil, if_pos rfl] at h
    obtain ⟨-, rfl, rfl⟩ := (runs_run_pure ..).mp h
    exact ⟨rfl, hs₁⟩

/-- A pass over a list that is not empty publishes what is stored under its head. -/
theorem runs_pass_cons {r : Except Status (Pass α)} {u : Uuid} {us : List Uuid}
    (hready : Ready n m (u :: us) (S.view s))
    (h : Runs S.server (broadcastIteration true n m publish).run s τ r s') :
    ∃ s₁ τ₁ τ₂, S.view s₁ = S.view s ∧ τ = τ₁ ++ τ₂ ∧
      Runs S.server (publish u >>= passEnd n m u).run s₁ τ₂ r s' := by
  rw [broadcastIteration, runs_run_bind] at h
  rcases h with ⟨e, -, hlen⟩ | ⟨len, τ₁, τ₂, s₁, rfl, hlen, h⟩
  · obtain ⟨hr, -⟩ := view_of_read id hlen
    rw [Redis.exec_llen_eq hready.buffer] at hr
    cases hr
  obtain ⟨hr, hs₁⟩ := view_of_read id hlen
  rw [Redis.exec_llen_eq hready.buffer] at hr
  obtain rfl := Except.ok.inj hr
  have hhead : (Redis.items (S.view s₁).redis (.list n))[0]? = some u := by
    rw [hs₁, hready.buffered]
    rfl
  rw [integerField, hready.buffered, List.length_cons, if_neg (Nat.succ_ne_zero _),
    runs_run_bind] at h
  rcases h with ⟨e, -, hpeek⟩ | ⟨v, τ₃, τ₄, s₂, rfl, hpeek, h⟩
  · obtain ⟨hr, -⟩ := view_of_read id hpeek
    rw [Redis.exec_lindex hhead] at hr
    cases hr
  obtain ⟨hr, hs₂⟩ := view_of_read id hpeek
  rw [Redis.exec_lindex hhead] at hr
  obtain rfl := Except.ok.inj hr
  refine ⟨s₂, τ₁ ++ τ₃, τ₄, hs₂.trans hs₁, (List.append_assoc ..).symm, ?_⟩
  rw [runs_run_bind] at h ⊢
  rcases h with hfailed | ⟨out, τ₅, τ₆, s₃, rfl, hpublish, hrest⟩
  · exact Or.inl hfailed
  · refine Or.inr ⟨out, τ₅, τ₆, s₃, rfl, hpublish, ?_⟩
    cases out with
    | none => exact hrest
    | some sent => exact hrest

/-- The end of a pass moves the head. -/
theorem runs_passEnd {r : Except Status (Pass α)} {u : Uuid} {us : List Uuid} {a : α} (hne : n ≠ m)
    (hlock : (S.view s).lock = .writer)
    (hitems : Redis.items (S.view s).redis (.list n) = u :: us)
    (hstr : Redis.isStr (S.view s).redis (.list m) = false)
    (h : Runs S.server (passEnd n m u (some a)).run s τ r s') :
    r = .ok (.moved ⟨u, a, u⟩) ∧ (S.view s').lock = .readers 0 ∧
      (S.view s').redis = Function.update
        (Function.update (S.view s).redis (.list n) (Redis.ofList us)) (.list m)
          (some (.list u (Redis.items (S.view s).redis (.list m)))) := by
  have hkey : (Key.list m) ≠ .list n := fun hk => hne (Key.list.inj hk).symm
  rw [passEnd, runs_run_bind] at h
  rcases h with ⟨e, -, hpop⟩ | ⟨v, τ₁, τ₂, s₁, -, hpop, h⟩
  · obtain ⟨hr, -⟩ := redis_of_runs hpop
    rw [Redis.exec_lpop_eq hitems] at hr
    cases hr
  obtain ⟨hr, hs₁, hlock₁⟩ := redis_of_runs hpop
  rw [Redis.exec_lpop_eq hitems] at hr hs₁
  obtain rfl := Except.ok.inj hr
  have hsame : (S.view s₁).redis (.list m) = (S.view s).redis (.list m) := by
    rw [hs₁]
    exact Function.update_of_ne hkey ..
  have hstr₁ : Redis.isStr (S.view s₁).redis (.list m) = false := by
    rw [← hstr, Redis.isStr, Redis.isStr, hsame]
  rw [runs_run_bind] at h
  rcases h with ⟨e, -, hpush⟩ | ⟨_, τ₃, τ₄, s₂, -, hpush, h⟩
  · obtain ⟨hr, -⟩ := redis_of_runs hpush
    rw [Redis.exec_lpush_eq hstr₁] at hr
    cases hr
  obtain ⟨-, hs₂, hlock₂⟩ := redis_of_runs hpush
  rw [Redis.exec_lpush_eq hstr₁, Redis.items, hsame, hs₁] at hs₂
  rw [runs_run_request_bind] at h
  obtain ⟨ok, τ₅, s₃, -, hunlock, h⟩ := h
  obtain ⟨rfl, hs₃⟩ := steady_unlock (S.serves hunlock)
  rw [ensure_true_bind] at h
  obtain ⟨-, rfl, rfl⟩ := (runs_run_pure ..).mp h
  rw [hs₃, hlock₂, hlock₁, hlock]
  exact ⟨rfl, rfl, hs₂⟩

/-- A pass whose head can be sent. -/
theorem runs_pass_sends (hp : Publication S publish sendable Sends all db) (hne : n ≠ m)
    {r : Except Status (Pass α)} {u : Uuid} {us : List Uuid} (hu : u ∈ all)
    (hsendable : sendable u = true) (hready : Ready n m (u :: us) (S.view s))
    (hvalue : (S.view s).redis (.uuid u) = db (.uuid u))
    (h : Runs S.server (broadcastIteration true n m publish).run s τ r s') :
    (∃ it, r = .ok (.moved it)) ∧ Ready n m us (S.view s') ∧ Sends u τ ∧
      Redis.items (S.view s').redis (.list m) = u :: Redis.items (S.view s).redis (.list m) ∧
      ∀ v, v ≠ u → (S.view s').redis (.uuid v) = (S.view s).redis (.uuid v) := by
  obtain ⟨s₁, τ₁, τ₂, hview, rfl, hpass⟩ := runs_pass_cons hready h
  rw [← hview] at hready hvalue ⊢
  rw [runs_run_bind] at hpass
  rcases hpass with ⟨e, -, hpublish⟩ | ⟨out, τ₃, τ₄, s₂, rfl, hpublish, hend⟩
  · obtain ⟨⟨a, ha⟩, -⟩ := hp.sends hu hsendable hready.lock hvalue hpublish
    cases ha
  obtain ⟨⟨a, ha⟩, hsends, hlock⟩ := hp.sends hu hsendable hready.lock hvalue hpublish
  obtain rfl := Except.ok.inj ha
  have hlist : ∀ l, (S.view s₂).redis (.list l) = (S.view s₁).redis (.list l) := fun l =>
    hp.frame hpublish _ (by simp)
  have hitems : Redis.items (S.view s₂).redis (.list n) = u :: us := by
    rw [Redis.items, hlist]
    exact hready.buffered
  have hstr : Redis.isStr (S.view s₂).redis (.list m) = false := by
    rw [Redis.isStr, hlist]
    exact hready.complete
  obtain ⟨rfl, hfree, hredis⟩ := runs_passEnd hne hlock hitems hstr hend
  have hkey : (Key.list n) ≠ .list m := fun hk => hne (Key.list.inj hk)
  have hbuffer : (S.view s').redis (.list n) = Redis.ofList us := by
    rw [hredis, Function.update_of_ne hkey, Function.update_self]
  have hcomplete : (S.view s').redis (.list m) =
      some (.list u (Redis.items (S.view s₁).redis (.list m))) := by
    rw [hredis, Function.update_self, Redis.items, Redis.items, hlist]
  refine ⟨⟨_, rfl⟩, ⟨hfree, ?_, ?_, ?_⟩, hp.append hsends τ₁ τ₄, ?_, ?_⟩
  · rw [Redis.items, hbuffer, Redis.items_ofList]
  · rw [Redis.isStr, hbuffer]
    cases us <;> rfl
  · rw [Redis.isStr, hcomplete]
  · rw [Redis.items, hcomplete]
    rfl
  · intro v hv
    rw [hredis, Function.update_of_ne (by simp), Function.update_of_ne (by simp)]
    exact hp.frame hpublish _ (by simpa using hv)

/-- A pass whose head cannot be sent. -/
theorem runs_pass_fails (hp : Publication S publish sendable Sends all db)
    {r : Except Status (Pass α)} {u : Uuid} {us : List Uuid} (hu : u ∈ all)
    (hsendable : sendable u = false) (hready : Ready n m (u :: us) (S.view s))
    (hvalue : (S.view s).redis (.uuid u) = db (.uuid u))
    (h : Runs S.server (broadcastIteration true n m publish).run s τ r s') :
    (∃ e, r = .error e) ∧ ∀ l, (S.view s').redis (.list l) = (S.view s).redis (.list l) := by
  obtain ⟨s₁, τ₁, τ₂, hview, rfl, hpass⟩ := runs_pass_cons hready h
  rw [← hview] at hready hvalue ⊢
  rw [runs_run_bind] at hpass
  rcases hpass with ⟨e, rfl, hpublish⟩ | ⟨out, τ₃, τ₄, s₂, rfl, hpublish, -⟩
  · exact ⟨⟨e, rfl⟩, fun l => hp.frame hpublish _ (by simp)⟩
  · obtain ⟨e, he⟩ := hp.fails hu hsendable hready.lock hvalue hpublish
    cases he

/-- A call sends what is before the first UUID that cannot be sent, and leaves the others. -/
theorem runs_broadcastLoop (hp : Publication S publish sendable Sends all db) (hne : n ≠ m)
    {fuel : Nat} {us : List Uuid} {r : Except Status (Option Unit)}
    (hready : Ready n m us (S.view s)) (hnodup : us.Nodup) (hall : ∀ u ∈ us, u ∈ all)
    (hvalues : ∀ u ∈ us, (S.view s).redis (.uuid u) = db (.uuid u)) (hfuel : us.length < fuel)
    (h : Runs S.server (broadcastLoop (broadcastIteration true n m publish) fuel).run s τ r s') :
    Redis.items (S.view s').redis (.list n) = us.dropWhile sendable ∧
      Redis.items (S.view s').redis (.list m) =
        (us.takeWhile sendable).reverse ++ Redis.items (S.view s).redis (.list m) ∧
      ∀ u ∈ us.takeWhile sendable, Sends u τ := by
  induction us generalizing fuel s τ with
  | nil =>
      obtain ⟨fuel, rfl⟩ := Nat.exists_eq_succ_of_ne_zero (Nat.ne_of_gt hfuel)
      rw [broadcastLoop, runs_run_bind] at h
      rcases h with ⟨e, -, hpass⟩ | ⟨pass, τ₁, τ₂, s₁, -, hpass, h⟩
      · cases (runs_pass_empty hready hpass).1
      · obtain ⟨hpass', hview⟩ := runs_pass_empty hready hpass
        obtain rfl := Except.ok.inj hpass'
        obtain ⟨-, -, rfl⟩ := (runs_run_pure ..).mp h
        rw [hview]
        exact ⟨hready.buffered, rfl, fun u hu => absurd hu List.not_mem_nil⟩
  | cons u us ih =>
      rw [List.length_cons] at hfuel
      obtain ⟨fuel, rfl⟩ := Nat.exists_eq_succ_of_ne_zero (Nat.ne_of_gt (Nat.zero_lt_of_lt hfuel))
      rw [List.nodup_cons] at hnodup
      rw [List.forall_mem_cons] at hall hvalues
      rw [broadcastLoop, runs_run_bind] at h
      cases hsendable : sendable u with
      | true =>
          rw [List.dropWhile_cons_of_pos hsendable, List.takeWhile_cons_of_pos hsendable]
          rcases h with ⟨e, -, hpass⟩ | ⟨pass, τ₁, τ₂, s₁, rfl, hpass, h⟩
          · obtain ⟨⟨it, hit⟩, -⟩ := runs_pass_sends hp hne hall.1 hsendable hready hvalues.1 hpass
            cases hit
          obtain ⟨⟨it, hit⟩, hready₁, hsends, hitems, hkeep⟩ :=
            runs_pass_sends hp hne hall.1 hsendable hready hvalues.1 hpass
          obtain rfl := Except.ok.inj hit
          have hvalues₁ : ∀ v ∈ us, (S.view s₁).redis (.uuid v) = db (.uuid v) := by
            intro v hv
            rw [hkeep v fun huv => hnodup.1 (huv ▸ hv)]
            exact hvalues.2 v hv
          obtain ⟨hdrop, htake, hrest⟩ := ih hready₁ hnodup.2 hall.2 hvalues₁
            (Nat.lt_of_succ_lt_succ hfuel) h
          refine ⟨hdrop, ?_, List.forall_mem_cons.mpr ⟨?_, fun v hv => ?_⟩⟩
          · rw [htake, hitems, List.reverse_cons, List.append_assoc, List.singleton_append]
          · exact hp.append hsends [] τ₂
          · have hmore := hp.append (hrest v hv) τ₁ []
            rwa [List.append_nil] at hmore
      | false =>
          rw [List.dropWhile_cons_of_neg (by simp [hsendable]),
            List.takeWhile_cons_of_neg (by simp [hsendable])]
          rcases h with ⟨e, -, hpass⟩ | ⟨pass, τ₁, τ₂, s₁, -, hpass, -⟩
          · obtain ⟨-, hlists⟩ := runs_pass_fails hp hall.1 hsendable hready hvalues.1 hpass
            refine ⟨?_, ?_, fun v hv => absurd hv List.not_mem_nil⟩
            · rw [Redis.items, hlists]
              exact hready.buffered
            · rw [Redis.items, hlists]
              rfl
          · obtain ⟨⟨e, he⟩, -⟩ := runs_pass_fails hp hall.1 hsendable hready hvalues.1 hpass
            cases he

/-- Nothing that is good is left behind exactly when nothing good comes after something bad. -/
theorem forall_dropWhile_iff {ok : Uuid → Bool} (us : List Uuid) :
    (∀ u ∈ us.dropWhile ok, ok u = false) ↔
      us.Pairwise fun u v => ok u = false → ok v = false := by
  induction us with
  | nil => simp
  | cons u us ih =>
      rw [List.pairwise_cons]
      cases hok : ok u with
      | true =>
          rw [List.dropWhile_cons_of_pos hok, ih]
          simp only [Bool.true_eq_false, false_imp_iff, implies_true, true_and]
      | false =>
          rw [List.dropWhile_cons_of_neg (by simp [hok]), List.forall_mem_cons]
          simp only [forall_const]
          refine ⟨fun h => ⟨h.2, ?_⟩, fun h => ⟨hok, h.1⟩⟩
          exact List.pairwise_of_forall_mem_list fun v _ v' hv' _ => h.2 v' hv'

/-- In every run every buffered UUID that can be sent is sent and moved to the complete list. -/
def SendsAll (S : Surroundings) (call : Proc (Option Unit)) (n m : ListName)
    (sendable : Uuid → Bool) (Sends : Uuid → List (Event sig) → Prop) (s : S.server.State) : Prop :=
  ∀ τ r s', Runs S.server call.run s τ r s' →
    ∀ u ∈ Redis.items (S.view s).redis (.list n), sendable u = true →
      Sends u τ ∧ u ∈ Redis.items (S.view s').redis (.list m) ∧
        u ∉ Redis.items (S.view s').redis (.list n)

theorem sendsAll_iff {us : List Uuid} {fuel : Nat}
    (hp : Publication S publish sendable Sends us (S.view s).redis) (hne : n ≠ m)
    (hready : Ready n m us (S.view s)) (hnodup : us.Nodup) (hfuel : us.length < fuel) :
    SendsAll S (broadcastLoop (broadcastIteration true n m publish) fuel) n m sendable Sends s ↔
      us.Pairwise fun u v => sendable u = false → sendable v = false := by
  rw [← forall_dropWhile_iff, SendsAll, hready.buffered]
  constructor
  · intro h u hu
    have hrun := runs_exec (V := S.server)
      (broadcastLoop (broadcastIteration true n m publish) fuel).run (fun _ => S.choice) s
    obtain ⟨hdrop, -, -⟩ := runs_broadcastLoop hp hne hready hnodup (fun _ => id) (fun _ _ => rfl)
      hfuel hrun
    by_contra hsendable
    obtain ⟨-, -, hgone⟩ := h _ _ _ hrun u ((List.dropWhile_sublist _).subset hu)
      (Bool.not_eq_false _ ▸ hsendable)
    rw [hdrop] at hgone
    exact hgone hu
  · intro h τ r s' hrun u hu hsendable
    obtain ⟨hdrop, htake, hsends⟩ := runs_broadcastLoop hp hne hready hnodup (fun _ => id)
      (fun _ _ => rfl) hfuel hrun
    have hgone : u ∉ us.dropWhile sendable := by
      intro hmem
      rw [h u hmem] at hsendable
      cases hsendable
    have hmem : u ∈ us.takeWhile sendable := by
      rw [← List.takeWhile_append_dropWhile (p := sendable) (l := us), List.mem_append] at hu
      exact hu.resolve_right hgone
    rw [hdrop, htake]
    exact ⟨hsends u hmem, List.mem_append_left _ (List.mem_reverse.mpr hmem), hgone⟩

end Loop

/-! ## MAM requests -/

section Mam

variable {S : Surroundings} {I : Iota} {M : MamLib} {J : Codec} {core : TaCore} {fuel : Nat}
  {us : List Uuid} {db : Cache}

/-- A request that was accepted is stored under the UUID, and its own send succeeds. -/
def mamSendable (J : Codec) (verdict : SendMamReq → Bool) (db : Cache) (u : Uuid) : Bool :=
  match db (.uuid u) with
  | some (.str json) =>
      match J.sendMamReq json with
      | .ok req => verdict req
      | .error _ => false
  | _ => false

/-- The trace has the send of the request that is stored under the UUID. -/
def MamSends (I : Iota) (M : MamLib) (J : Codec) (core : TaCore) (fuel : Nat) (db : Cache)
    (u : Uuid) (τ : List (Event sig)) : Prop :=
  ∃ json res, db (.uuid u) = some (.str json) ∧ SentIn I M J core fuel json res τ

/-- The surroundings decide the sends of the requests that are stored. -/
def DecidesMam (S : Surroundings) (I : Iota) (M : MamLib) (J : Codec) (core : TaCore) (fuel : Nat)
    (verdict : SendMamReq → Bool) (us : List Uuid) (db : Cache) : Prop :=
  ∀ u ∈ us, ∀ json req, db (.uuid u) = some (.str json) → J.sendMamReq json = .ok req →
    S.Decides (taSendMamMessage I M fuel core.taConf core.iotaConf req) (fun res => res ≠ none)
      (verdict req)

/-- The steps of the publication after the send. -/
def publishEnd (J : Codec) (core : TaCore) (uuid : Uuid) (json : String) :
    Option SendMamRes → Proc (Option String)
  | none => pure none
  | some res => do
      ensure (← request .trywrlock) .cacheLockFailure
      cacheDel core.cache.state (.uuid uuid)
      cacheSet core.cache.state (.uuid uuid) (J.sendMamRes res) core.cache.timeout
      pure (some json)

/-- The start of the publication: the text is read and understood, and the request is sent. -/
theorem runs_publishMam_stored {u : Uuid} {s s' : S.server.State} {τ : List (Event sig)}
    {r : Except Status (Option String)} {json : String} (hstate : core.cache.state = true)
    (hvalue : (S.view s).redis (.uuid u) = some (.str json))
    (h : Runs S.server (publishMam I M J core fuel u).run s τ r s') :
    (∃ e, J.sendMamReq json = .error e ∧ r = .error e) ∨
      ∃ req s₁ event τ₁, J.sendMamReq json = .ok req ∧ τ = event :: τ₁ ∧ S.view s₁ = S.view s ∧
        Runs S.server (taSendMamMessage I M fuel core.taConf core.iotaConf req >>= publishEnd
          J core u json).run s₁ τ₁ r s' := by
  have hget : (Redis.exec (.get (.uuid u)) (S.view s).redis).1 = .bulk json := by
    simp only [Redis.exec, hvalue, Redis.Cmd.act]
  rw [publishMam, runs_run_bind] at h
  rcases h with ⟨e, -, hread⟩ | ⟨json', τ₁, τ₂, s₁, rfl, hread, h⟩
  · rw [hstate] at hread
    have hr := (view_of_read id hread).1
    rw [hget] at hr
    cases hr
  rw [hstate] at hread
  obtain ⟨hr, hview⟩ := view_of_read id hread
  rw [hget] at hr
  obtain rfl := Except.ok.inj hr
  obtain ⟨-, reply, rfl, -⟩ := runs_cacheOn_ok.mp hread
  rw [runs_run_bind] at h
  rcases h with ⟨e, rfl, hparse⟩ | ⟨req, τ₃, τ₄, s₂, rfl, hparse, h⟩
  · obtain ⟨-, he, -⟩ := (runs_run_settle ..).mp hparse
    exact Or.inl ⟨e, he.symm, rfl⟩
  · obtain ⟨rfl, hreq, rfl⟩ := (runs_run_settle ..).mp hparse
    refine Or.inr ⟨req, s₂, _, τ₄, hreq.symm, rfl, hview, ?_⟩
    rw [runs_run_bind] at h ⊢
    rcases h with hfailed | ⟨out, τ₅, τ₆, s₃, rfl, hsend, hrest⟩
    · exact Or.inl hfailed
    · refine Or.inr ⟨out, τ₅, τ₆, s₃, rfl, hsend, ?_⟩
      cases out with
      | none => exact hrest
      | some sent => exact hrest

/-- After the send the lock is taken, and the result is stored in place of the request. -/
theorem runs_publishEnd {u : Uuid} {s s' : S.server.State} {τ : List (Event sig)}
    {r : Except Status (Option String)} {json : String} {res : SendMamRes}
    (hstate : core.cache.state = true) (hlock : (S.view s).lock = .readers 0)
    (hvalue : (S.view s).redis (.uuid u) ≠ none)
    (h : Runs S.server (publishEnd J core u json (some res)).run s τ r s') :
    r = .ok (some json) ∧ (S.view s').lock = .writer := by
  rw [publishEnd, hstate, runs_run_request_bind] at h
  obtain ⟨ok, τ₁, s₁, -, hgrant, h⟩ := h
  obtain ⟨rfl, hview⟩ := steady_trywrlock hlock (S.serves hgrant)
  rw [ensure_true_bind] at h
  have hvalue₁ : (S.view s₁).redis (.uuid u) ≠ none := by
    rw [hview]
    exact hvalue
  rw [runs_run_bind] at h
  rcases h with ⟨e, -, hdel⟩ | ⟨_, τ₄, τ₅, s₃, -, hdel, h⟩
  · have hr := (redis_of_runs hdel).1
    rw [if_neg (deleted_of_ne_none hvalue₁)] at hr
    cases hr
  obtain ⟨-, -, hlock₃⟩ := redis_of_runs hdel
  rw [runs_run_bind] at h
  rcases h with ⟨e, -, hset⟩ | ⟨_, τ₆, τ₇, s₄, -, hset, h⟩
  · cases (redis_of_runs hset).1
  obtain ⟨-, -, hlock₄⟩ := redis_of_runs hset
  obtain ⟨-, rfl, rfl⟩ := (runs_run_pure ..).mp h
  refine ⟨rfl, ?_⟩
  rw [hlock₄, hlock₃, hview]

theorem mamSendable_str {verdict : SendMamReq → Bool} {u : Uuid} {json : String}
    (h : db (.uuid u) = some (.str json)) {req : SendMamReq} (hreq : J.sendMamReq json = .ok req) :
    mamSendable J verdict db u = verdict req := by
  rw [mamSendable, h]
  simp only [hreq]

/-- What can be sent is the text of a request. -/
theorem mamSendable_iff {verdict : SendMamReq → Bool} {u : Uuid} :
    mamSendable J verdict db u = true ↔ ∃ json req, db (.uuid u) = some (.str json) ∧
      J.sendMamReq json = .ok req ∧ verdict req = true := by
  constructor
  · intro h
    unfold mamSendable at h
    split at h
    · rename_i json hjson
      split at h
      · rename_i req hreq
        exact ⟨json, req, hjson, hreq, h⟩
      · cases h
    · cases h
  · intro h
    obtain ⟨json, req, hjson, hreq, hverdict⟩ := h
    rw [mamSendable_str hjson hreq, hverdict]

theorem publishes_mam {verdict : SendMamReq → Bool} (hstate : core.cache.state = true)
    (hverdict : DecidesMam S I M J core fuel verdict us db) :
    Publication S (publishMam I M J core fuel) (mamSendable J verdict db)
      (MamSends I M J core fuel db) us db where
  append := by
    intro u τ h τ₁ τ₂
    obtain ⟨json, res, hjson, req, hreq, hcall⟩ := h
    exact ⟨json, res, hjson, req, hreq, hcall.append τ₁ τ₂⟩
  frame := by
    intro u s τ r s' h k hk
    refine key_of_runs h (uses_publishMam (P := fun c => ¬ c.WritesKey k)
      (fun c hc hw => hc (onCache_of_writesKey hw)) I M J core fuel ?_ id)
    intro c hc hw
    exact hk (hw.2.symm.trans hc)
  sends := by
    intro u s τ r s' hu hsendable hlock hvalue h
    obtain ⟨json, req, hjson, hreq, htrue⟩ := mamSendable_iff.mp hsendable
    rw [hjson] at hvalue
    have hdecides := hverdict u hu json req hjson hreq
    rw [htrue] at hdecides
    rcases runs_publishMam_stored hstate hvalue h with ⟨e, he, -⟩ |
      ⟨req', s₁, event, τ₁, hreq', rfl, hview, hrun⟩
    · rw [hreq] at he
      cases he
    rw [hreq] at hreq'
    cases hreq'
    rw [runs_run_bind] at hrun
    rcases hrun with ⟨e, -, hsend⟩ | ⟨out, τ₂, τ₃, s₂, rfl, hsend, hend⟩
    · obtain ⟨_, ha, -⟩ := hdecides.success hsend
      cases ha
    obtain ⟨_, ha, hsome⟩ := hdecides.success hsend
    cases ha
    obtain ⟨res, rfl⟩ := Option.ne_none_iff_exists'.mp hsome
    obtain ⟨hlock₂, hkey₂⟩ := cache_of_runs hsend (uses_taSendMamMessage M
      (fun c hc => hc.not_onCache) (fun _ => id) id I fuel core.taConf core.iotaConf req)
    obtain ⟨rfl, hwriter⟩ := runs_publishEnd hstate (by rw [hlock₂, hview, hlock])
      (by rw [hkey₂, hview, hvalue]; simp) hend
    exact ⟨⟨_, rfl⟩, ⟨json, res, hjson, req, hreq, [event], τ₂, τ₃, rfl, hsend.1⟩, hwriter⟩
  fails := by
    intro u s τ r s' hu hsendable hlock hvalue h
    by_cases hstr : ∃ json, db (.uuid u) = some (.str json)
    · obtain ⟨json, hjson⟩ := hstr
      rw [hjson] at hvalue
      rcases runs_publishMam_stored hstate hvalue h with ⟨e, -, he⟩ |
        ⟨req, s₁, event, τ₁, hreq, rfl, -, hrun⟩
      · exact ⟨e, he⟩
      have hdecides := hverdict u hu json req hjson hreq
      rw [mamSendable_str hjson hreq] at hsendable
      rw [hsendable] at hdecides
      rw [runs_run_bind] at hrun
      rcases hrun with ⟨e, rfl, -⟩ | ⟨out, τ₂, τ₃, s₂, rfl, hsend, -⟩
      · exact ⟨e, rfl⟩
      · obtain ⟨e, he⟩ := hdecides.failure hsend
        cases he
    · -- there is no text to read
      rw [publishMam, hstate, runs_run_bind] at h
      rcases h with ⟨e, rfl, -⟩ | ⟨json, τ₁, τ₂, s₁, -, hread, -⟩
      · exact ⟨e, rfl⟩
      · have hstored := (runs_cacheGet ⟨hread.1, Served.of_steady (runs hread).2⟩).2
        rw [hvalue] at hstored
        exact absurd ⟨json, hstored⟩ hstr

end Mam

/-! ## Bundles -/

section Txn

variable {S : Surroundings} {I : Iota} {core : TaCore} {us : List Uuid} {db : Cache} {u : Uuid}
  {s s' : S.server.State} {τ : List (Event sig)}

/-- A bundle is stored under the UUID, and its own send succeeds. -/
def txnSendable (verdict : List Hash8019 → Bool) (db : Cache) (u : Uuid) : Bool :=
  match db (.uuid u) with
  | some (.list hd tl) => verdict (hd :: tl)
  | _ => false

/-- The trace has the send of the bundle that is stored under the UUID. -/
def TxnSends (I : Iota) (core : TaCore) (db : Cache) (u : Uuid) (τ : List (Event sig)) : Prop :=
  ∃ attached, HasCall (taSendTrytes I core.taConf core.iotaConf (Redis.items db (.uuid u)))
    attached τ

/-- The surroundings decide the sends of the bundles that are stored, and the node finds what was
sent. -/
structure DecidesTxn (S : Surroundings) (I : Iota) (core : TaCore)
    (verdict : List Hash8019 → Bool) (us : List Uuid) (db : Cache) : Prop where
  sends : ∀ u ∈ us, ∀ hd tl, db (.uuid u) = some (.list hd tl) →
    S.Decides (taSendTrytes I core.taConf core.iotaConf (hd :: tl)) (fun _ => True)
      (verdict (hd :: tl))
  finds : ∀ s hashes s', ¬ S.server.Serves s ⟨.getTrytes hashes, none⟩ s'

/-- The steps of the publication after the send. -/
def publishTxnEnd (I : Iota) (core : TaCore) (uuid : Uuid) (trytes attached : List Hash8019) :
    Proc (Option (List Hash8019)) := do
  let hashes := (attached.take trytes.length).map fun t => (I.deserialize t true).hash
  let stored ← demand (← request (.getTrytes hashes)) .cclientFailedResponse
  cacheDel core.cache.state (.uuid uuid)
  cacheListPushAll core.cache.state (.uuid uuid) stored
  ensure (← request .trywrlock) .cacheLockFailure
  pure (some trytes)

/-- The start of the publication: the bundle is read and sent. -/
theorem runs_publishTxn_stored {r : Except Status (Option (List Hash8019))}
    (hstate : core.cache.state = true) (hstr : Redis.isStr (S.view s).redis (.uuid u) = false)
    (h : Runs S.server (publishTxn I core u).run s τ r s') :
    ∃ s₁ τ₁ τ₂, S.view s₁ = S.view s ∧ τ = τ₁ ++ τ₂ ∧
      Runs S.server (taSendTrytes I core.taConf core.iotaConf
          (Redis.items (S.view s).redis (.uuid u)) >>=
        publishTxnEnd I core u (Redis.items (S.view s).redis (.uuid u))).run s₁ τ₂ r s' := by
  rw [publishTxn, runs_run_bind] at h
  rcases h with ⟨e, -, hlen⟩ | ⟨len, τ₁, τ₂, s₁, rfl, hlen, h⟩
  · rw [hstate] at hlen
    have hr := (view_of_read id hlen).1
    rw [Redis.exec_llen_eq hstr] at hr
    cases hr
  rw [hstate] at hlen
  obtain ⟨hr, hview⟩ := view_of_read id hlen
  rw [Redis.exec_llen_eq hstr] at hr
  obtain rfl := Except.ok.inj hr
  have hrange : ∀ i ∈ List.range (Redis.items (S.view s).redis (.uuid u)).length,
      i < (Redis.items (S.view s₁).redis (.uuid u)).length := by
    intro i hi
    rw [hview]
    exact List.mem_range.mp hi
  rw [runs_run_bind] at h
  rcases h with ⟨e, -, hread⟩ | ⟨trytes, τ₃, τ₄, s₂, rfl, hread, h⟩
  · rw [hstate] at hread
    obtain ⟨-, es, he, -⟩ := steady_cacheListRead (runs hread) hrange
    cases he
  rw [hstate] at hread
  obtain ⟨hview₂, es, he, hmap⟩ := steady_cacheListRead (runs hread) hrange
  obtain rfl := Except.ok.inj he
  rw [hview] at hmap
  obtain rfl := eq_of_map_range hmap
  exact ⟨s₂, τ₁ ++ τ₃, τ₄, hview₂.trans hview, (List.append_assoc ..).symm, h⟩

/-- Pushing on a key that does not hold a string. -/
theorem runs_pushAll_list {key : Key} {es : List key.Elem} {r : Except Status Unit}
    (hstr : Redis.isStr (S.view s).redis key = false)
    (h : Runs S.server (cacheListPushAll true key es).run s τ r s') :
    r = .ok () ∧ (S.view s').lock = (S.view s).lock := by
  induction es generalizing s τ with
  | nil =>
      obtain ⟨-, rfl, rfl⟩ := (runs_run_pure ..).mp h
      exact ⟨rfl, rfl⟩
  | cons e es ih =>
      rw [cacheListPushAll, runs_run_bind] at h
      rcases h with ⟨err, -, hpush⟩ | ⟨_, τ₁, τ₂, s₁, -, hpush, h⟩
      · have hr := (redis_of_runs hpush).1
        rw [Redis.exec_lpush_eq hstr] at hr
        cases hr
      · obtain ⟨-, hredis, hlock⟩ := redis_of_runs hpush
        rw [Redis.exec_lpush_eq hstr] at hredis
        have hkey : (S.view s₁).redis key =
            some (.list e (Redis.items (S.view s).redis key)) := by
          rw [hredis]
          exact Function.update_self ..
        have hstr₁ : Redis.isStr (S.view s₁).redis key = false := by
          rw [Redis.isStr, hkey]
        obtain ⟨rfl, hlock₁⟩ := ih hstr₁ h
        exact ⟨rfl, hlock₁.trans hlock⟩

/-- After the send the node is asked for the bundle, and what it answers is stored. -/
theorem runs_publishTxnEnd {r : Except Status (Option (List Hash8019))}
    {trytes attached : List Hash8019} (hstate : core.cache.state = true)
    (hfinds : ∀ s hashes s', ¬ S.server.Serves s ⟨.getTrytes hashes, none⟩ s')
    (hlock : (S.view s).lock = .readers 0)
    (h : Runs S.server (publishTxnEnd I core u trytes attached).run s τ r s') :
    ((S.view s).redis (.uuid u) ≠ none → r = .ok (some trytes) ∧ (S.view s').lock = .writer) ∧
      ((S.view s).redis (.uuid u) = none → ∃ e, r = .error e) := by
  rw [publishTxnEnd, hstate, runs_run_request_bind] at h
  obtain ⟨found, τ₁, s₁, -, hask, h⟩ := h
  cases found with
  | none => exact absurd hask (hfinds _ _ _)
  | some stored =>
      have hview : S.view s₁ = S.view s := by
        obtain ⟨x, hx⟩ := S.serves hask
        exact (congrArg Prod.snd hx).symm
      rw [← hview] at hlock ⊢
      rw [runs_run_bind] at h
      rcases h with ⟨e, -, hdemand⟩ | ⟨stored', τ₂, τ₃, s₂, -, hdemand, h⟩
      · cases ((runs_run_settle ..).mp hdemand).2.1
      obtain ⟨-, hstored, rfl⟩ := (runs_run_settle ..).mp hdemand
      obtain rfl := Except.ok.inj hstored
      rw [runs_run_bind] at h
      constructor
      · intro hsome
        rcases h with ⟨e, -, hdel⟩ | ⟨_, τ₄, τ₅, s₃, -, hdel, h⟩
        · have hr := (redis_of_runs hdel).1
          rw [if_neg (deleted_of_ne_none hsome)] at hr
          cases hr
        obtain ⟨-, hredis, hlock₃⟩ := redis_of_runs hdel
        have hstr : Redis.isStr (S.view s₃).redis (.uuid u) = false := by
          have hnone : (S.view s₃).redis (.uuid u) = none := by
            have hdeleted := runs_cacheDel ⟨hdel.1, Served.of_steady (runs hdel).2⟩
            exact hdeleted.1
          rw [Redis.isStr, hnone]
        rw [runs_run_bind] at h
        rcases h with ⟨e, -, hpush⟩ | ⟨_, τ₆, τ₇, s₄, -, hpush, h⟩
        · cases (runs_pushAll_list hstr hpush).1
        obtain ⟨-, hlock₄⟩ := runs_pushAll_list hstr hpush
        rw [runs_run_request_bind] at h
        obtain ⟨ok, τ₈, s₅, -, hgrant, h⟩ := h
        have hlock₅ := hlock₄.trans (hlock₃.trans hlock)
        obtain ⟨rfl, hview₅⟩ := steady_trywrlock hlock₅ (S.serves hgrant)
        rw [ensure_true_bind] at h
        obtain ⟨-, rfl, rfl⟩ := (runs_run_pure ..).mp h
        rw [hview₅]
        exact ⟨rfl, rfl⟩
      · -- there is nothing to delete
        intro hnone
        rcases h with ⟨e, rfl, -⟩ | ⟨_, τ₄, τ₅, s₃, -, hdel, -⟩
        · exact ⟨e, rfl⟩
        · have hdeleted := runs_cacheDel ⟨hdel.1, Served.of_steady (runs hdel).2⟩
          exact absurd hnone hdeleted.2.1

theorem txnSendable_list {verdict : List Hash8019 → Bool} {hd : Hash8019} {tl : List Hash8019}
    (h : db (.uuid u) = some (.list hd tl)) : txnSendable verdict db u = verdict (hd :: tl) := by
  rw [txnSendable, h]

theorem txnSendable_iff {verdict : List Hash8019 → Bool} :
    txnSendable verdict db u = true ↔
      ∃ hd tl, db (.uuid u) = some (.list hd tl) ∧ verdict (hd :: tl) = true := by
  constructor
  · intro h
    unfold txnSendable at h
    split at h
    · rename_i hd tl hlist
      exact ⟨hd, tl, hlist, h⟩
    · cases h
  · intro h
    obtain ⟨hd, tl, hlist, hverdict⟩ := h
    rw [txnSendable_list hlist, hverdict]

/-- A send is not about the cache. -/
theorem cache_of_taSendTrytes {trytes : List Hash8019} {r : Except Status (List Hash8019)}
    (h : Runs S.server (taSendTrytes I core.taConf core.iotaConf trytes).run s τ r s') :
    (S.view s').lock = (S.view s).lock ∧ ∀ k, (S.view s').redis k = (S.view s).redis k :=
  cache_of_runs h (uses_taSendTrytes (fun _ hc => hc.quiet.not_onCache) (fun _ => id) I core.taConf
    core.iotaConf trytes)

theorem publishes_txn {verdict : List Hash8019 → Bool} (hstate : core.cache.state = true)
    (hverdict : DecidesTxn S I core verdict us db) :
    Publication S (publishTxn I core) (txnSendable verdict db) (TxnSends I core db) us db where
  append := by
    intro u τ h τ₁ τ₂
    obtain ⟨attached, hcall⟩ := h
    exact ⟨attached, hcall.append τ₁ τ₂⟩
  frame := by
    intro u s τ r s' h k hk
    refine key_of_runs h (uses_publishTxn (P := fun c => ¬ c.WritesKey k)
      (fun c hc hw => hc (onCache_of_writesKey hw)) I core ?_ id)
    intro c hc hw
    exact hk (hw.2.symm.trans hc)
  sends := by
    intro u s τ r s' hu hsendable hlock hvalue h
    obtain ⟨hd, tl, hlist, htrue⟩ := txnSendable_iff.mp hsendable
    rw [hlist] at hvalue
    have hdecides := hverdict.sends u hu hd tl hlist
    rw [htrue] at hdecides
    obtain ⟨s₁, τ₁, τ₂, hview, rfl, hrun⟩ := runs_publishTxn_stored hstate
      (by rw [Redis.isStr, hvalue]) h
    have hitems : Redis.items (S.view s).redis (.uuid u) = hd :: tl := by
      rw [Redis.items, hvalue]
      rfl
    rw [hitems, runs_run_bind] at hrun
    rcases hrun with ⟨e, -, hsend⟩ | ⟨attached, τ₃, τ₄, s₂, rfl, hsend, hend⟩
    · obtain ⟨_, ha, -⟩ := hdecides.success hsend
      cases ha
    obtain ⟨hlock₂, hkey₂⟩ := cache_of_taSendTrytes hsend
    obtain ⟨hdone, -⟩ := runs_publishTxnEnd hstate hverdict.finds
      (by rw [hlock₂, hview, hlock]) hend
    obtain ⟨rfl, hwriter⟩ := hdone (by rw [hkey₂, hview, hvalue]; simp)
    refine ⟨⟨_, rfl⟩, ⟨attached, τ₁, τ₃, τ₄, rfl, ?_⟩, hwriter⟩
    rw [Redis.items, hlist]
    exact hsend.1
  fails := by
    intro u s τ r s' hu hsendable hlock hvalue h
    by_cases hstr : Redis.isStr (S.view s).redis (.uuid u) = true
    · -- the length is refused
      rw [publishTxn, hstate, runs_run_bind] at h
      rcases h with ⟨e, rfl, -⟩ | ⟨len, τ₁, τ₂, s₁, -, hlen, -⟩
      · exact ⟨e, rfl⟩
      · have hr := (view_of_read id hlen).1
        rw [Redis.exec_llen_str hstr] at hr
        cases hr
    rw [Bool.not_eq_true] at hstr
    obtain ⟨s₁, τ₁, τ₂, hview, rfl, hrun⟩ := runs_publishTxn_stored hstate hstr h
    rw [runs_run_bind] at hrun
    rcases hrun with ⟨e, rfl, -⟩ | ⟨attached, τ₃, τ₄, s₂, rfl, hsend, hend⟩
    · exact ⟨e, rfl⟩
    obtain ⟨hlock₂, hkey₂⟩ := cache_of_taSendTrytes hsend
    cases hitems : Redis.items (S.view s).redis (.uuid u) with
    | nil =>
        -- nothing is stored, and so there is nothing to delete
        refine (runs_publishTxnEnd hstate hverdict.finds (by rw [hlock₂, hview, hlock]) hend).2 ?_
        rw [hkey₂, hview]
        exact Redis.eq_none_of_items hstr hitems
    | cons hd tl =>
        have hlist := hvalue.symm.trans (Redis.eq_list_of_items hitems)
        have hdecides := hverdict.sends u hu hd tl hlist
        rw [txnSendable_list hlist] at hsendable
        rw [hsendable] at hdecides
        rw [hitems] at hsend
        obtain ⟨e, he⟩ := hdecides.failure hsend
        cases he

end Txn

/-- For all surroundings that decide the sends, and every content of the buffer lists, with the
cache on, the lock free and enough fuel: a call of `broadcast_buffered_send_mam_request` sends every
buffered request whose own send succeeds exactly when none of them stands behind one that cannot be
sent.  The same holds of `broadcast_buffered_txn`. -/
theorem broadcast_sendsAll_iff (S : Surroundings) (I : Iota) (M : MamLib) (J : Codec)
    (core : TaCore) (fuel : Nat) (s : S.server.State) (hstate : core.cache.state = true)
    (hlock : (S.view s).lock = .readers 0)
    (hlists : ∀ n, Redis.isStr (S.view s).redis (.list n) = false) :
    (∀ us verdict, Redis.items (S.view s).redis (.list .mamBuffer) = us → us.Nodup →
      us.length < fuel → DecidesMam S I M J core fuel verdict us (S.view s).redis →
      (SendsAll S (broadcastBufferedSendMamRequest I M J core fuel) .mamBuffer .mamComplete
          (mamSendable J verdict (S.view s).redis)
          (MamSends I M J core fuel (S.view s).redis) s ↔
        us.Pairwise fun u v => mamSendable J verdict (S.view s).redis u = false →
          mamSendable J verdict (S.view s).redis v = false)) ∧
    ∀ us verdict, Redis.items (S.view s).redis (.list .buffer) = us → us.Nodup →
      us.length < fuel → DecidesTxn S I core verdict us (S.view s).redis →
      (SendsAll S (broadcastBufferedTxn I core fuel) .buffer .complete
          (txnSendable verdict (S.view s).redis) (TxnSends I core (S.view s).redis) s ↔
        us.Pairwise fun u v => txnSendable verdict (S.view s).redis u = false →
          txnSendable verdict (S.view s).redis v = false) := by
  constructor
  · intro us verdict hus hnodup hfuel hverdict
    rw [broadcastBufferedSendMamRequest, broadcastMamIteration, hstate]
    exact sendsAll_iff (publishes_mam hstate hverdict) (by decide)
      ⟨hlock, hus, hlists _, hlists _⟩ hnodup hfuel
  · intro us verdict hus hnodup hfuel hverdict
    rw [broadcastBufferedTxn, broadcastTxnIteration, hstate]
    exact sendsAll_iff (publishes_txn hstate hverdict) (by decide)
      ⟨hlock, hus, hlists _, hlists _⟩ hnodup hfuel

namespace Sample

/-- The node and the libraries do what they are asked for. -/
def obliging : (c : Cmd) → SteadyChoice c
  | .storeAndBroadcast _ => true
  | .getTrytes hashes => some (hashes.map fun _ => trytes)
  | .findTransactions _ => some []
  | .findTransactionObjects _ => some []
  | .transactionSerialize _ => true
  | .dcurlEntry _ _ => some trytes
  | .mam _ => true
  | .mamApiSave _ => true
  | c => SteadyChoice.any c

/-- Surroundings that leave nothing open. -/
def surroundings : Surroundings where
  server := ⟨World, fun _ => Unit, fun c _ w => steady.serve c (obliging c) w⟩
  view w := w
  serves := by
    intro w w' e h
    obtain ⟨x, hserve⟩ := h
    exact ⟨obliging e.cmd, hserve⟩
  choice _ := ()

/-- A request with this depth. -/
def depthReq (depth : Int) : SendMamReq := ⟨some (Vector.replicate 81 0), depth, none, "", [], []⟩

/-- A codec with a text of depth `0`, which `ta_send_mam_message` does not accept. -/
def depthCodec : Codec where
  sendMamReq text := .ok (depthReq (if text = "flat" then 0 else 2))
  sendMamRes _ := ""
  sendMamUuid _ := ""

/-- The requests that are accepted. -/
def deepEnough (req : SendMamReq) : Bool := decide (1 ≤ req.chMssDepth)

/-- The requests `1` and `2` wait in the MAM buffer list. -/
def mamWaiting (first second : String) : World where
  redis
    | .list .mamBuffer => some (.list 1#128 [2#128])
    | .uuid u => if u = 1#128 then some (.str first) else some (.str second)
    | _ => none
  lock := .readers 0
  ledger := []
  mamFile := []

/-- Whether a send has succeeded, where the fuel was enough. -/
def outcome {α : Type} : Except Status (Option α) → Option Bool
  | .ok (some _) => some true
  | .ok none => none
  | .error _ => some false

/-- Commands that are not about the cache have the same answer in all worlds. -/
theorem serve_obliging {c : Cmd} (hc : ¬ c.OnCache) (w w₀ : World) :
    (surroundings.server.serve c () w).1 = (surroundings.server.serve c () w₀).1 := by
  cases c with
  | redis c => exact absurd trivial hc
  | tryrdlock => exact absurd trivial hc
  | trywrlock => exact absurd trivial hc
  | unlock => exact absurd trivial hc
  | _ => rfl

theorem exec_obliging {α : Type} : ∀ {p : Prog sig α}, Uses (S := sig) (fun c => ¬ c.OnCache) p →
    ∀ w w₀ : World, (exec surroundings.server p (fun _ _ => ()) w).2.1 =
      (exec surroundings.server p (fun _ _ => ()) w₀).2.1
  | .ret a, _, _, _ => rfl
  | .call c k, hp, w, w₀ => by
      simp only [exec]
      rw [serve_obliging hp.1 w w₀]
      exact exec_obliging (hp.2 _) _ _

/-- What a send does in one world it does in all. -/
theorem decides_of_outcome {α : Type} {x : Proc (Option α)} {b : Bool}
    (hx : Uses (S := sig) (fun c => ¬ c.OnCache) x.run)
    (h : outcome (exec surroundings.server x.run (fun _ _ => ()) mamBuffered).2.1 = some b) :
    surroundings.Decides x (fun a => a ≠ none) b := by
  intro w τ r w' hrun
  have hexec := runs_eq_exec (V := surroundings.server) (fun _ => instSubsingletonPUnit)
    (fun _ _ => ()) hrun
  have hr : r = (exec surroundings.server x.run (fun _ _ => ()) mamBuffered).2.1 :=
    (congrArg (fun out => out.2.1) hexec).symm.trans (exec_obliging hx w mamBuffered)
  rw [← hr] at h
  rcases r with e | _ | a
  · cases h
    exact ⟨e, rfl⟩
  · cases h
  · cases h
    exact ⟨some a, rfl, by simp⟩

theorem decides_depthReq (flat : Bool) : surroundings.Decides
    (taSendMamMessage iota mam 3 core.taConf core.iotaConf (depthReq (if flat then 0 else 2)))
    (fun res => res ≠ none) (!flat) := by
  refine decides_of_outcome (uses_taSendMamMessage mam (fun c hc => hc.not_onCache) (fun _ => id) id
    iota 3 core.taConf core.iotaConf _) ?_
  cases flat with
  | true => decide
  | false => decide

theorem decidesMam_waiting (first second : String) :
    DecidesMam surroundings iota mam depthCodec core 3 deepEnough [1#128, 2#128]
      (mamWaiting first second).redis := by
  intro u _ json req _ hreq
  have hdepth : depthReq (if json = "flat" then 0 else 2) = req := Except.ok.inj hreq
  subst hdepth
  by_cases hflat : json = "flat"
  · rw [if_pos hflat]
    exact decides_depthReq true
  · rw [if_neg hflat]
    exact decides_depthReq false

theorem isStr_mamWaiting (first second : String) (n : ListName) :
    Redis.isStr (mamWaiting first second).redis (.list n) = false := by
  cases n <;> rfl

end Sample

/-- The request that cannot be sent is the last one. -/
theorem broadcast_sendsAll_last : SendsAll Sample.surroundings
    (broadcastBufferedSendMamRequest Sample.iota Sample.mam Sample.depthCodec Sample.core 3)
    .mamBuffer .mamComplete
    (mamSendable Sample.depthCodec Sample.deepEnough (Sample.mamWaiting "deep" "flat").redis)
    (MamSends Sample.iota Sample.mam Sample.depthCodec Sample.core 3
      (Sample.mamWaiting "deep" "flat").redis) (Sample.mamWaiting "deep" "flat") := by
  refine ((broadcast_sendsAll_iff Sample.surroundings Sample.iota Sample.mam Sample.depthCodec
    Sample.core 3 (Sample.mamWaiting "deep" "flat") rfl rfl (Sample.isStr_mamWaiting _ _)).1
    [1#128, 2#128] Sample.deepEnough rfl (by decide) (by decide)
    (Sample.decidesMam_waiting _ _)).mpr ?_
  exact List.pairwise_pair.mpr fun hfirst => absurd hfirst (by decide)

/-- The request that cannot be sent is the first one.  The other one could be sent, and is not: the
call returns an error, and both requests are left. -/
theorem broadcast_blocked : ∃ τ e w',
    Runs Sample.surroundings.server
      (broadcastBufferedSendMamRequest Sample.iota Sample.mam Sample.depthCodec Sample.core 3).run
      (Sample.mamWaiting "flat" "deep") τ (.error e) w' ∧
    mamSendable Sample.depthCodec Sample.deepEnough (Sample.mamWaiting "flat" "deep").redis 2#128 =
      true ∧
    DecidesMam Sample.surroundings Sample.iota Sample.mam Sample.depthCodec Sample.core 3
      Sample.deepEnough [1#128, 2#128] (Sample.mamWaiting "flat" "deep").redis ∧
    Redis.items w'.redis (.list .mamBuffer) = [1#128, 2#128] ∧ w'.ledger = [] :=
  ⟨_, _, _, runs_exec (V := Sample.surroundings.server) _ (fun _ _ => ()) _, by decide,
    Sample.decidesMam_waiting _ _, rfl, rfl⟩

end TangleAccelerator
