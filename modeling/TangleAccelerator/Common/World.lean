import TangleAccelerator.Common.Types
import TangleAccelerator.Effect.Pool
import TangleAccelerator.Redis.Store

/-!
# The world of the accelerator

The accelerator talks to a Redis server, to an IOTA node, to a proof-of-work
library and to the MAM library, and its threads share a read/write lock.  Every
such interaction is a command of the signature `sig`, so the trace of a run shows
them all, in order, with their answers.

*Failures.*  What can fail is answered by the world: a Redis command may be
refused with an error reply, a lock may be refused, a node may not answer, and a
library call may report an error.  A choice of the world decides which.  Memory
allocation is taken to succeed.

*Redis.*  `ta_cache_t` names four lists.  They are taken to be four different keys,
and none of them is the text of a UUID or of a transaction hash.  The lists hold
UUIDs.  Under a UUID the cache keeps a list of serialized transactions or the text
of a MAM request or result.

*Libraries.*  `transactionSerialize` and `mam` only say whether a call of `iota.c` or
of the MAM library succeeds.  What a successful call computes is a function of its
arguments, given by the parameters `Iota` and `MamLib` of the programs.
-/

namespace TangleAccelerator

open Effect (Sig Prog Event Server)

/-! ## Keys -/

/-- The lists `ta_cache_t` names. -/
inductive ListName where
  | buffer
  | complete
  | mamBuffer
  | mamComplete
deriving DecidableEq, Repr

/-- The keys of the cache. -/
inductive Key where
  | list (n : ListName)
  | uuid (u : Uuid)
  | txn (h : Hash243)
  /-- The empty string, in `health_track`'s buffer before its first pop. -/
  | empty
deriving DecidableEq

/-- What a list under a key holds. -/
@[reducible] def Key.Elem : Key → Type
  | .list _ => Uuid
  | .uuid _ => Hash8019
  | .txn _ => Empty
  | .empty => Empty

/-- The database of the cache. -/
abbrev Cache := Redis.Store Key Key.Elem

/-! ## The read/write lock -/

/-- A `pthread_rwlock_t`: free with no readers, or held. -/
inductive RwLock where
  | readers (n : Nat)
  | writer
deriving DecidableEq, Repr

/-- `pthread_rwlock_tryrdlock`. -/
def RwLock.tryrdlock : RwLock → Option RwLock
  | .readers n => some (.readers (n + 1))
  | .writer => none

/-- `pthread_rwlock_trywrlock`. -/
def RwLock.trywrlock : RwLock → Option RwLock
  | .readers 0 => some .writer
  | _ => none

/-- `pthread_rwlock_unlock`. -/
def RwLock.unlock : RwLock → RwLock
  | .readers n => .readers (n - 1)
  | .writer => .readers 0

/-! ## Commands and answers -/

/-- The calls of the MAM library that can fail. -/
inductive MamCall where
  | apiInit
  | channelCreate
  | writeHeaderOnChannel
  | writePacket
  | announceChannel
  | setAdd
  | addTrustedChannelPk
  | addPsk
  | destroy
deriving DecidableEq, Repr

/-- What `mam_api_load` finds. -/
inductive MamFile where
  | openFailed
  | failed
  | loaded (bytes : List UInt8)

/-- What `ta_get_node_status` hears from a node. -/
inductive NodeInfo where
  | unreachable
  | malformed (st : Status)
  | milestones (latest latestSolidSubtangle : Int)

/-- Everything the accelerator asks of its surroundings. -/
inductive Cmd where
  /-- One Redis command. -/
  | redis (c : Redis.Cmd Key Key.Elem)
  /-- `cache_occupied_space`. -/
  | occupiedSpace
  | tryrdlock
  | trywrlock
  | unlock
  | uuidGenerateRandom
  | currentTimestampMs
  | clockGettime
  /-- The `getNodeInfo` query of a host and port. -/
  | getNodeInfo (node : String × Nat)
  | getTransactionsToApprove (depth : Nat)
  | storeAndBroadcast (trytes : List Hash8019)
  | getTrytes (hashes : List Hash243)
  | findTransactions (req : FindTransactionsReq)
  | findTransactionObjects (req : FindTransactionsReq)
  | getTransactionObjects (hashes : List Hash243)
  | transferMessageSetTrytes (message : List Tryte)
  | prepareTransfers (transfers : List Transfer)
  | transactionSerialize (txn : Transaction)
  /-- The proof of work of `dcurl`. -/
  | dcurlEntry (trytes : Hash8019) (mwm : Nat)
  | mam (f : MamCall)
  | mamApiLoad
  | mamApiSave (bytes : List UInt8)

/-- The answers.  A `Bool` says whether the call succeeded, and an `Option` is
`none` where it failed. -/
@[reducible] def Cmd.Ans : Cmd → Type
  | .redis c => Redis.Reply c.Bulk
  | .occupiedSpace => Int
  | .tryrdlock => Bool
  | .trywrlock => Bool
  | .unlock => Bool
  | .uuidGenerateRandom => Uuid
  | .currentTimestampMs => Nat
  | .clockGettime => Nat
  | .getNodeInfo _ => NodeInfo
  | .getTransactionsToApprove _ => Option (Hash243 × Hash243)
  | .storeAndBroadcast _ => Bool
  | .getTrytes _ => Option (List Hash8019)
  | .findTransactions _ => Option (List Hash243)
  | .findTransactionObjects _ => Option (List Transaction)
  | .getTransactionObjects _ => Option (List Transaction)
  | .transferMessageSetTrytes _ => Bool
  | .prepareTransfers _ => Option (List Transaction)
  | .transactionSerialize _ => Bool
  | .dcurlEntry _ _ => Option Hash8019
  | .mam _ => Bool
  | .mamApiLoad => MamFile
  | .mamApiSave _ => Bool

/-- The signature of the accelerator. -/
@[reducible] def sig : Sig := ⟨Cmd, Cmd.Ans⟩

/-- A function of the accelerator that returns `status_t`. -/
abbrev Proc (α : Type) := ExceptT Status (Prog sig) α

/-! ## The world -/

/-- The state outside the accelerator. -/
structure World where
  /-- The Redis database. -/
  redis : Cache
  /-- The lock `cache->rwlock`. -/
  lock : RwLock
  /-- The transactions the node has accepted, oldest first. -/
  ledger : List Hash8019
  /-- The content of the MAM file. -/
  mamFile : List UInt8

/-- The choices of the world.  At a Redis command or a lock, `true` is a refusal.
Elsewhere the choice is the answer. -/
@[reducible] def Choice : Cmd → Type
  | .redis _ => Bool
  | .tryrdlock => Bool
  | .trywrlock => Bool
  | c => c.Ans

/-- What the world answers and what becomes of it. -/
def serve : (c : Cmd) → Choice c → World → c.Ans × World
  | .redis c, refuse, w =>
      let r := Redis.serve refuse c w.redis
      (r.1, { w with redis := r.2 })
  | .tryrdlock, refuse, w =>
      match refuse, w.lock.tryrdlock with
      | false, some l => (true, { w with lock := l })
      | _, _ => (false, w)
  | .trywrlock, refuse, w =>
      match refuse, w.lock.trywrlock with
      | false, some l => (true, { w with lock := l })
      | _, _ => (false, w)
  | .unlock, ok, w => (ok, if ok then { w with lock := w.lock.unlock } else w)
  | .storeAndBroadcast trytes, ok, w =>
      (ok, if ok then { w with ledger := w.ledger ++ trytes } else w)
  | .mamApiSave bytes, ok, w => (ok, if ok then { w with mamFile := bytes } else w)
  | .occupiedSpace, r, w => (r, w)
  | .uuidGenerateRandom, r, w => (r, w)
  | .currentTimestampMs, r, w => (r, w)
  | .clockGettime, r, w => (r, w)
  | .getNodeInfo _, r, w => (r, w)
  | .getTransactionsToApprove _, r, w => (r, w)
  | .getTrytes _, r, w => (r, w)
  | .findTransactions _, r, w => (r, w)
  | .findTransactionObjects _, r, w => (r, w)
  | .getTransactionObjects _, r, w => (r, w)
  | .transferMessageSetTrytes _, r, w => (r, w)
  | .prepareTransfers _, r, w => (r, w)
  | .transactionSerialize _, r, w => (r, w)
  | .dcurlEntry _ _, r, w => (r, w)
  | .mam _, r, w => (r, w)
  | .mamApiLoad, r, w => (r, w)

/-- The world as a server. -/
@[reducible] def world : Server sig := ⟨World, Choice, serve⟩

/-! ## A world that refuses nothing -/

/-- The choices that are left where Redis commands are executed, free locks are granted and
unlocking succeeds. -/
@[reducible] def SteadyChoice : Cmd → Type
  | .redis _ => Unit
  | .tryrdlock => Unit
  | .trywrlock => Unit
  | .unlock => Unit
  | c => c.Ans

/-- A choice without refusals. -/
def SteadyChoice.choice : (c : Cmd) → SteadyChoice c → Choice c
  | .redis _, _ => false
  | .tryrdlock, _ => false
  | .trywrlock, _ => false
  | .unlock, _ => true
  | .occupiedSpace, r => r
  | .uuidGenerateRandom, r => r
  | .currentTimestampMs, r => r
  | .clockGettime, r => r
  | .getNodeInfo _, r => r
  | .getTransactionsToApprove _, r => r
  | .storeAndBroadcast _, r => r
  | .getTrytes _, r => r
  | .findTransactions _, r => r
  | .findTransactionObjects _, r => r
  | .getTransactionObjects _, r => r
  | .transferMessageSetTrytes _, r => r
  | .prepareTransfers _, r => r
  | .transactionSerialize _, r => r
  | .dcurlEntry _ _, r => r
  | .mam _, r => r
  | .mamApiLoad, r => r
  | .mamApiSave _, r => r

/-- The world without refusals of the cache. -/
@[reducible] def steady : Server sig :=
  ⟨World, SteadyChoice, fun c x w => serve c (SteadyChoice.choice c x) w⟩

/-- Some choices, for a run whose answers from outside the cache do not matter. -/
def SteadyChoice.any : (c : Cmd) → SteadyChoice c
  | .redis _ => ()
  | .tryrdlock => ()
  | .trywrlock => ()
  | .unlock => ()
  | .occupiedSpace => 0
  | .uuidGenerateRandom => 0
  | .currentTimestampMs => 0
  | .clockGettime => 0
  | .getNodeInfo _ => .unreachable
  | .getTransactionsToApprove _ => none
  | .storeAndBroadcast _ => false
  | .getTrytes _ => none
  | .findTransactions _ => none
  | .findTransactionObjects _ => none
  | .getTransactionObjects _ => none
  | .transferMessageSetTrytes _ => false
  | .prepareTransfers _ => none
  | .transactionSerialize _ => false
  | .dcurlEntry _ _ => none
  | .mam _ => false
  | .mamApiLoad => .failed
  | .mamApiSave _ => false

/-- What can happen in a steady world can happen. -/
theorem Serves.of_steady {w w' : World} {e : Event sig} (h : steady.Serves w e w') :
    world.Serves w e w' := by
  obtain ⟨x, h⟩ := h
  exact ⟨SteadyChoice.choice e.cmd x, h⟩

theorem Served.of_steady {w w' : World} {τ : List (Event sig)}
    (h : Effect.Served steady w τ w') : Effect.Served world w τ w' :=
  Effect.Served.simulates (V := steady) (W := world) (f := fun w => w) Serves.of_steady h

theorem steady_redis {w w' : World} {c : Redis.Cmd Key Key.Elem} {r : Redis.Reply c.Bulk} :
    steady.Serves w ⟨.redis c, r⟩ w' ↔
      r = (Redis.exec c w.redis).1 ∧ w' = { w with redis := (Redis.exec c w.redis).2 } := by
  constructor
  · intro h
    obtain ⟨x, h⟩ := h
    exact ⟨(congrArg Prod.fst h).symm, (congrArg Prod.snd h).symm⟩
  · intro h
    obtain ⟨rfl, rfl⟩ := h
    exact ⟨(), rfl⟩

/-- A free lock is granted. -/
theorem steady_trywrlock {w w' : World} {ok : Bool} (hlock : w.lock = .readers 0)
    (h : steady.Serves w ⟨.trywrlock, ok⟩ w') : ok = true ∧ w' = { w with lock := .writer } := by
  obtain ⟨x, h⟩ := h
  simp only [SteadyChoice.choice, serve, hlock, RwLock.trywrlock] at h
  exact ⟨(congrArg Prod.fst h).symm, (congrArg Prod.snd h).symm⟩

theorem steady_unlock {w w' : World} {ok : Bool} (h : steady.Serves w ⟨.unlock, ok⟩ w') :
    ok = true ∧ w' = { w with lock := w.lock.unlock } := by
  obtain ⟨x, h⟩ := h
  exact ⟨(congrArg Prod.fst h).symm, (congrArg Prod.snd h).symm⟩

/-! ## What a command can change -/

/-- The command can change what the cache holds under `k`. -/
def Cmd.WritesKey (k : Key) : Cmd → Prop
  | .redis c => c.Writes ∧ c.key = k
  | _ => False

/-- The command can change the lock. -/
def Cmd.OnLock : Cmd → Prop
  | .tryrdlock | .trywrlock | .unlock => True
  | _ => False

/-- The command is about the cache: a Redis command or a lock. -/
def Cmd.OnCache : Cmd → Prop
  | .redis _ | .tryrdlock | .trywrlock | .unlock => True
  | _ => False

/-- The command is not about the cache, and it neither offers a bundle to the node nor writes
an announcement. -/
def Cmd.Quiet : Cmd → Prop
  | .redis _ | .tryrdlock | .trywrlock | .unlock => False
  | .storeAndBroadcast _ | .mam .announceChannel => False
  | _ => True

theorem Cmd.Quiet.not_onCache {c : Cmd} (h : c.Quiet) : ¬ c.OnCache := by
  cases c with
  | redis c => exact h.elim
  | tryrdlock => exact h.elim
  | trywrlock => exact h.elim
  | unlock => exact h.elim
  | _ => exact id

/-- The command is one of those that make a bundle ready for the node. -/
def Cmd.Attaches : Cmd → Prop
  | .currentTimestampMs | .getTransactionsToApprove _ => True
  | .transactionSerialize _ | .dcurlEntry _ _ => True
  | _ => False

theorem Cmd.Attaches.quiet {c : Cmd} (h : c.Attaches) : c.Quiet := by
  cases c with
  | currentTimestampMs => trivial
  | getTransactionsToApprove depth => trivial
  | transactionSerialize tx => trivial
  | dcurlEntry trytes mwm => trivial
  | _ => exact h.elim

/-- The command is one of those that look for the channel and the key of a message. -/
def Cmd.Searches : Cmd → Prop
  | .findTransactions _ | .findTransactionObjects _ | .getTransactionObjects _ => True
  | .mam .channelCreate | .mam .writeHeaderOnChannel | .mam .writePacket => True
  | _ => False

theorem Cmd.Searches.quiet {c : Cmd} (h : c.Searches) : c.Quiet := by
  cases c with
  | findTransactions req => trivial
  | findTransactionObjects req => trivial
  | getTransactionObjects hashes => trivial
  | mam f =>
      cases f with
      | announceChannel => exact h.elim
      | _ => trivial
  | _ => exact h.elim

/-- The command is one of those before a message is written and after it is sent. -/
def Cmd.SetsUp : Cmd → Prop
  | .mam .apiInit | .mam .setAdd | .mam .destroy => True
  | .mamApiLoad | .mamApiSave _ | .clockGettime => True
  | _ => False

theorem Cmd.SetsUp.quiet {c : Cmd} (h : c.SetsUp) : c.Quiet := by
  cases c with
  | mamApiLoad => trivial
  | mamApiSave bytes => trivial
  | clockGettime => trivial
  | mam f =>
      cases f with
      | announceChannel => exact h.elim
      | _ => trivial
  | _ => exact h.elim

theorem serves_redis {w w' : World} {c : Redis.Cmd Key Key.Elem} {r : Redis.Reply c.Bulk} :
    world.Serves w ⟨.redis c, r⟩ w' ↔
      Redis.Answers w.redis c r w'.redis ∧ w' = { w with redis := w'.redis } := by
  constructor
  · intro h
    obtain ⟨refuse, h⟩ := h
    obtain ⟨hr, rfl⟩ := Prod.mk.inj h
    exact ⟨⟨refuse, Prod.ext hr rfl⟩, rfl⟩
  · intro h
    obtain ⟨⟨refuse, ha⟩, hw⟩ := h
    refine ⟨refuse, ?_⟩
    change ((Redis.serve refuse c w.redis).1,
      { w with redis := (Redis.serve refuse c w.redis).2 }) = (r, w')
    rw [ha, ← hw]

/-- Only Redis commands change the database. -/
theorem serves_redis_eq {w w' : World} {e : Event sig} (h : world.Serves w e w')
    (he : ∀ c, e.cmd ≠ .redis c) : w'.redis = w.redis := by
  obtain ⟨c, r⟩ := e
  obtain ⟨x, h⟩ := h
  have hw : w' = (serve c x w).2 := (congrArg Prod.snd h).symm
  subst hw
  cases c with
  | redis c => exact absurd rfl (he c)
  | tryrdlock => simp only [serve]; split <;> rfl
  | trywrlock => simp only [serve]; split <;> rfl
  | unlock => simp only [serve]; split <;> rfl
  | storeAndBroadcast trytes => simp only [serve]; split <;> rfl
  | mamApiSave bytes => simp only [serve]; split <;> rfl
  | _ => rfl

/-- A command that does not write a key leaves it alone. -/
theorem serves_key {w w' : World} {e : Event sig} {k : Key} (h : world.Serves w e w')
    (he : ¬ e.cmd.WritesKey k) : w'.redis k = w.redis k := by
  by_cases hc : ∃ c, e.cmd = .redis c
  · obtain ⟨c, r⟩ := e
    obtain ⟨c, rfl⟩ := hc
    have ha := (serves_redis.mp h).1
    by_cases hw : c.Writes
    · exact ha.ne fun hk => he ⟨hw, hk.symm⟩
    · rw [ha.not_writes hw]
  · rw [serves_redis_eq h fun c hc' => hc ⟨c, hc'⟩]

/-- A trace that does not write a key leaves it alone. -/
theorem served_key {w w' : World} {τ : List (Event sig)} {k : Key}
    (h : Effect.Served world w τ w') (hτ : ∀ e ∈ τ, ¬ e.cmd.WritesKey k) :
    w'.redis k = w.redis k :=
  h.keeps (I := fun s : World => s.redis k = w.redis k)
    (fun e he _ _ hs hI => (serves_key hs (hτ e he)).trans hI) rfl

/-- The write lock is granted where nobody holds the lock. -/
theorem serves_trywrlock {w w' : World} (h : world.Serves w ⟨.trywrlock, true⟩ w') :
    w' = { w with lock := .writer } := by
  obtain ⟨refuse, h⟩ := h
  simp only [serve] at h
  split at h
  · rename_i l hl
    obtain ⟨-, rfl⟩ := Prod.mk.inj h
    obtain rfl : l = .writer := by
      unfold RwLock.trywrlock at hl
      split at hl
      · exact (Option.some.inj hl).symm
      · cases hl
    rfl
  · cases (Prod.mk.inj h).1

theorem serves_unlock {w w' : World} (h : world.Serves w ⟨.unlock, true⟩ w') :
    w' = { w with lock := w.lock.unlock } := by
  obtain ⟨ok, h⟩ := h
  obtain ⟨rfl, rfl⟩ := Prod.mk.inj h
  rfl

/-- Only lock commands change the lock. -/
theorem serves_lock_eq {w w' : World} {e : Event sig} (h : world.Serves w e w')
    (he : ¬ e.cmd.OnLock) : w'.lock = w.lock := by
  obtain ⟨c, r⟩ := e
  obtain ⟨x, h⟩ := h
  have hw : w' = (serve c x w).2 := (congrArg Prod.snd h).symm
  subst hw
  cases c with
  | tryrdlock => exact absurd trivial he
  | trywrlock => exact absurd trivial he
  | unlock => exact absurd trivial he
  | storeAndBroadcast trytes => simp only [serve]; split <;> rfl
  | mamApiSave bytes => simp only [serve]; split <;> rfl
  | _ => rfl

/-! ## Issuing commands -/

/-- Issue one command. -/
def request {ε : Type} (c : Cmd) : ExceptT ε (Prog sig) c.Ans :=
  liftM (Effect.command (S := sig) c)

/-- Call a function and keep its status. -/
def attempt {ε ε' α : Type} (x : ExceptT ε (Prog sig) α) :
    ExceptT ε' (Prog sig) (Except ε α) :=
  liftM x.run

section Issue

variable {ε ε' α : Type} {τ : List (Event sig)} {V : Server sig} {w w' : V.State}

@[simp] theorem path_run_request (c : Cmd) (r : Except ε c.Ans) :
    Effect.Path (request c).run τ r ↔ ∃ a, r = .ok a ∧ τ = [⟨c, a⟩] := by
  rw [request, Effect.path_run_lift]
  exact exists_congr fun a => and_congr_right fun _ => Effect.path_command (S := sig) c τ a

@[simp] theorem runs_run_request (c : Cmd) (r : Except ε c.Ans) :
    Effect.Runs V (request c).run w τ r w' ↔
      ∃ a, r = .ok a ∧ τ = [⟨c, a⟩] ∧ V.Serves w ⟨c, a⟩ w' := by
  rw [request, Effect.runs_run_lift]
  exact exists_congr fun a => and_congr_right fun _ =>
    Effect.runs_command (V := V) c w w' τ a

@[simp] theorem path_run_attempt (x : ExceptT ε (Prog sig) α) (r : Except ε' (Except ε α)) :
    Effect.Path (attempt x).run τ r ↔ ∃ a, r = .ok a ∧ Effect.Path x.run τ a :=
  Effect.path_run_lift ..

@[simp] theorem runs_run_attempt (x : ExceptT ε (Prog sig) α) (r : Except ε' (Except ε α)) :
    Effect.Runs V (attempt x).run w τ r w' ↔
      ∃ a, r = .ok a ∧ Effect.Runs V x.run w τ a w' :=
  Effect.runs_run_lift ..

/-- A call whose status is kept never ends what follows. -/
theorem path_run_attempt_bind {β : Type} (x : ExceptT ε (Prog sig) α)
    (f : Except ε α → ExceptT ε' (Prog sig) β) (r : Except ε' β) :
    Effect.Path (attempt x >>= f).run τ r ↔
      ∃ a τ₁ τ₂, τ = τ₁ ++ τ₂ ∧ Effect.Path x.run τ₁ a ∧ Effect.Path (f a).run τ₂ r := by
  rw [Effect.path_run_bind]
  constructor
  · intro h
    rcases h with ⟨e, -, h⟩ | ⟨a, τ₁, τ₂, rfl, h₁, h₂⟩
    · obtain ⟨a, ha, -⟩ := (path_run_attempt ..).mp h
      cases ha
    · obtain ⟨b, hb, h₁⟩ := (path_run_attempt ..).mp h₁
      cases hb
      exact ⟨a, τ₁, τ₂, rfl, h₁, h₂⟩
  · intro h
    obtain ⟨a, τ₁, τ₂, rfl, h₁, h₂⟩ := h
    exact Or.inr ⟨a, τ₁, τ₂, rfl, (path_run_attempt ..).mpr ⟨a, rfl, h₁⟩, h₂⟩

theorem runs_run_attempt_bind {β : Type} (x : ExceptT ε (Prog sig) α)
    (f : Except ε α → ExceptT ε' (Prog sig) β) (r : Except ε' β) :
    Effect.Runs V (attempt x >>= f).run w τ r w' ↔
      ∃ a τ₁ τ₂ w₁, τ = τ₁ ++ τ₂ ∧ Effect.Runs V x.run w τ₁ a w₁ ∧
        Effect.Runs V (f a).run w₁ τ₂ r w' := by
  rw [Effect.Runs, path_run_attempt_bind]
  constructor
  · intro h
    obtain ⟨⟨a, τ₁, τ₂, rfl, h₁, h₂⟩, hs⟩ := h
    obtain ⟨w₁, hs₁, hs₂⟩ := (Effect.served_append ..).mp hs
    exact ⟨a, τ₁, τ₂, w₁, rfl, ⟨h₁, hs₁⟩, ⟨h₂, hs₂⟩⟩
  · intro h
    obtain ⟨a, τ₁, τ₂, w₁, rfl, h₁, h₂⟩ := h
    exact ⟨⟨a, τ₁, τ₂, rfl, h₁.1, h₂.1⟩, (Effect.served_append ..).mpr ⟨w₁, h₁.2, h₂.2⟩⟩

/-- A command never fails as a program, whatever its answer. -/
theorem path_run_request_bind {β : Type} (c : Cmd) (f : c.Ans → ExceptT ε (Prog sig) β)
    (r : Except ε β) :
    Effect.Path (request c >>= f).run τ r ↔
      ∃ a τ', τ = ⟨c, a⟩ :: τ' ∧ Effect.Path (f a).run τ' r := Iff.rfl

theorem runs_run_request_bind {β : Type} (c : Cmd) (f : c.Ans → ExceptT ε (Prog sig) β)
    (r : Except ε β) :
    Effect.Runs V (request c >>= f).run w τ r w' ↔
      ∃ a τ' w₁, τ = ⟨c, a⟩ :: τ' ∧ V.Serves w ⟨c, a⟩ w₁ ∧ Effect.Runs V (f a).run w₁ τ' r w' := by
  rw [Effect.Runs, path_run_request_bind]
  constructor
  · intro h
    obtain ⟨⟨a, τ', rfl, hp⟩, w₁, hs, hs'⟩ := h
    exact ⟨a, τ', w₁, rfl, hs, hp, hs'⟩
  · intro h
    obtain ⟨a, τ', w₁, rfl, hs, hp, hs'⟩ := h
    exact ⟨⟨a, τ', rfl, hp⟩, w₁, hs, hs'⟩

@[simp] theorem uses_run_request {P : Cmd → Prop} (c : Cmd) :
    Effect.Uses (S := sig) P (request c : ExceptT ε (Prog sig) c.Ans).run ↔ P c :=
  ⟨fun h => h.1, fun h => Effect.Uses.run_lift ((Effect.uses_command (S := sig) c).mpr h)⟩

theorem uses_run_attempt {P : Cmd → Prop} {x : ExceptT ε (Prog sig) α}
    (h : Effect.Uses (S := sig) P x.run) :
    Effect.Uses (S := sig) P (attempt x : ExceptT ε' (Prog sig) (Except ε α)).run :=
  h.run_lift

variable {R : Effect.Protocol sig} {m : R.State}

@[simp] theorem safe_run_request (c : Cmd) (Q : Except ε c.Ans → R.State → Prop) :
    Effect.Safe R (request c : ExceptT ε (Prog sig) c.Ans).run m Q ↔
      R.may m c ∧ ∀ a, R.admits m ⟨c, a⟩ → Q (.ok a) (R.next m ⟨c, a⟩) := Iff.rfl

theorem safe_run_request_bind {β : Type} (c : Cmd) (f : c.Ans → ExceptT ε (Prog sig) β)
    (Q : Except ε β → R.State → Prop) :
    Effect.Safe R (request c >>= f).run m Q ↔
      R.may m c ∧ ∀ a, R.admits m ⟨c, a⟩ → Effect.Safe R (f a).run (R.next m ⟨c, a⟩) Q := Iff.rfl

@[simp] theorem safe_run_attempt (x : ExceptT ε (Prog sig) α)
    (Q : Except ε' (Except ε α) → R.State → Prop) :
    Effect.Safe R (attempt x : ExceptT ε' (Prog sig) (Except ε α)).run m Q ↔
      Effect.Safe R x.run m fun r m' => Q (.ok r) m' :=
  Effect.safe_run_lift ..

variable {F : Event sig → Bool}

theorem failsOnlyAt_request (c : Cmd) :
    Effect.FailsOnlyAt F (request c : ExceptT ε (Prog sig) c.Ans) := by
  intro τ r h _
  obtain ⟨a, ha, -⟩ := (path_run_request ..).mp h
  exact ⟨a, ha⟩

theorem failsOnlyAt_attempt (x : ExceptT ε (Prog sig) α) :
    Effect.FailsOnlyAt F (attempt x : ExceptT ε' (Prog sig) (Except ε α)) := by
  intro τ r h _
  obtain ⟨a, ha, -⟩ := (path_run_attempt ..).mp h
  exact ⟨a, ha⟩

/-- What follows a command may use that its answer is not marked. -/
theorem failsOnlyAt_request_bind {β : Type} {c : Cmd} {f : c.Ans → ExceptT ε (Prog sig) β}
    (h : ∀ a, F ⟨c, a⟩ = false → Effect.FailsOnlyAt F (f a)) :
    Effect.FailsOnlyAt F (request c >>= f) := by
  intro τ r hpath hτ
  obtain ⟨a, τ', rfl, hrest⟩ := (path_run_request_bind ..).mp hpath
  rw [List.forall_mem_cons] at hτ
  exact h a hτ.1 τ' r hrest hτ.2

/-- A function fails at a marked answer if what follows the command does. -/
theorem failsAt_request_bind {β : Type} {c : Cmd} {f : c.Ans → ExceptT ε (Prog sig) β}
    (hmark : ∀ a, F ⟨c, a⟩ = true → ∀ τ b, ¬ Effect.Path (f a).run τ (.ok b))
    (h : ∀ a, Effect.FailsAt F (f a)) : Effect.FailsAt F (request c >>= f) := by
  intro τ b hpath
  obtain ⟨a, τ', rfl, hrest⟩ := (path_run_request_bind ..).mp hpath
  refine List.forall_mem_cons.mpr ⟨?_, h a τ' b hrest⟩
  cases hF : F ⟨c, a⟩ with
  | false => rfl
  | true => exact absurd hrest (hmark a hF τ' b)

section Checked

variable {β γ : Type} {c : Cmd} {e : ε}

/-- A command whose answer is checked. -/
theorem failsOnlyAt_ensure_request {g : c.Ans → Bool} {k : c.Ans → Unit → ExceptT ε (Prog sig) β}
    (hF : ∀ a, F ⟨c, a⟩ = !g a) (hk : ∀ a, Effect.FailsOnlyAt F (k a ())) :
    Effect.FailsOnlyAt F (request c >>= fun a => Effect.ensure (g a) e >>= k a) := by
  refine failsOnlyAt_request_bind fun a ha => ?_
  rw [hF] at ha
  cases hg : g a with
  | true => exact (Effect.failsOnlyAt_pure _).bind fun _ => hk a
  | false => rw [hg] at ha; cases ha

theorem failsAt_ensure_request {g : c.Ans → Bool} {k : c.Ans → Unit → ExceptT ε (Prog sig) β}
    (hF : ∀ a, F ⟨c, a⟩ = !g a) (hk : ∀ a, Effect.FailsAt F (k a ())) :
    Effect.FailsAt F (request c >>= fun a => Effect.ensure (g a) e >>= k a) := by
  refine failsAt_request_bind ?_ fun a => (Effect.failsAt_ensure _ _).bind fun _ => hk a
  intro a ha τ b hpath
  obtain ⟨_, τ₁, τ₂, -, hensure, -⟩ := (Effect.path_run_bind_ok ..).mp hpath
  have hg := ((Effect.path_run_ensure ..).mp hensure).2
  rw [hF, Bool.not_eq_true'] at ha
  rw [ha] at hg
  cases hg

/-- A command whose answer is asked for a value. -/
theorem failsOnlyAt_demand_request {g : c.Ans → Option γ} {k : c.Ans → γ → ExceptT ε (Prog sig) β}
    (hF : ∀ a, F ⟨c, a⟩ = (g a).isNone) (hk : ∀ a v, Effect.FailsOnlyAt F (k a v)) :
    Effect.FailsOnlyAt F (request c >>= fun a => Effect.demand (g a) e >>= k a) := by
  refine failsOnlyAt_request_bind fun a ha => ?_
  rw [hF] at ha
  cases hg : g a with
  | some v => exact (Effect.failsOnlyAt_pure _).bind (hk a)
  | none => rw [hg] at ha; cases ha

theorem failsAt_demand_request {g : c.Ans → Option γ} {k : c.Ans → γ → ExceptT ε (Prog sig) β}
    (hF : ∀ a, F ⟨c, a⟩ = (g a).isNone) (hk : ∀ a v, Effect.FailsAt F (k a v)) :
    Effect.FailsAt F (request c >>= fun a => Effect.demand (g a) e >>= k a) := by
  refine failsAt_request_bind ?_ fun a => (Effect.failsAt_demand _ _).bind (hk a)
  intro a ha τ b hpath
  obtain ⟨_, τ₁, τ₂, -, hdemand, -⟩ := (Effect.path_run_bind_ok ..).mp hpath
  rw [hF, Option.isNone_iff_eq_none] at ha
  rw [ha] at hdemand
  cases ((Effect.path_run_throw ..).mp hdemand).2

end Checked

end Issue

end TangleAccelerator
