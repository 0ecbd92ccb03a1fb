import TangleAccelerator.Buffer.Handover

/-!
# The order of messages

`api_send_mam_message` pushes the UUID of a request at the head of the MAM buffer list, and
`broadcast_buffered_send_mam_request` takes UUIDs from the head.  The list is a stack: of two
requests that wait in it, the later one is sent first.

The main result is about a thread that calls the broadcast function again and again, beside any
number of requests, under any schedule.  Where no request is pushed while another one of its seed
waits, and none while the thread is between its read and its pop, the requests of each seed are
handed to `ta_send_mam_message` in the order in which they were accepted.

`Reading` is what the thread has read so far, and `Posting` how far a request has come.  Both are
protocols the programs obey, and `InOrder` is what they keep true of the cache.
-/

namespace TangleAccelerator

open Effect

/-! ## The sender -/

/-- What the sender has read: nothing, the UUID at the head of the list, or also the request that
is stored under it. -/
inductive Reading where
  | idle
  | peeked (u : Uuid)
  | handed (u : Uuid)
deriving DecidableEq

/-- What the sender has read after an event. -/
def Reading.next : Reading → Event sig → Reading
  | _, ⟨.redis (.lindex (.list .mamBuffer) 0), .bulk u⟩ => .peeked u
  | _, ⟨.redis (.get (.uuid u)), .bulk _⟩ => .handed u
  | _, ⟨.redis (.lpop (.list .mamBuffer)), .bulk _⟩ => .idle
  | m, _ => m

/-- The sender reads the head, then the request under it, then it works on the key of the request
and pops the head. -/
def Reading.may (m : Reading) : Cmd → Prop
  | .redis (.lindex (.list .mamBuffer) _) => m = .idle
  | .redis (.get (.uuid u)) => m = .peeked u
  | .redis (.lpop (.list .mamBuffer)) => ∃ u, m = .handed u
  | .redis c => c.Writes → c.key ≠ .list .mamBuffer ∧ ∀ u, c.key = .uuid u → m = .handed u
  | _ => True

/-- The protocol of the sender. -/
@[reducible] def sending : Protocol sig where
  State := Reading
  next := Reading.next
  may := Reading.may
  admits _ _ := True

section Sender

variable {m : Reading} {u : Uuid} {α β : Type}

/-- Commands that are not about the cache do not matter. -/
theorem sending_unwatched {p : Prog sig α} (h : Uses (S := sig) (fun c => ¬ c.OnCache) p) :
    Safe sending p m fun _ m' => m' = m := by
  refine Safe.of_uses (R := sending) (J := fun m' => m' = m) ?_ ?_ h rfl
  · intro m' c _ hc
    cases c with
    | redis c => exact absurd trivial hc
    | _ => trivial
  · intro m' c r hm hc
    cases c with
    | redis c => exact absurd trivial hc
    | _ => exact hm

theorem sending_unwatched_then {x : Proc α} {f : α → Proc β} {Q : Except Status β → Reading → Prop}
    (hx : Uses (S := sig) (fun c => ¬ c.OnCache) x.run) (herr : ∀ e, Q (.error e) m)
    (hf : ∀ a, Safe sending (f a).run m Q) : Safe sending (x >>= f).run m Q := by
  rw [safe_run_bind]
  refine (sending_unwatched hx).mono fun r m' hm' => ?_
  subst hm'
  cases r with
  | ok a => exact hf a
  | error e => exact herr e

/-- A command on the cache. -/
theorem sending_cache {state : Bool} {c : Redis.Cmd Key Key.Elem}
    {f : Redis.Reply c.Bulk → Except Status α} {Q : Except Status α → Reading → Prop}
    (hmay : m.may (.redis c)) (hoff : Q (.error .cacheOff) m)
    (hreply : ∀ reply, Q (f reply) (m.next ⟨.redis c, reply⟩)) :
    Safe sending (cacheOn state (redisCommand c f)).run m Q := by
  cases state with
  | false => exact hoff
  | true => exact safe_cacheOn_true.mpr (safe_redisCommand.mpr ⟨hmay, fun reply _ => hreply reply⟩)

/-- A command on the cache after which the sender has read what it had. -/
theorem sending_cache_then {state : Bool} {c : Redis.Cmd Key Key.Elem}
    {f : Redis.Reply c.Bulk → Except Status α} {g : α → Proc β}
    {Q : Except Status β → Reading → Prop} (hmay : m.may (.redis c))
    (hnext : ∀ reply, m.next ⟨.redis c, reply⟩ = m) (herr : ∀ e, Q (.error e) m)
    (hg : ∀ a, Safe sending (g a).run m Q) :
    Safe sending (cacheOn state (redisCommand c f) >>= g).run m Q := by
  rw [safe_run_bind]
  refine sending_cache hmay (herr _) fun reply => ?_
  rw [hnext reply]
  cases f reply with
  | ok a => exact hg a
  | error e => exact herr e

variable {I : Iota} {M : MamLib} {J : Codec} {core : TaCore} {fuel : Nat}

theorem may_uuid {c : Redis.Cmd Key Key.Elem} (hget : ∀ v, c ≠ .get (.uuid v))
    (hc : c.key = .uuid u) : (Reading.handed u).may (.redis c) := by
  have hkey : c.Writes → c.key ≠ .list .mamBuffer ∧ ∀ v, c.key = .uuid v →
      Reading.handed u = .handed v := by
    intro _
    rw [hc]
    exact ⟨nofun, fun v hv => by rw [Key.uuid.inj hv]⟩
  cases c with
  | get k => exact absurd (congrArg _ hc) (hget u)
  | lindex k i => cases hc; exact hkey
  | lpop k => cases hc; exact hkey
  | _ => exact hkey

theorem sending_publishMam :
    Safe sending (publishMam I M J core fuel u).run (.peeked u) fun r m' =>
      ∀ a, r = .ok (some a) → m' = .handed u := by
  rw [publishMam, safe_run_bind]
  refine sending_cache rfl (by simp) fun reply => ?_
  cases reply with
  | bulk json =>
      refine sending_unwatched_then (m := .handed u) (uses_run_settle _) (by simp) fun req => ?_
      refine sending_unwatched_then (uses_taSendMamMessage M (fun c hc => hc.not_onCache)
        (fun t => id) id I fuel _ _ req) (by simp) fun res => ?_
      cases res with
      | none => exact fun a h => by cases h
      | some res =>
          rw [safe_run_bind, safe_run_request]
          refine ⟨trivial, fun ok _ => ?_⟩
          refine sending_unwatched_then (m := .handed u) (uses_run_ensure _ _) (by simp) fun _ => ?_
          refine sending_cache_then (may_uuid nofun rfl) (fun _ => rfl) (by simp) fun _ => ?_
          refine sending_cache_then (may_uuid nofun rfl) (fun _ => rfl) (by simp) fun _ => ?_
          exact fun _ _ => rfl
  | _ => simp [stringReply]

/-- An iteration that does not fail leaves the sender with nothing read. -/
def Rests {α : Type} (r : Except Status (Pass α)) (m : Reading) : Prop :=
  match r with
  | .ok .empty | .ok (.moved _) => m = .idle
  | _ => True

theorem sending_iteration :
    Safe sending (broadcastMamIteration I M J core fuel).run .idle Rests := by
  rw [broadcastMamIteration, broadcastIteration]
  refine sending_cache_then (fun h => h.elim) (fun _ => rfl) (fun _ => trivial) fun len => ?_
  split
  · exact rfl
  rw [safe_run_bind]
  refine sending_cache rfl trivial fun reply => ?_
  cases reply with
  | bulk u =>
      change Safe sending (publishMam I M J core fuel u >>= _).run (.peeked u) Rests
      rw [safe_run_bind]
      refine sending_publishMam.mono fun r m₁ hpublish => ?_
      rcases r with e | _ | json
      · trivial
      · trivial
      · cases hpublish json rfl
        dsimp only
        rw [safe_run_bind]
        refine sending_cache ⟨u, rfl⟩ trivial fun reply => ?_
        cases reply with
        | bulk p =>
            refine sending_cache_then (m := .idle)
              (fun _ => ⟨fun h => (by cases h), fun _ h => by cases h⟩) (fun _ => rfl)
              (fun _ => trivial) fun _ => ?_
            rw [safe_run_bind, safe_run_request]
            refine ⟨trivial, fun ok _ => ?_⟩
            refine sending_unwatched_then (m := .idle) (uses_run_ensure _ _) (fun _ => trivial)
              fun _ => ?_
            exact rfl
        | _ => trivial
  | _ => trivial

/-- The broadcast function. -/
theorem sending_broadcast :
    Safe sending (broadcastBufferedSendMamRequest I M J core fuel).run .idle fun r m' =>
      r = .ok (some ()) → m' = .idle := by
  unfold broadcastBufferedSendMamRequest
  generalize hn : fuel = n
  nth_rewrite 1 [← hn]
  clear hn
  induction n with
  | zero => exact fun h => by cases h
  | succ n ih =>
      rw [broadcastLoop, safe_run_bind]
      refine sending_iteration.mono fun r m' hr => ?_
      rcases r with e | _ | it | _
      · exact fun h => by cases h
      · exact fun _ => hr
      · cases hr
        exact ih
      · exact fun h => by cases h

end Sender

/-- Calls of `broadcast_buffered_send_mam_request` one after the other, up to the first that
fails. -/
def broadcastCalls (I : Iota) (M : MamLib) (J : Codec) (core : TaCore) (fuel : Nat) :
    Nat → Proc (Option Unit)
  | 0 => pure (some ())
  | calls + 1 => do
      match ← broadcastBufferedSendMamRequest I M J core fuel with
      | none => pure none
      | some () => broadcastCalls I M J core fuel calls

theorem sending_broadcastCalls {I : Iota} {M : MamLib} {J : Codec} {core : TaCore} {fuel : Nat}
    (calls : Nat) :
    Safe sending (broadcastCalls I M J core fuel calls).run .idle fun _ _ => True := by
  induction calls with
  | zero => trivial
  | succ calls ih =>
      rw [broadcastCalls, safe_run_bind]
      refine sending_broadcast.mono fun r m' hr => ?_
      rcases r with e | _ | _
      · trivial
      · trivial
      · cases hr rfl
        exact ih

/-! ## The requests -/

/-- How far a call of `api_send_mam_message` has come: it has drawn a UUID, it has stored the
request under it, or it is over. -/
inductive Posting where
  | start
  | drawn (u : Uuid)
  | stored (u : Uuid)
  | done

/-- How far a request has come after an event. -/
def Posting.next : Posting → Event sig → Posting
  | .start, ⟨.uuidGenerateRandom, u⟩ => .drawn u
  | .drawn u, _ => .stored u
  | _, _ => .done

/-- The next command of a request with the text `obj`. -/
def Posting.may (obj : String) : Posting → Cmd → Prop
  | .start, c => c = .uuidGenerateRandom
  | .drawn u, c => ∃ ex, c = .redis (.set (.uuid u) obj ex)
  | .stored u, c => c = .redis (.lpush (.list .mamBuffer) u)
  | .done, _ => False

/-- The UUID a request has drawn and not yet pushed. -/
def Posting.Holds (m : Posting) (u : Uuid) : Prop := m = .drawn u ∨ m = .stored u

/-- The protocol of a request with the text `obj`. -/
@[reducible] def posting (obj : String) : Protocol sig where
  State := Posting
  next := Posting.next
  may := Posting.may obj
  admits _ _ := True

theorem posting_apiSendMamMessage (J : Codec) (cache : TaCache) (obj : String) :
    Safe (posting obj) (apiSendMamMessage J cache obj).run .start fun _ _ => True := by
  rw [apiSendMamMessage, safe_run_bind, safe_run_settle]
  cases J.sendMamReq obj with
  | error e => trivial
  | ok req =>
      dsimp only
      rw [safe_run_request_bind]
      refine ⟨rfl, fun u _ => ?_⟩
      cases hstate : cache.state with
      | false => trivial
      | true =>
          refine ⟨⟨_, rfl⟩, fun stored _ => ?_⟩
          refine ⟨rfl, fun reply _ => ?_⟩
          cases reply <;> trivial

/-- A thread that calls the broadcast function, and requests, whose answers do not matter. -/
def mamOrderPool (I : Iota) (M : MamLib) (J : Codec) (core : TaCore) (fuel calls : Nat)
    (objs : List String) (w : World) : Pool world (Except Status (Option Unit)) :=
  ⟨(broadcastCalls I M J core fuel calls).run ::
    objs.map fun obj => (apiSendMamMessage J core.cache obj).run >>= fun _ => pure (.ok none), w⟩

/-! ## What a trace says about the requests -/

/-- The event takes a UUID off the MAM buffer list. -/
def pops : Event sig → Bool
  | ⟨.redis (.lpop (.list .mamBuffer)), .bulk _⟩ => true
  | _ => false

/-- The request an event reads.  The sender hands it to `ta_send_mam_message`. -/
def readRequest : Event sig → Option String
  | ⟨.redis (.get (.uuid _)), .bulk json⟩ => some json
  | _ => none

/-- The UUID an event draws. -/
def drew : Event sig → Option Uuid
  | ⟨.uuidGenerateRandom, u⟩ => some u
  | _ => none

/-- What a trace says about the requests: what the sender has read, the requests that wait in the
MAM buffer list, how far each request has come, the UUIDs the requests have drawn, and the
requests that were accepted and that were handed to `ta_send_mam_message`, in this order. -/
structure MamRecord where
  reading : Reading := .idle
  queue : List (Uuid × String) := []
  posts : Nat → Posting := fun _ => .start
  draws : List Uuid := []
  accepted : List String := []
  handed : List String := []

/-- The record after an event.  Thread `0` sends, and thread `i + 1` is the request `i`. -/
def MamRecord.next (objs : List String) (m : MamRecord) : Nat × Event sig → MamRecord
  | (0, e) =>
      { m with
        reading := m.reading.next e
        queue := if pops e then m.queue.tail else m.queue
        handed := m.handed ++ (readRequest e).toList }
  | (i + 1, e) =>
      { m with
        posts := Function.update m.posts i ((m.posts i).next e)
        queue := ((pushed .mamBuffer e).map fun u => (u, objs.getD i "")).toList ++ m.queue
        draws := m.draws ++ (drew e).toList
        accepted := m.accepted ++ ((pushed .mamBuffer e).map fun _ => objs.getD i "").toList }

/-- The record of a trace. -/
def mamRecord (objs : List String) (T : List (Nat × Event sig)) : MamRecord :=
  T.foldl (MamRecord.next objs) {}

theorem mamRecord_append (objs : List String) (A B : List (Nat × Event sig)) :
    mamRecord objs (A ++ B) = B.foldl (MamRecord.next objs) (mamRecord objs A) := List.foldl_append

/-- The requests that wait and that were not handed over. -/
def MamRecord.rest (m : MamRecord) : List (Uuid × String) :=
  match m.reading with
  | .handed _ => m.queue.tail
  | _ => m.queue

/-- The seed of a request. -/
def seedOf (J : Codec) (obj : String) : Option (Option Hash243) :=
  match J.sendMamReq obj with
  | .ok req => some req.seed
  | .error _ => none

/-- A request is pushed only where the sender has nothing read and no other request of its seed
waits. -/
def MamRecord.joins (J : Codec) (objs : List String) (m : MamRecord) : Nat × Event sig → Bool
  | (0, _) => true
  | (i + 1, e) =>
      (pushed .mamBuffer e).isNone ||
        (m.reading == .idle && m.queue.all fun x => seedOf J x.2 != seedOf J (objs.getD i ""))

/-- Every push of a trace is one that joins. -/
def orderly (J : Codec) (objs : List String) : MamRecord → List (Nat × Event sig) → Bool
  | _, [] => true
  | m, x :: T => m.joins J objs x && orderly J objs (m.next objs x) T

variable {J : Codec} {objs : List String}

theorem orderly_split {m : MamRecord} {A B : List (Nat × Event sig)} {x : Nat × Event sig}
    (h : orderly J objs m (A ++ x :: B) = true) :
    (A.foldl (MamRecord.next objs) m).joins J objs x = true := by
  induction A generalizing m with
  | nil => exact (Bool.and_eq_true_iff.mp h).1
  | cons y A ih => exact ih (Bool.and_eq_true_iff.mp h).2

theorem record_reading (m : MamRecord) (T : List (Nat × Event sig)) :
    (T.foldl (MamRecord.next objs) m).reading = sending.after m.reading (threadTrace 0 T) := by
  induction T generalizing m with
  | nil => rfl
  | cons x T ih =>
      obtain ⟨i, e⟩ := x
      rw [List.foldl_cons, ih]
      cases i with
      | zero => rw [threadTrace_cons_self]; rfl
      | succ i => rw [threadTrace_cons_ne (Nat.succ_ne_zero i)]; rfl

theorem record_posts (m : MamRecord) (T : List (Nat × Event sig)) (i : Nat) :
    (T.foldl (MamRecord.next objs) m).posts i =
      (posting (objs.getD i "")).after (m.posts i) (threadTrace (i + 1) T) := by
  induction T generalizing m with
  | nil => rfl
  | cons x T ih =>
      obtain ⟨j, e⟩ := x
      rw [List.foldl_cons, ih]
      cases j with
      | zero => rw [threadTrace_cons_ne (Nat.succ_ne_zero i).symm]; rfl
      | succ j =>
          by_cases hj : j = i
          · subst hj
            rw [threadTrace_cons_self]
            simp [MamRecord.next]
          · rw [threadTrace_cons_ne (by omega)]
            simp [MamRecord.next, Function.update_of_ne (Ne.symm hj)]

/-! ## The steps of the sender -/

/-- What a step of the sender does to the cache. -/
inductive SenderStep (w : World) : Reading → Event sig → World → Prop
  | peek {u : Uuid} (head : (Redis.items w.redis (.list .mamBuffer))[0]? = some u) :
      SenderStep w .idle ⟨.redis (.lindex (.list .mamBuffer) 0), .bulk u⟩ w
  | get {u : Uuid} {json : String} (stored : w.redis (.uuid u) = some (.str json)) :
      SenderStep w (.peeked u) ⟨.redis (.get (.uuid u)), .bulk json⟩ w
  | pop {u v : Uuid} {w' : World}
      (items : Redis.items w.redis (.list .mamBuffer) =
        v :: Redis.items w'.redis (.list .mamBuffer))
      (uuids : ∀ x, w'.redis (.uuid x) = w.redis (.uuid x)) :
      SenderStep w (.handed u) ⟨.redis (.lpop (.list .mamBuffer)), .bulk v⟩ w'
  | other {m : Reading} {e : Event sig} {w' : World} (next : m.next e = m) (pops : pops e = false)
      (reads : readRequest e = none)
      (items : Redis.items w'.redis (.list .mamBuffer) = Redis.items w.redis (.list .mamBuffer))
      (uuids : ∀ x, m ≠ .handed x → w'.redis (.uuid x) = w.redis (.uuid x)) : SenderStep w m e w'

section Steps

variable {m : Reading} {w w' : World}

/-- A command that does not change the database. -/
theorem SenderStep.of_redis_eq {e : Event sig} (next : m.next e = m) (hpops : pops e = false)
    (reads : readRequest e = none) (h : w'.redis = w.redis) : SenderStep w m e w' :=
  .other next hpops reads (by rw [h]) fun _ _ => by rw [h]

/-- A command that writes, other than the pop of the list. -/
theorem SenderStep.of_writes {c : Redis.Cmd Key Key.Elem} {r : Redis.Reply c.Bulk}
    (next : m.next ⟨.redis c, r⟩ = m) (hpops : pops ⟨.redis c, r⟩ = false)
    (reads : readRequest ⟨.redis c, r⟩ = none)
    (hmay : c.key ≠ .list .mamBuffer ∧ ∀ u, c.key = .uuid u → m = .handed u)
    (hs : world.Serves w ⟨.redis c, r⟩ w') : SenderStep w m ⟨.redis c, r⟩ w' := by
  refine .other next hpops reads ?_ fun x hx => ?_
  · rw [Redis.items, Redis.items, serves_key hs fun hw => hmay.1 hw.2]
  · exact serves_key hs fun hw => hx (hmay.2 x hw.2)

theorem senderStep {e : Event sig} (hmay : m.may e.cmd) (hs : world.Serves w e w') :
    SenderStep w m e w' := by
  obtain ⟨c, r⟩ := e
  cases c with
  | redis c =>
      cases c with
      | del k => exact .of_writes rfl rfl rfl (hmay trivial) hs
      | set k v ex => exact .of_writes rfl rfl rfl (hmay trivial) hs
      | lpush k e => exact .of_writes rfl rfl rfl (hmay trivial) hs
      | llen k => exact .of_redis_eq rfl rfl rfl (by rw [serves_read hs id])
      | get k =>
          obtain rfl := serves_read hs id
          cases k with
          | uuid u =>
              cases hmay
              cases r with
              | bulk json => exact .get (serves_redis.mp hs).1.get
              | _ => exact .of_redis_eq rfl rfl rfl rfl
          | _ => exact .of_redis_eq rfl rfl rfl rfl
      | lindex k i =>
          obtain rfl := serves_read hs id
          cases k with
          | list n =>
              cases n with
              | mamBuffer =>
                  cases hmay
                  cases i with
                  | zero =>
                      cases r with
                      | bulk u => exact .peek (serves_redis.mp hs).1.lindex
                      | _ => exact .of_redis_eq rfl rfl rfl rfl
                  | succ i => exact .of_redis_eq rfl rfl rfl rfl
              | _ => exact .of_redis_eq rfl rfl rfl rfl
          | _ => exact .of_redis_eq rfl rfl rfl rfl
      | lpop k =>
          cases k with
          | list n =>
              cases n with
              | mamBuffer =>
                  obtain ⟨u, rfl⟩ := hmay
                  cases r with
                  | bulk v =>
                      exact .pop (serves_redis.mp hs).1.lpop fun x => serves_key hs nofun
                  | _ =>
                      exact .of_redis_eq rfl rfl rfl ((serves_redis.mp hs).1.lpop_none (by simp))
              | _ => exact .of_writes rfl rfl rfl (hmay trivial) hs
          | _ => exact .of_writes rfl rfl rfl (hmay trivial) hs
  | _ => exact .of_redis_eq rfl rfl rfl (serves_redis_eq hs fun c hc => by cases hc)

end Steps

/-! ## What the threads keep true -/

/-- The requests of one seed. -/
def ofSeed (J : Codec) (s : Option (Option Hash243)) (l : List String) : List String :=
  l.filter fun obj => seedOf J obj = s

theorem ofSeed_append (s : Option (Option Hash243)) (l₁ l₂ : List String) :
    ofSeed J s (l₁ ++ l₂) = ofSeed J s l₁ ++ ofSeed J s l₂ := List.filter_append ..

/-- What the record of a trace says about the cache, and about the order of the requests. -/
structure InOrder (J : Codec) (objs : List String) (w₀ : World) (m : MamRecord) (w : World) :
    Prop where
  listed : Redis.items w.redis (.list .mamBuffer) = m.queue.map Prod.fst
  front : ∀ u, m.reading = .peeked u ∨ m.reading = .handed u →
    ∃ obj q, m.queue = (u, obj) :: q
  distinct : (m.queue.map Prod.fst).Nodup
  drawn : ∀ u ∈ m.queue.map Prod.fst, u ∈ m.draws
  /-- What is stored under a UUID that waits is its request. -/
  text : ∀ x ∈ m.rest, ∀ v, w.redis (.uuid x.1) = some v → v = .str x.2
  free : ∀ i u, m.posts i = .drawn u → w.redis (.uuid u) = none
  stored : ∀ i u, m.posts i = .stored u → ∀ v, w.redis (.uuid u) = some v →
    v = .str (objs.getD i "")
  /-- Nobody else has the UUID of a request that is not yet pushed. -/
  own : ∀ i u, (m.posts i).Holds u →
    u ∈ m.draws ∧ u ∉ m.queue.map Prod.fst ∧ ∀ j, (m.posts j).Holds u → j = i
  unused : ∀ u, u ∉ m.draws → w.redis (.uuid u) = w₀.redis (.uuid u)
  order : ∀ s, ofSeed J s m.accepted = ofSeed J s m.handed ++ ofSeed J s (m.rest.map Prod.snd)

namespace InOrder

variable {w₀ w w' : World} {m : MamRecord} {e : Event sig}

theorem mem_queue_of_rest {x : Uuid × String} (hx : x ∈ m.rest) : x ∈ m.queue := by
  unfold MamRecord.rest at hx
  split at hx
  · exact List.mem_of_mem_tail hx
  · exact hx

/-- The request the sender has handed over is not one of the rest. -/
theorem handed_ne (h : InOrder J objs w₀ m w) {x : Uuid × String} (hx : x ∈ m.rest) :
    m.reading ≠ .handed x.1 := by
  intro hr
  obtain ⟨obj, q, hq⟩ := h.front x.1 (Or.inr hr)
  have hrest : m.rest = q := by rw [MamRecord.rest, hr, hq]; rfl
  have hdistinct := h.distinct
  rw [hq, List.map_cons, List.nodup_cons] at hdistinct
  rw [hrest] at hx
  exact hdistinct.1 (List.mem_map.mpr ⟨x, hx, rfl⟩)

theorem handed_mem (h : InOrder J objs w₀ m w) {u : Uuid} (hr : m.reading = .handed u) :
    u ∈ m.queue.map Prod.fst := by
  obtain ⟨obj, q, hq⟩ := h.front u (Or.inr hr)
  rw [hq]
  exact List.mem_cons_self ..

/-- Only what is stored under the UUID that was handed over has changed. -/
theorem keep (h : InOrder J objs w₀ m w)
    (items : Redis.items w'.redis (.list .mamBuffer) = Redis.items w.redis (.list .mamBuffer))
    (uuids : ∀ x, m.reading ≠ .handed x → w'.redis (.uuid x) = w.redis (.uuid x)) :
    InOrder J objs w₀ m w' where
  listed := items.trans h.listed
  front := h.front
  distinct := h.distinct
  drawn := h.drawn
  text x hx := by
    rw [uuids _ (h.handed_ne hx)]
    exact h.text x hx
  free i u hi := by
    rw [uuids u fun hr => (h.own i u (Or.inl hi)).2.1 (h.handed_mem hr)]
    exact h.free i u hi
  stored i u hi := by
    rw [uuids u fun hr => (h.own i u (Or.inr hi)).2.1 (h.handed_mem hr)]
    exact h.stored i u hi
  own := h.own
  unused u hu := by
    rw [uuids u fun hr => hu (h.drawn u (h.handed_mem hr))]
    exact h.unused u hu
  order := h.order

theorem sender (h : InOrder J objs w₀ m w) (hs : SenderStep w m.reading e w') :
    InOrder J objs w₀ (m.next objs (0, e)) w' := by
  generalize hreading : m.reading = reading at hs
  cases hs with
  | @peek u head =>
      have hnext : m.next objs (0, ⟨.redis (.lindex (.list .mamBuffer) 0), .bulk u⟩) =
          { m with reading := .peeked u } := by
        simp [MamRecord.next, Reading.next, pops, readRequest]
      have hrest : m.rest = m.queue := by rw [MamRecord.rest, hreading]
      rw [hnext]
      refine { h with front := fun v hv => ?_, text := ?_, order := ?_ }
      · obtain rfl : u = v := by simpa using hv
        rw [h.listed, List.getElem?_map, Option.map_eq_some_iff] at head
        obtain ⟨⟨x, obj⟩, hx, rfl⟩ := head
        rw [← List.head?_eq_getElem?, List.head?_eq_some_iff] at hx
        obtain ⟨q, hq⟩ := hx
        exact ⟨obj, q, hq⟩
      · exact hrest ▸ h.text
      · exact hrest ▸ h.order
  | @get u json stored =>
      have hnext : m.next objs (0, ⟨.redis (.get (.uuid u)), .bulk json⟩) =
          { m with reading := .handed u, handed := m.handed ++ [json] } := by
        simp [MamRecord.next, Reading.next, pops, readRequest]
      obtain ⟨obj, q, hq⟩ := h.front u (Or.inl hreading)
      have hrest : m.rest = (u, obj) :: q := by rw [MamRecord.rest, hreading, hq]
      have hjson : json = obj := by
        have htext := h.text (u, obj) (by rw [hrest]; exact List.mem_cons_self ..) _ stored
        cases htext
        rfl
      rw [hnext]
      refine { h with front := fun v hv => ?_, text := ?_, order := ?_ }
      · obtain rfl : u = v := by simpa using hv
        exact ⟨obj, q, hq⟩
      · intro x hx
        refine h.text x ?_
        rw [hrest]
        rw [MamRecord.rest, hq] at hx
        exact List.mem_cons_of_mem _ hx
      · intro s
        calc ofSeed J s m.accepted
            = ofSeed J s m.handed ++ ofSeed J s ([obj] ++ q.map Prod.snd) := by
              rw [h.order s, hrest]
              rfl
          _ = ofSeed J s (m.handed ++ [json]) ++ ofSeed J s (q.map Prod.snd) := by
              rw [hjson, ofSeed_append, ofSeed_append, List.append_assoc]
          _ = _ := by rw [MamRecord.rest, hq]; rfl
  | @pop u v w' items uuids =>
      obtain ⟨obj, q, hq⟩ := h.front u (Or.inr hreading)
      have hnext : m.next objs (0, ⟨.redis (.lpop (.list .mamBuffer)), .bulk v⟩) =
          { m with reading := .idle, queue := q } := by
        simp [MamRecord.next, Reading.next, pops, readRequest, hq]
      have hrest : m.rest = q := by rw [MamRecord.rest, hreading, hq]; rfl
      have hsub : ∀ x ∈ q.map Prod.fst, x ∈ m.queue.map Prod.fst := by
        rw [hq]
        exact fun x hx => List.mem_cons_of_mem _ hx
      rw [h.listed, hq, List.map_cons, List.cons.injEq] at items
      rw [hnext]
      exact {
        listed := items.2.symm
        front := by simp
        distinct := (List.nodup_cons.mp (hq ▸ h.distinct)).2
        drawn := fun x hx => h.drawn x (hsub x hx)
        text := fun x hx => by
          rw [uuids]
          exact h.text x (hrest ▸ hx)
        free := fun i x hi => (uuids x).trans (h.free i x hi)
        stored := fun i x hi => by
          rw [uuids]
          exact h.stored i x hi
        own := fun i x hi => by
          obtain ⟨hdrawn, hqueue, hother⟩ := h.own i x hi
          exact ⟨hdrawn, fun hx => hqueue (hsub x hx), hother⟩
        unused := fun x hx => (uuids x).trans (h.unused x hx)
        order := fun s => by
          rw [h.order s, hrest]
          rfl }
  | other next hpops reads items uuids =>
      have hnext : m.next objs (0, e) = m := by
        rw [MamRecord.next, hreading, next, hpops, reads, ← hreading, if_neg (by simp)]
        simp
      rw [hnext]
      exact h.keep items (hreading ▸ uuids)

theorem update_cases {posts : Nat → Posting} {i j : Nat} {p : Posting} {P : Posting → Prop}
    (h : P (Function.update posts i p j)) : (j = i ∧ P p) ∨ (j ≠ i ∧ P (posts j)) := by
  by_cases hj : j = i
  · subst hj
    rw [Function.update_self] at h
    exact Or.inl ⟨rfl, h⟩
  · rw [Function.update_of_ne hj] at h
    exact Or.inr ⟨hj, h⟩

theorem holds_drawn {u x : Uuid} (h : (Posting.drawn u).Holds x) : x = u := by
  rcases h with h | h
  · exact (Posting.drawn.inj h).symm
  · cases h

theorem holds_over {posts : Nat → Posting} {i j : Nat} {x : Uuid}
    (h : (Function.update posts i .done j).Holds x) : j ≠ i ∧ (posts j).Holds x := by
  rcases update_cases (P := (·.Holds x)) h with ⟨-, hx | hx⟩ | ⟨hji, hx⟩
  · cases hx
  · cases hx
  · exact ⟨hji, hx⟩

/-- A request draws a UUID that is new. -/
theorem draw (h : InOrder J objs w₀ m w) {i : Nat} {u : Uuid} (hdraw : u ∉ m.draws)
    (hfree : w₀.redis (.uuid u) = none) (hw : w'.redis = w.redis) :
    InOrder J objs w₀
      { m with posts := Function.update m.posts i (.drawn u), draws := m.draws ++ [u] } w' where
  listed := by rw [hw, h.listed]
  front := h.front
  distinct := h.distinct
  drawn x hx := List.mem_append_left _ (h.drawn x hx)
  text := by
    rw [hw]
    exact h.text
  free j x hj := by
    rw [hw]
    rcases update_cases (P := (· = .drawn x)) hj with ⟨-, hx⟩ | ⟨-, hx⟩
    · cases hx
      exact (h.unused u hdraw).trans hfree
    · exact h.free j x hx
  stored j x hj := by
    rw [hw]
    rcases update_cases (P := (· = .stored x)) hj with ⟨-, hx⟩ | ⟨-, hx⟩
    · cases hx
    · exact h.stored j x hx
  own j x hj := by
    rcases update_cases (P := (·.Holds x)) hj with ⟨rfl, hx⟩ | ⟨hji, hx⟩
    · cases holds_drawn hx
      refine ⟨by simp, fun hq => hdraw (h.drawn u hq), fun k hk => ?_⟩
      rcases update_cases (P := (·.Holds u)) hk with ⟨rfl, -⟩ | ⟨-, hk⟩
      · rfl
      · exact absurd (h.own k u hk).1 hdraw
    · obtain ⟨hmem, hqueue, hother⟩ := h.own j x hx
      refine ⟨List.mem_append_left _ hmem, hqueue, fun k hk => ?_⟩
      rcases update_cases (P := (·.Holds x)) hk with ⟨-, hk⟩ | ⟨-, hk⟩
      · cases holds_drawn hk
        exact absurd hmem hdraw
      · exact hother k hk
  unused x hx := by
    rw [hw]
    exact h.unused x fun hmem => hx (List.mem_append_left _ hmem)
  order := h.order

/-- A request stores its text under the UUID it has drawn. -/
theorem store (h : InOrder J objs w₀ m w) {i : Nat} {u : Uuid} (hi : m.posts i = .drawn u)
    (hset : ∀ v, w'.redis (.uuid u) = some v → v = .str (objs.getD i ""))
    (hother : ∀ k, k ≠ .uuid u → w'.redis k = w.redis k) :
    InOrder J objs w₀ { m with posts := Function.update m.posts i (.stored u) } w' := by
  obtain ⟨hmem, hqueue, honly⟩ := h.own i u (Or.inl hi)
  have hne : ∀ j x, j ≠ i → (m.posts j).Holds x → w'.redis (.uuid x) = w.redis (.uuid x) := by
    intro j x hj hx
    refine hother _ fun hxu => hj (honly j ?_)
    cases hxu
    exact hx
  have hsub : ∀ j x, (Function.update m.posts i (.stored u) j).Holds x → (m.posts j).Holds x := by
    intro j x hj
    rcases update_cases (P := (·.Holds x)) hj with ⟨rfl, hx⟩ | ⟨-, hx⟩
    · rcases hx with hx | hx
      · cases hx
      · cases hx
        exact Or.inl hi
    · exact hx
  exact {
    listed := by
      rw [Redis.items, hother (.list .mamBuffer) fun h => by cases h]
      exact h.listed
    front := h.front
    distinct := h.distinct
    drawn := h.drawn
    text := fun x hx => by
      rw [hother _ fun hxu => hqueue ?_]
      · exact h.text x hx
      · rw [← Key.uuid.inj hxu]
        exact List.mem_map_of_mem (mem_queue_of_rest hx)
    free := fun j x hj => by
      rcases update_cases (P := (· = .drawn x)) hj with ⟨-, hx⟩ | ⟨hji, hx⟩
      · cases hx
      · exact (hne j x hji (Or.inl hx)).trans (h.free j x hx)
    stored := fun j x hj => by
      rcases update_cases (P := (· = .stored x)) hj with ⟨rfl, hx⟩ | ⟨hji, hx⟩
      · cases hx
        exact hset
      · rw [hne j x hji (Or.inr hx)]
        exact h.stored j x hx
    own := fun j x hj => by
      obtain ⟨hx, hqueue, hother⟩ := h.own j x (hsub j x hj)
      exact ⟨hx, hqueue, fun k hk => hother k (hsub k x hk)⟩
    unused := fun x hx => by
      rw [hother _ fun hxu => hx (Key.uuid.inj hxu ▸ hmem)]
      exact h.unused x hx
    order := h.order }

/-- A request pushes its UUID, or fails to. -/
theorem push (h : InOrder J objs w₀ m w) {i : Nat} {u : Uuid} (hi : m.posts i = .stored u)
    (hidle : m.reading = .idle)
    (hseed : ∀ x ∈ m.queue, seedOf J x.2 ≠ seedOf J (objs.getD i ""))
    (hpush : Redis.items w'.redis (.list .mamBuffer) = u :: Redis.items w.redis (.list .mamBuffer))
    (huuids : ∀ x, w'.redis (.uuid x) = w.redis (.uuid x)) :
    InOrder J objs w₀
      { m with
        posts := Function.update m.posts i .done
        queue := (u, objs.getD i "") :: m.queue
        accepted := m.accepted ++ [objs.getD i ""] } w' := by
  obtain ⟨hmem, hqueue, honly⟩ := h.own i u (Or.inr hi)
  have hrest : m.rest = m.queue := by rw [MamRecord.rest, hidle]
  exact {
    listed := by rw [hpush, h.listed]; rfl
    front := by simp [hidle]
    distinct := List.nodup_cons.mpr ⟨hqueue, h.distinct⟩
    drawn := List.forall_mem_cons.mpr ⟨hmem, h.drawn⟩
    text := by
      rw [MamRecord.rest, hidle]
      refine List.forall_mem_cons.mpr ⟨?_, fun x hx => ?_⟩
      · rw [huuids]
        exact h.stored i u hi
      · rw [huuids]
        exact h.text x (hrest ▸ hx)
    free := fun j x hj => by
      rw [huuids]
      rcases update_cases (P := (· = .drawn x)) hj with ⟨-, hx⟩ | ⟨-, hx⟩
      · cases hx
      · exact h.free j x hx
    stored := fun j x hj => by
      rw [huuids]
      rcases update_cases (P := (· = .stored x)) hj with ⟨-, hx⟩ | ⟨-, hx⟩
      · cases hx
      · exact h.stored j x hx
    own := fun j x hj => by
      obtain ⟨hji, hx⟩ := holds_over hj
      obtain ⟨hdrawn, hnot, hother⟩ := h.own j x hx
      refine ⟨hdrawn, fun hmem => ?_, fun k hk => hother k (holds_over hk).2⟩
      rcases List.mem_cons.mp hmem with rfl | hmem
      · exact hji (honly j hx)
      · exact hnot hmem
    unused := fun x hx => (huuids x).trans (h.unused x hx)
    order := fun s => by
      -- one of the two is empty
      have hcomm : ofSeed J s (m.queue.map Prod.snd) ++ ofSeed J s [objs.getD i ""] =
          ofSeed J s [objs.getD i ""] ++ ofSeed J s (m.queue.map Prod.snd) := by
        by_cases hs : seedOf J (objs.getD i "") = s
        · have hnone : ofSeed J s (m.queue.map Prod.snd) = [] := by
            rw [ofSeed, List.filter_eq_nil_iff, List.forall_mem_map]
            intro x hx
            rw [decide_eq_true_iff, ← hs]
            exact hseed x hx
          rw [hnone, List.nil_append, List.append_nil]
        · have hnone : ofSeed J s [objs.getD i ""] = [] :=
            List.filter_cons_of_neg (decide_eq_true_iff.not.mpr hs)
          rw [hnone, List.nil_append, List.append_nil]
      calc ofSeed J s (m.accepted ++ [objs.getD i ""])
          = ofSeed J s m.handed ++
              (ofSeed J s [objs.getD i ""] ++ ofSeed J s (m.queue.map Prod.snd)) := by
            rw [ofSeed_append, h.order s, hrest, List.append_assoc, hcomm]
        _ = _ := by
            rw [← ofSeed_append, MamRecord.rest, hidle]
            rfl }

/-- A request whose push was refused. -/
theorem giveUp (h : InOrder J objs w₀ m w) {i : Nat} (hw : w'.redis = w.redis) :
    InOrder J objs w₀ { m with posts := Function.update m.posts i .done } w' where
  listed := by rw [hw, h.listed]
  front := h.front
  distinct := h.distinct
  drawn := h.drawn
  text := by
    rw [hw]
    exact h.text
  free j x hj := by
    rw [hw]
    rcases update_cases (P := (· = .drawn x)) hj with ⟨-, hx⟩ | ⟨-, hx⟩
    · cases hx
    · exact h.free j x hx
  stored j x hj := by
    rw [hw]
    rcases update_cases (P := (· = .stored x)) hj with ⟨-, hx⟩ | ⟨-, hx⟩
    · cases hx
    · exact h.stored j x hx
  own j x hj := by
    obtain ⟨-, hx⟩ := holds_over hj
    obtain ⟨hmem, hqueue, hother⟩ := h.own j x hx
    exact ⟨hmem, hqueue, fun k hk => hother k (holds_over hk).2⟩
  unused x hx := by
    rw [hw]
    exact h.unused x hx
  order := h.order

/-- A step of a request. -/
theorem request (h : InOrder J objs w₀ m w) {i : Nat}
    (hmay : (m.posts i).may (objs.getD i "") e.cmd) (hjoins : m.joins J objs (i + 1, e) = true)
    (hfresh : ∀ u, drew e = some u → u ∉ m.draws ∧ w₀.redis (.uuid u) = none)
    (hs : world.Serves w e w') : InOrder J objs w₀ (m.next objs (i + 1, e)) w' := by
  obtain ⟨c, r⟩ := e
  cases hi : m.posts i with
  | start =>
      rw [hi] at hmay
      cases hmay
      have hnext : m.next objs (i + 1, ⟨.uuidGenerateRandom, r⟩) =
          { m with posts := Function.update m.posts i (.drawn r), draws := m.draws ++ [r] } := by
        simp [MamRecord.next, hi, Posting.next, pushed, drew]
      rw [hnext]
      obtain ⟨hdraw, hfree⟩ := hfresh r rfl
      exact h.draw hdraw hfree (serves_redis_eq hs fun c hc => by cases hc)
  | drawn u =>
      rw [hi] at hmay
      obtain ⟨ex, hc⟩ := hmay
      cases hc
      have hnext : m.next objs (i + 1, ⟨.redis (.set (.uuid u) (objs.getD i "") ex), r⟩) =
          { m with posts := Function.update m.posts i (.stored u) } := by
        simp [MamRecord.next, hi, Posting.next, pushed, drew]
      rw [hnext]
      have ha := (serves_redis.mp hs).1
      exact h.store hi (fun v hv => ha.set (h.free i u hi) hv) fun k hk => ha.ne hk
  | stored u =>
      rw [hi] at hmay
      cases hmay
      have ha := (serves_redis.mp hs).1
      by_cases hr : r = .error
      · subst hr
        have hnext : m.next objs (i + 1, ⟨.redis (.lpush (.list .mamBuffer) u), .error⟩) =
            { m with posts := Function.update m.posts i .done } := by
          simp [MamRecord.next, hi, Posting.next, pushed, drew]
        rw [hnext]
        exact h.giveUp ha.lpush_error
      · have hpushed := pushed_lpush (n := .mamBuffer) (u := u) hr
        have hnext : m.next objs (i + 1, ⟨.redis (.lpush (.list .mamBuffer) u), r⟩) =
            { m with
              posts := Function.update m.posts i .done
              queue := (u, objs.getD i "") :: m.queue
              accepted := m.accepted ++ [objs.getD i ""] } := by
          simp [MamRecord.next, hi, Posting.next, hpushed, drew]
        rw [hnext]
        simp only [MamRecord.joins, hpushed, Option.isNone_some, Bool.false_or,
          Bool.and_eq_true, beq_iff_eq, List.all_eq_true, bne_iff_ne] at hjoins
        exact h.push hi hjoins.1 hjoins.2 (ha.items_lpush hr) fun x => ha.ne nofun
  | done =>
      rw [hi] at hmay
      exact hmay.elim

/-- Before the first event. -/
theorem start (w : World) (hempty : Redis.items w.redis (.list .mamBuffer) = []) :
    InOrder J objs w {} w where
  listed := hempty
  front := by simp
  distinct := List.nodup_nil
  drawn := by simp
  text := by simp [MamRecord.rest]
  free := by simp
  stored := by simp
  own i u hi := by simp [Posting.Holds] at hi
  unused _ _ := rfl
  order s := by simp [MamRecord.rest, ofSeed]

end InOrder

/-- The protocols of the threads: the first one sends, the others are requests. -/
@[reducible] def mamThread (objs : List String) : Nat → Protocol sig
  | 0 => sending
  | i + 1 => posting (objs.getD i "")

/-- The threads at their start. -/
def mamThreadStart (objs : List String) : ∀ i, (mamThread objs i).State
  | 0 => Reading.idle
  | _ + 1 => Posting.start

theorem mamThread_safe {I : Iota} {M : MamLib} {core : TaCore} {fuel calls : Nat} {w : World}
    {i : Nat} {p : Prog sig (Except Status (Option Unit))}
    (hp : (mamOrderPool I M J core fuel calls objs w).threads[i]? = some p) :
    Safe (mamThread objs i) p (mamThreadStart objs i) fun _ _ => True := by
  cases i with
  | zero =>
      cases hp
      exact sending_broadcastCalls calls
  | succ i =>
      rw [mamOrderPool, List.getElem?_cons_succ, List.getElem?_map, Option.map_eq_some_iff] at hp
      obtain ⟨obj, hobj, rfl⟩ := hp
      have hgetD : objs.getD i "" = obj := by rw [List.getD_eq_getElem?_getD, hobj]; rfl
      change Safe (posting (objs.getD i "")) _ Posting.start _
      rw [hgetD, safe_bind]
      exact (posting_apiSendMamMessage J core.cache obj).mono fun _ _ _ => trivial

/-- The UUIDs that are drawn are different, and none is in use. -/
structure FreshUuids (w : World) (draws : List Uuid) : Prop where
  distinct : draws.Nodup
  unused : ∀ u ∈ draws, w.redis (.uuid u) = none

/-- The draws of a trace start with those of its first part. -/
theorem record_draws (objs : List String) (m : MamRecord) (T : List (Nat × Event sig)) :
    m.draws <+: (T.foldl (MamRecord.next objs) m).draws := by
  induction T generalizing m with
  | nil => exact List.prefix_rfl
  | cons x T ih =>
      refine List.IsPrefix.trans ?_ (ih (m.next objs x))
      obtain ⟨i, e⟩ := x
      cases i with
      | zero => exact List.prefix_rfl
      | succ i => exact List.prefix_append ..

theorem FreshUuids.drew {w : World} {A B : List (Nat × Event sig)} {i : Nat} {e : Event sig}
    (h : FreshUuids w (mamRecord objs (A ++ (i + 1, e) :: B)).draws) :
    ∀ u, drew e = some u → u ∉ (mamRecord objs A).draws ∧ w.redis (.uuid u) = none := by
  intro u hu
  have hnext : ((mamRecord objs A).next objs (i + 1, e)).draws =
      (mamRecord objs A).draws ++ [u] := by
    simp [MamRecord.next, hu]
  obtain ⟨t, ht⟩ := record_draws objs ((mamRecord objs A).next objs (i + 1, e)) B
  rw [hnext, ← List.foldl_cons (f := MamRecord.next objs), ← mamRecord_append] at ht
  rw [← ht] at h
  refine ⟨fun hmem => ?_, h.unused u (by simp)⟩
  have hdistinct := (List.nodup_append.mp h.distinct).1
  exact (List.nodup_append.mp hdistinct).2.2 u hmem u (by simp) rfl

/-- A schedule keeps the record and the cache in order. -/
theorem mamOrderPool_inOrder {I : Iota} {M : MamLib} {core : TaCore} {fuel calls : Nat} {w : World}
    (hempty : Redis.items w.redis (.list .mamBuffer) = []) (xs : List (Move world))
    {T : List (Nat × Event sig)} {P : Pool world (Except Status (Option Unit))}
    (hexec : Pool.exec xs (mamOrderPool I M J core fuel calls objs w) = (T, P))
    (hfresh : FreshUuids w (mamRecord objs T).draws) (horderly : orderly J objs {} T = true) :
    InOrder J objs w (mamRecord objs T) P.state := by
  have hrun := Pool.exec_threads (R := mamThread objs) (m := mamThreadStart objs)
    (J := fun A s => InOrder J objs w (mamRecord objs A) s)
    (D := fun A x => (mamRecord objs A).joins J objs x = true ∧
      ∃ B, FreshUuids w (mamRecord objs (A ++ x :: B)).draws)
    (Q := fun _ _ _ => True) ?_ xs (mamOrderPool I M J core fuel calls objs w) ?_
    (fun i p hp => mamThread_safe hp) ?_ ?_
  · rwa [hexec] at hrun
  · intro A i e s s' hA hmay hadm hs
    obtain ⟨hjoins, B, hB⟩ := hadm
    rw [mamRecord_append]
    cases i with
    | zero =>
        refine hA.sender (senderStep ?_ hs)
        rw [mamRecord, record_reading]
        exact hmay
    | succ i =>
        refine hA.request ?_ hjoins hB.drew hs
        rw [mamRecord, record_posts]
        exact hmay
  · intro i m e
    cases i <;> trivial
  · intro A x B hsplit
    rw [hexec] at hsplit
    dsimp only at hsplit
    subst hsplit
    exact ⟨orderly_split horderly, B, hfresh⟩
  · exact .start w hempty

/-- For every schedule of calls of the broadcast function beside any requests, from a world with
an empty MAM buffer list: where each push finds the sender with nothing read and no other request
of its seed waiting, the requests of each seed were handed to `ta_send_mam_message` in the order
in which they were accepted. -/
theorem mam_handed_in_order (I : Iota) (M : MamLib) (J : Codec) (core : TaCore) (fuel calls : Nat)
    (objs : List String) (w : World) (hempty : Redis.items w.redis (.list .mamBuffer) = [])
    (xs : List (Move world)) {T : List (Nat × Event sig)}
    {P : Pool world (Except Status (Option Unit))}
    (hexec : Pool.exec xs (mamOrderPool I M J core fuel calls objs w) = (T, P))
    (hfresh : FreshUuids w (mamRecord objs T).draws) (horderly : orderly J objs {} T = true)
    (s : Option (Option Hash243)) :
    ofSeed J s (mamRecord objs T).handed <+: ofSeed J s (mamRecord objs T).accepted := by
  rw [(mamOrderPool_inOrder hempty xs hexec hfresh horderly).order s]
  exact List.prefix_append ..

/-! ## A concrete pool -/

namespace Sample

/-- Everything succeeds, and the new UUID is `u`. -/
def drawing (u : Uuid) : (c : Cmd) → Choice c
  | .uuidGenerateRandom => u
  | c => good c

/-- An empty cache. -/
def emptyCache : World where
  redis _ := none
  lock := .readers 0
  ledger := []
  mamFile := []

/-- Two requests of one seed beside calls of the broadcast function. -/
def twoRequests (calls : Nat) : Pool world (Except Status (Option Unit)) :=
  mamOrderPool iota mam codec core 3 calls ["first", "second"] emptyCache

/-- The second request comes when the first one was sent. -/
def inTurn : List (Move world) :=
  List.replicate 3 (1, drawing 1#128) ++ List.replicate 30 (0, good) ++
    List.replicate 3 (2, drawing 2#128) ++ List.replicate 30 (0, good)

/-- The second request comes before the first one is sent. -/
def bothWait : List (Move world) :=
  List.replicate 3 (1, drawing 1#128) ++ List.replicate 3 (2, drawing 2#128) ++
    List.replicate 60 (0, good)

/-- The trace of `inTurn`. -/
def inTurnTrace : List (Nat × Event sig) := (Pool.exec inTurn (twoRequests 20)).1

/-- The thread has ended with `SC_OK`. -/
def ended : Option (Prog sig (Except Status (Option Unit))) → Bool
  | some (.ret (.ok (some ()))) => true
  | _ => false

/-- The trace of `bothWait`, with one call. -/
def bothWaitTrace : List (Nat × Event sig) := (Pool.exec bothWait (twoRequests 1)).1

end Sample

/-- A request that comes when the first one was sent is sent after it. -/
theorem mam_handed_inTurn :
    (mamRecord ["first", "second"] Sample.inTurnTrace).handed = ["first", "second"] ∧
      ofSeed Sample.codec (some (some (Vector.replicate 81 0)))
          (mamRecord ["first", "second"] Sample.inTurnTrace).handed <+:
        ofSeed Sample.codec (some (some (Vector.replicate 81 0)))
          (mamRecord ["first", "second"] Sample.inTurnTrace).accepted := by
  have hfresh : FreshUuids Sample.emptyCache
      (mamRecord ["first", "second"] Sample.inTurnTrace).draws :=
    ⟨by decide, fun _ _ => rfl⟩
  refine ⟨by decide, ?_⟩
  exact mam_handed_in_order Sample.iota Sample.mam Sample.codec Sample.core 3 20 _
    Sample.emptyCache rfl Sample.inTurn rfl hfresh (by decide) _

/-- Two requests of one seed that wait together are sent in the other order. -/
theorem mam_handed_reversed :
    seedOf Sample.codec "first" = seedOf Sample.codec "second" ∧
      FreshUuids Sample.emptyCache
        (mamRecord ["first", "second"] Sample.bothWaitTrace).draws ∧
      (mamRecord ["first", "second"] Sample.bothWaitTrace).accepted = ["first", "second"] ∧
      (mamRecord ["first", "second"] Sample.bothWaitTrace).handed = ["second", "first"] ∧
      Sample.ended (Pool.exec Sample.bothWait (Sample.twoRequests 1)).2.threads[0]? = true :=
  ⟨rfl, ⟨by decide, fun _ _ => rfl⟩, by decide, by decide,
    by decide⟩

end TangleAccelerator
