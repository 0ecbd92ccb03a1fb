import TangleAccelerator.Mam.Keys

/-!
# Where a message starts

A request can name the channel its message starts from.  The library cannot go to a channel, it can
only create the next one.  So `ta_mam_written_msg_to_bundle` creates channels until it comes to the
one that is named.  The first one is created by `is_setting_changed`, which asks the node for
transactions on it: where there are none, the message starts there.

The loop that creates the others counts its passes and gives up after too many.  The counter is
compared before it is incremented, and after a channel was created, so the channel of the last pass
is not compared with the one that is named: `103` channels are created and `102` are compared.

`chidAt` and `apiAt` are the channels that are created from a state of the library, which is
`apiInit` of a seed where the request has one.  `Search` has the two ways the loop can end.
-/

namespace TangleAccelerator

open Effect

variable {M : MamLib} {τ : List (Event sig)}

/-! ## The channels of a library -/

section Channels

variable (M) (depth : Nat) (api : M.Api)

/-- The library after channels were created. -/
def apiAt : Nat → M.Api
  | 0 => api
  | k + 1 => (M.channelCreate (apiAt k) depth).2

/-- The ID of a channel, counted from zero. -/
def chidAt (k : Nat) : Hash243 := (M.channelCreate (apiAt M depth api k) depth).1

theorem apiAt_create (k : Nat) :
    apiAt M depth (apiAt M depth api 1) k = apiAt M depth api (k + 1) := by
  induction k with
  | zero => rfl
  | succ k ih => rw [apiAt, ih]; rfl

theorem chidAt_create (k : Nat) :
    chidAt M depth (apiAt M depth api 1) k = chidAt M depth api (k + 1) := by
  rw [chidAt, apiAt_create]
  rfl

end Channels

/-! ## The parts of a run -/

/-- A channel could not be created. -/
def CreateFails : Event sig → Bool
  | ⟨.mam .channelCreate, ok⟩ => !ok
  | _ => false

/-- How many channels were created. -/
def created (τ : List (Event sig)) : Nat :=
  τ.countP fun
    | ⟨.mam .channelCreate, _⟩ => true
    | _ => false

/-- The query the work on a channel begins with. -/
def fetchesFrom : Event sig → Option Hash243
  | ⟨.findTransactions req, _⟩ => req.addresses.head?
  | _ => none

/-- What happens before the work on a channel begins. -/
def search (τ : List (Event sig)) : List (Event sig) := τ.takeWhile fun e => (fetchesFrom e).isNone

/-- The channel the work begins with. -/
def startOf (τ : List (Event sig)) : Option Hash243 := τ.findSome? fetchesFrom

/-- The node answers the search for transaction objects on an address with those that are there. -/
def AnswersObjects (txsOn : Hash243 → List Transaction) : Event sig → Prop
  | ⟨.findTransactionObjects req, txs⟩ =>
      ∀ chid, req = { addresses := [chid] } → txs = some (txsOn chid)
  | _ => True

/-- The creation of a channel. -/
def create : Event sig := ⟨.mam .channelCreate, true⟩

theorem created_replicate (n : Nat) : created (List.replicate n create) = n := by
  simp [created, create, List.countP_replicate]

/-- Where no channel is worked on. -/
theorem search_of_none (h : ∀ e ∈ τ, fetchesFrom e = none) : search τ = τ ∧ startOf τ = none := by
  constructor
  · rw [search, List.takeWhile_eq_self_iff]
    intro e he
    rw [h e he]
    rfl
  · exact List.findSome?_eq_none_iff.mpr h

/-- Where the work begins with a channel. -/
theorem search_append {τ₁ : List (Event sig)} {e : Event sig} {chid : Hash243}
    (h : ∀ e ∈ τ₁, fetchesFrom e = none) (he : fetchesFrom e = some chid)
    (τ₂ : List (Event sig)) :
    search (τ₁ ++ e :: τ₂) = τ₁ ∧ startOf (τ₁ ++ e :: τ₂) = some chid := by
  constructor
  · rw [search, List.takeWhile_append_of_pos, List.takeWhile_cons_of_neg, List.append_nil]
    · rw [he]
      exact Bool.false_ne_true
    · intro e he
      rw [h e he]
      rfl
  · rw [startOf, List.findSome?_append, List.findSome?_eq_none_iff.mpr h, Option.none_or,
      List.findSome?_cons, he]

/-! ## The search -/

/-- How the loop ends that looks for a channel, where `left` more channels can be compared after
the first one. -/
inductive Search (depth : Nat) (api : M.Api) (target : Hash243) (left : Nat) :
    List (Event sig) → Except (Status × M.Api) (Hash243 × M.Api) → Prop
  /-- It comes to the channel. -/
  | found {k : Nat} (le : k ≤ left) (eq : chidAt M depth api k = target)
      (earlier : ∀ i < k, chidAt M depth api i ≠ target) :
      Search depth api target left (List.replicate k create)
        (.ok (target, apiAt M depth api (k + 1)))
  /-- It gives up, with a channel that was created and not compared. -/
  | exceeded (ne : ∀ i ≤ left, chidAt M depth api i ≠ target) :
      Search depth api target left (List.replicate (left + 1) create)
        (.error (.mamExceededChidIter, apiAt M depth api (left + 2)))

/-- Where the first channel is not the one, the search goes on with the next. -/
theorem Search.next {depth left : Nat} {api : M.Api} {target : Hash243}
    {r : Except (Status × M.Api) (Hash243 × M.Api)} (hne : chidAt M depth api 0 ≠ target)
    (h : Search depth (apiAt M depth api 1) target left τ r) :
    Search depth api target (left + 1) (create :: τ) r := by
  cases h with
  | @found k le eq earlier =>
      rw [chidAt_create] at eq
      rw [apiAt_create, ← List.replicate_succ]
      refine .found (Nat.succ_le_succ le) eq fun i hi => ?_
      cases i with
      | zero => exact hne
      | succ i =>
          rw [← chidAt_create]
          exact earlier i (Nat.lt_of_succ_lt_succ hi)
  | exceeded ne =>
      rw [apiAt_create, ← List.replicate_succ]
      refine .exceeded fun i hi => ?_
      cases i with
      | zero => exact hne
      | succ i =>
          rw [← chidAt_create]
          exact ne i (Nat.le_of_succ_le_succ hi)

/-- A run that begins with the creation of a channel. -/
theorem path_create_bind {α : Type} {api : M.Api} {depth : Nat}
    {f : Hash243 × M.Api → MamProc M α} {r : Except (Status × M.Api) α}
    (hcreate : ∀ e ∈ τ, CreateFails e = false)
    (h : Path (mamApiChannelCreate M api depth >>= f).run τ r) :
    ∃ τ', τ = create :: τ' ∧
      Path (f (chidAt M depth api 0, apiAt M depth api 1)).run τ' r := by
  rcases (path_run_bind ..).mp h with ⟨err, -, h⟩ | ⟨ch, τ₁, τ₂, rfl, h₁, h₂⟩
  · obtain rfl := path_channelCreate_error h
    exact absurd (hcreate _ List.mem_cons_self) (by decide)
  · obtain ⟨rfl, rfl⟩ := path_channelCreate.mp h₁
    exact ⟨τ₂, rfl, h₂⟩

/-- A run of the loop, from the channel that was created last. -/
theorem path_findStartingChid_search {depth left : Nat} {target : Hash243} {api : M.Api}
    {r : Except (Status × M.Api) (Hash243 × M.Api)} (hcreate : ∀ e ∈ τ, CreateFails e = false)
    (h : Path (findStartingChid M depth target left (chidAt M depth api 0)
      (apiAt M depth api 1)).run τ r) :
    Search depth api target left τ r := by
  induction left generalizing api τ with
  | zero =>
      unfold findStartingChid at h
      split at h
      case isTrue heq =>
        obtain ⟨rfl, rfl⟩ := (path_run_pure ..).mp h
        rw [← heq]
        exact .found le_rfl heq.symm (by simp)
      case isFalse hne =>
        -- the channel that is created now is not compared
        obtain ⟨τ', rfl, hthrow⟩ := path_create_bind hcreate h
        obtain ⟨rfl, rfl⟩ := (path_run_throw ..).mp hthrow
        rw [apiAt_create]
        refine .exceeded fun i hi => ?_
        obtain rfl := Nat.le_zero.mp hi
        exact Ne.symm hne
  | succ left ih =>
      unfold findStartingChid at h
      split at h
      case isTrue heq =>
        obtain ⟨rfl, rfl⟩ := (path_run_pure ..).mp h
        rw [← heq]
        exact .found (Nat.zero_le _) heq.symm (by simp)
      case isFalse hne =>
        obtain ⟨τ', rfl, hnext⟩ := path_create_bind hcreate h
        exact (ih (fun e he => hcreate e (List.mem_cons_of_mem _ he)) hnext).next (Ne.symm hne)

/-! ## The start -/

/-- The events of `is_setting_changed`. -/
def settingEvents (M : MamLib) (depth : Nat) (api : M.Api) (txs : List Transaction) :
    List (Event sig) :=
  [create, ⟨.findTransactionObjects { addresses := [chidAt M depth api 0] }, some txs⟩]

/-- A run of `is_setting_changed`. -/
theorem path_isSettingChanged_eq {depth : Nat} {api : M.Api} {chid : Hash243}
    {txsOn : Hash243 → List Transaction} {r : Except (Status × M.Api) (Bool × Hash243 × M.Api)}
    (hcreate : ∀ e ∈ τ, CreateFails e = false) (hnode : ∀ e ∈ τ, AnswersObjects txsOn e)
    (h : Path (isSettingChanged M api depth chid).run τ r) :
    τ = settingEvents M depth api (txsOn (chidAt M depth api 0)) ∧
      r = .ok ((txsOn (chidAt M depth api 0)).isEmpty, chidAt M depth api 0,
        apiAt M depth api 1) := by
  rw [isSettingChanged, path_run_attempt_bind] at h
  obtain ⟨made, τ₁, τ₂, rfl, hmade, h⟩ := h
  cases made with
  | error err =>
      obtain rfl := path_channelCreate_error hmade
      exact absurd (hcreate _ List.mem_cons_self) (by decide)
  | ok ch =>
      obtain ⟨rfl, rfl⟩ := path_channelCreate.mp hmade
      rw [path_run_request_bind] at h
      obtain ⟨answer, τ₃, rfl, h⟩ := h
      have hanswer : answer = some (txsOn (chidAt M depth api 0)) :=
        hnode _ (List.mem_append_right _ List.mem_cons_self) _ rfl
      rw [hanswer] at h ⊢
      obtain ⟨rfl, rfl⟩ := (path_run_pure ..).mp h
      exact ⟨rfl, rfl⟩

/-- The work on a channel that is given begins with the query for what is on it. -/
theorem path_searchChannel_start {keys : MamEncryptKey} {depth fuel : Nat} {chid : Hash243}
    {api : M.Api} {r : Except (Status × M.Api) (Option (Hash243 × MamSendOperation × KeySearch M))}
    (h : Path (searchChannel M keys depth (fuel + 1) true chid api).run τ r) :
    ∃ answer τ', τ = ⟨.findTransactions { addresses := [chid] }, answer⟩ :: τ' := by
  obtain ⟨answer, τ', hτ, -⟩ := h
  exact ⟨answer, τ', hτ⟩

/-- A run of the function: the search for the channel fails, or the work begins with the channel
that was found. -/
theorem path_writtenMsg {keys : MamEncryptKey} {depth : Int} {fuel : Nat} {target : Hash243}
    {api : M.Api} {payload : String} {r : Except (Status × M.Api) (Option (Written M))}
    (hdepth : 1 ≤ depth)
    (h : Path (taMamWrittenMsgToBundle M (fuel + 1) api depth (some target) keys payload).run τ r) :
    (∃ err, r = .error err ∧
      Path (startingChannel M depth.toNat api (some target)).run τ (.error err)) ∨
    ∃ ch answer τ₁ τ₂, τ = τ₁ ++ ⟨.findTransactions { addresses := [ch.1] }, answer⟩ :: τ₂ ∧
      Path (startingChannel M depth.toNat api (some target)).run τ₁ (.ok ch) := by
  rw [taMamWrittenMsgToBundle, decide_eq_true hdepth, ensure_true_bind, path_run_bind] at h
  rcases h with ⟨err, rfl, h⟩ | ⟨ch, τ₁, τ₂, rfl, hstart, h⟩
  · exact .inl ⟨err, rfl, h⟩
  · right
    rcases (path_run_bind ..).mp h with ⟨err, -, h⟩ | ⟨found, τ₃, τ₄, rfl, h, -⟩
    · obtain ⟨answer, τ', rfl⟩ := path_searchChannel_start h
      exact ⟨ch, answer, τ₁, τ', rfl, hstart⟩
    · obtain ⟨answer, τ', rfl⟩ := path_searchChannel_start h
      exact ⟨ch, answer, τ₁, τ' ++ τ₄, rfl, hstart⟩

/-- The channel a message starts from: the first one where it is empty, else the one that is
searched. -/
theorem path_startingChannel_search {depth : Nat} {api : M.Api} {target : Hash243}
    {txsOn : Hash243 → List Transaction} {r : Except (Status × M.Api) (Hash243 × M.Api)}
    (hcreate : ∀ e ∈ τ, CreateFails e = false) (hnode : ∀ e ∈ τ, AnswersObjects txsOn e)
    (h : Path (startingChannel M depth api (some target)).run τ r) :
    ∃ τ', τ = settingEvents M depth api (txsOn (chidAt M depth api 0)) ++ τ' ∧
      (txsOn (chidAt M depth api 0) = [] →
        τ' = [] ∧ r = .ok (chidAt M depth api 0, apiAt M depth api 1)) ∧
      (txsOn (chidAt M depth api 0) ≠ [] → Search depth api target 101 τ' r) := by
  rcases (path_run_bind ..).mp h with ⟨err, -, h⟩ | ⟨res, τ₁, τ₂, rfl, hsetting, h⟩
  · cases (path_isSettingChanged_eq hcreate hnode h).2
  · rw [List.forall_mem_append] at hcreate hnode
    obtain ⟨rfl, hres⟩ := path_isSettingChanged_eq hcreate.1 hnode.1 hsetting
    cases hres
    refine ⟨τ₂, rfl, fun hempty => ?_, fun hholds => ?_⟩
    · rw [hempty] at h
      exact (path_run_pure ..).mp h
    · have hchanged : (txsOn (chidAt M depth api 0)).isEmpty = false := by
        simpa using hholds
      simp only [hchanged] at h
      exact path_findStartingChid_search hcreate.2 h

/-- What is done before the work on a channel begins. -/
theorem fetchesFrom_of_search {depth : Nat} {api : M.Api} {txs : List Transaction} {n : Nat}
    {e : Event sig} (he : e ∈ settingEvents M depth api txs ++ List.replicate n create) :
    fetchesFrom e = none := by
  simp only [settingEvents, List.mem_append, List.mem_cons, List.not_mem_nil, or_false,
    List.mem_replicate] at he
  rcases he with (rfl | rfl) | ⟨-, rfl⟩ <;> rfl

theorem created_search (depth : Nat) (api : M.Api) (txs : List Transaction) (n : Nat) :
    created (settingEvents M depth api txs ++ List.replicate n create) = n + 1 := by
  rw [created, List.countP_append]
  show created (settingEvents M depth api txs) + created (List.replicate n create) = n + 1
  rw [created_replicate, Nat.add_comm]
  rfl

/-- How a message starts. -/
inductive Start (depth : Nat) (api : M.Api) (target : Hash243) (txs : List Transaction)
    (τ : List (Event sig)) (r : Except (Status × M.Api) (Option (Written M))) : Prop
  /-- The first channel is empty. -/
  | first (empty : txs = []) (start : startOf τ = some (chidAt M depth api 0))
      (count : created (search τ) = 1)
  /-- The channel that is named is found. -/
  | found {k : Nat} (holds : txs ≠ []) (le : k ≤ 101) (eq : chidAt M depth api k = target)
      (start : startOf τ = some target) (count : created (search τ) = k + 1)
  /-- The search is given up. -/
  | exceeded (holds : txs ≠ []) (ne : ∀ k ≤ 101, chidAt M depth api k ≠ target)
      (start : startOf τ = none) (whole : search τ = τ) (count : created τ = 103)
      (fails : r = .error (.mamExceededChidIter, apiAt M depth api 103))

theorem path_writtenMsg_start {keys : MamEncryptKey} {depth : Int} {fuel : Nat} {target : Hash243}
    {api : M.Api} {payload : String} {txsOn : Hash243 → List Transaction}
    {r : Except (Status × M.Api) (Option (Written M))} (hdepth : 1 ≤ depth)
    (hcreate : ∀ e ∈ τ, CreateFails e = false) (hnode : ∀ e ∈ τ, AnswersObjects txsOn e)
    (h : Path (taMamWrittenMsgToBundle M (fuel + 1) api depth (some target) keys payload).run τ r) :
    Start depth.toNat api target (txsOn (chidAt M depth.toNat api 0)) τ r := by
  rcases path_writtenMsg hdepth h with ⟨err, rfl, hstart⟩ | ⟨ch, answer, τ₁, τ₂, rfl, hstart⟩
  · obtain ⟨τ', rfl, hempty, hholds⟩ := path_startingChannel_search hcreate hnode hstart
    have hne : txsOn (chidAt M depth.toNat api 0) ≠ [] := by
      intro htxs
      cases (hempty htxs).2
    cases hholds hne with
    | exceeded ne =>
        obtain ⟨hsearch, hnone⟩ := search_of_none fun e he => fetchesFrom_of_search he
        exact .exceeded hne ne hnone hsearch (created_search ..) rfl
  · rw [List.forall_mem_append] at hcreate hnode
    obtain ⟨τ', rfl, hempty, hholds⟩ := path_startingChannel_search hcreate.1 hnode.1 hstart
    by_cases htxs : txsOn (chidAt M depth.toNat api 0) = []
    · obtain ⟨rfl, hch⟩ := hempty htxs
      cases hch
      obtain ⟨hsearch, hsome⟩ := search_append (e := ⟨.findTransactions _, answer⟩)
        (fun e he => fetchesFrom_of_search (n := 0) he) rfl τ₂
      exact .first htxs hsome ((congrArg created hsearch).trans (created_search _ _ _ 0))
    · cases hholds htxs with
      | found le eq earlier =>
          obtain ⟨hsearch, hsome⟩ := search_append (e := ⟨.findTransactions _, answer⟩)
            (fun e he => fetchesFrom_of_search he) rfl τ₂
          refine .found htxs le eq hsome ?_
          rw [hsearch, created_search]

/-- The message starts from the channel that is named exactly if it is one of the first `102`, and
no channel after it is created before that.  Else the search ends after `103` channels. -/
theorem writtenMsg_starts {keys : MamEncryptKey} {depth : Int} {fuel : Nat} {target : Hash243}
    {api : M.Api} {payload : String} {txsOn : Hash243 → List Transaction}
    {r : Except (Status × M.Api) (Option (Written M))} (hdepth : 1 ≤ depth)
    (hcreate : ∀ e ∈ τ, CreateFails e = false) (hnode : ∀ e ∈ τ, AnswersObjects txsOn e)
    (hdistinct : ∀ i ≤ 102, ∀ j ≤ 102,
      chidAt M depth.toNat api i = chidAt M depth.toNat api j → i = j)
    (h : Path (taMamWrittenMsgToBundle M (fuel + 1) api depth (some target) keys payload).run τ r) :
    (txsOn (chidAt M depth.toNat api 0) ≠ [] →
      (startOf τ = some target ↔ ∃ k ≤ 101, chidAt M depth.toNat api k = target) ∧
      (∀ k ≤ 101, chidAt M depth.toNat api k = target → created (search τ) = k + 1) ∧
      ((∀ k ≤ 101, chidAt M depth.toNat api k ≠ target) →
        r = .error (.mamExceededChidIter, apiAt M depth.toNat api 103) ∧ created τ = 103)) ∧
    (txsOn (chidAt M depth.toNat api 0) = [] →
      startOf τ = some (chidAt M depth.toNat api 0) ∧ created (search τ) = 1) ∧
    created (search τ) ≤ 103 := by
  cases path_writtenMsg_start hdepth hcreate hnode h with
  | first empty start count =>
      refine ⟨fun holds => absurd empty holds, fun _ => ⟨start, count⟩, ?_⟩
      omega
  | @found k holds le eq start count =>
      refine ⟨fun _ => ⟨⟨fun _ => ⟨k, le, eq⟩, fun _ => start⟩, ?_, fun ne => ?_⟩,
        fun empty => absurd empty holds, by omega⟩
      · intro k' hk' heq
        rw [count, hdistinct k (by omega) k' (by omega) (eq.trans heq.symm)]
      · exact absurd eq (ne k le)
  | exceeded holds ne start whole count fails =>
      refine ⟨fun _ => ⟨?_, fun k hk heq => absurd heq (ne k hk), fun _ => ⟨fails, count⟩⟩,
        fun empty => absurd empty holds, ?_⟩
      · rw [start]
        constructor
        · intro hsome
          cases hsome
        · rintro ⟨k, hk, heq⟩
          exact absurd heq (ne k hk)
      · rw [whole, count]

namespace Sample

/-- The ID of a channel: its number, in the first two trytes. -/
def numberedId (k : Nat) : Hash243 :=
  Vector.ofFn fun i : Fin 81 =>
    if i.val = 0 then Fin.ofNat 27 k else if i.val = 1 then Fin.ofNat 27 (k / 27) else 0

theorem numberedId_inj {i j : Nat} (hi : i ≤ 102) (hj : j ≤ 102)
    (h : numberedId i = numberedId j) : i = j := by
  have hlow : (numberedId i)[0].val = (numberedId j)[0].val := by rw [h]
  have hhigh : (numberedId i)[1].val = (numberedId j)[1].val := by rw [h]
  simp only [numberedId, Vector.getElem_ofFn, if_true, one_ne_zero, if_false,
    Fin.val_ofNat] at hlow hhigh
  omega

/-- A library whose channels have different IDs. -/
def numbered : MamLib :=
  { counting with
    channelCreate := fun api _ => (numberedId api.2.1, api.1, api.2.1 + 1, api.2.2) }

/-- A fresh library. -/
def fresh : numbered.Api := (Vector.replicate 81 0, 0, fun _ => 0)

theorem apiAt_numbered (depth k : Nat) :
    apiAt numbered depth fresh k = (Vector.replicate 81 0, k, fun _ => 0) := by
  induction k with
  | zero => rfl
  | succ k ih => rw [apiAt, ih]; rfl

theorem chidAt_numbered (depth k : Nat) : chidAt numbered depth fresh k = numberedId k := by
  rw [chidAt, apiAt_numbered]
  rfl

/-- A node with a transaction on every address and none that is found by hash. -/
def everywhere : (c : Cmd) → Choice c
  | .findTransactionObjects _ => some [txn]
  | .findTransactions _ => some []
  | c => good c

/-- A message for the third channel. -/
def third : List (Event sig) × Except (Status × numbered.Api) (Option (Written numbered)) × World :=
  exec world (taMamWrittenMsgToBundle numbered (0 + 1) fresh 1 (some (numberedId 2)) {} "").run
    (fun _ => everywhere) buffered

theorem path_third :
    Path (taMamWrittenMsgToBundle numbered (0 + 1) fresh 1 (some (numberedId 2)) {} "").run
      third.1 third.2.1 :=
  path_exec (V := world) _ _ _

theorem answersObjects_third : ∀ e ∈ third.1, AnswersObjects (fun _ => [txn]) e := by
  refine forall_mem_exec (V := world) _ _ fun _ c _ => ?_
  cases c with
  | findTransactionObjects req => exact fun _ _ => rfl
  | _ => trivial

end Sample

/-- The third channel is named, and the message starts from it after three channels. -/
theorem writtenMsg_starts_third :
    startOf Sample.third.1 = some (Sample.numberedId 2) ∧ created (search Sample.third.1) = 3 := by
  have hdistinct : ∀ i ≤ 102, ∀ j ≤ 102, chidAt Sample.numbered (1 : Int).toNat Sample.fresh i =
      chidAt Sample.numbered (1 : Int).toNat Sample.fresh j → i = j := by
    intro i hi j hj h
    rw [Sample.chidAt_numbered, Sample.chidAt_numbered] at h
    exact Sample.numberedId_inj hi hj h
  obtain ⟨hstarts, -, -⟩ := writtenMsg_starts le_rfl (by decide)
    Sample.answersObjects_third hdistinct Sample.path_third
  obtain ⟨hiff, hcount, -⟩ := hstarts (List.cons_ne_nil _ _)
  exact ⟨hiff.mpr ⟨2, by omega, Sample.chidAt_numbered _ 2⟩,
    hcount 2 (by omega) (Sample.chidAt_numbered _ 2)⟩

end TangleAccelerator
