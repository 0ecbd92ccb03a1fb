import TangleAccelerator.Core.PeriodicalTask

/-!
# Choosing a node

`ta_get_node_status`, `ta_update_full_node_connection` and the start of a round of `health_track`.

A node is in sync if its latest solid milestone is behind its latest milestone by at most one.
`ta_get_node_status` takes the difference the other way round, so it refuses a node that is ahead
of itself and accepts every node that lags.  `ta_update_full_node_connection` binds the service to
one listed node after the other until one is accepted.  Where none is, the service is left bound to
the last one and the status is still `SC_OK`, because nothing sets it.

What a search does depends on the replies only, in the order of the list.  `tried` is the number of
nodes that are asked.
-/

namespace TangleAccelerator

open Effect

variable {τ : List (Event sig)} {node : String × Nat} {hosts : List (String × Nat)}
  {replies : List NodeInfo}

/-! ## The status of a node -/

/-- The node answered and is in sync. -/
def NodeInfo.inSync : NodeInfo → Bool
  | .milestones latest latestSolidSubtangle => decide (latest - latestSolidSubtangle ≤ 1)
  | _ => false

/-- What `ta_get_node_status` makes of a reply. -/
def nodeStatus : NodeInfo → Except Status Unit
  | .unreachable => .error .cclientFailedResponse
  | .malformed st => .error st
  | .milestones latest latestSolidSubtangle =>
      if latestSolidSubtangle - latest > 1 then .error .coreNodeUnsync else .ok ()

/-- The query of a node, with its reply. -/
def asked (node : String × Nat) (info : NodeInfo) : Event sig := ⟨.getNodeInfo node, info⟩

theorem path_taGetNodeStatus {r : Except Status Unit}
    (h : Path (taGetNodeStatus node).run τ r) :
    ∃ info, τ = [asked node info] ∧ r = nodeStatus info := by
  rw [taGetNodeStatus, path_run_request_bind] at h
  obtain ⟨info, τ₁, rfl, h⟩ := h
  refine ⟨info, ?_⟩
  cases info with
  | unreachable =>
      obtain ⟨rfl, hr⟩ := (path_run_throw ..).mp h
      exact ⟨rfl, hr⟩
  | malformed st =>
      obtain ⟨rfl, hr⟩ := (path_run_throw ..).mp h
      exact ⟨rfl, hr⟩
  | milestones latest solid =>
      obtain ⟨rfl, hr⟩ := (path_run_ensure ..).mp h
      refine ⟨rfl, hr.trans ?_⟩
      by_cases hahead : solid - latest > 1
      · simp [nodeStatus, hahead]
      · simp [nodeStatus, hahead]

/-! ## The search -/

/-- The queries of `τ` are those of the first hosts, with their replies. -/
def Answers (hosts : List (String × Nat)) (replies : List NodeInfo) (τ : List (Event sig)) : Prop :=
  τ <+: List.zipWith asked hosts replies

/-- How many nodes are asked: up to the first one that is accepted. -/
def tried : List NodeInfo → Nat
  | [] => 0
  | info :: rest => if (nodeStatus info).isOk then 1 else tried rest + 1

theorem tried_of_ok {info : NodeInfo} (h : nodeStatus info = .ok ()) (rest : List NodeInfo) :
    tried (info :: rest) = 1 := by
  rw [tried, h]
  rfl

theorem tried_of_error {info : NodeInfo} {e : Status} (h : nodeStatus info = .error e)
    (rest : List NodeInfo) : tried (info :: rest) = tried rest + 1 := by
  rw [tried, h]
  rfl

/-- The reply of the node the service is bound to after a search, where `own` is the reply of the
node it was bound to before. -/
def boundReply : NodeInfo → List NodeInfo → NodeInfo
  | own, [] => own
  | _, info :: rest => if (nodeStatus info).isOk then info else boundReply info rest

theorem boundReply_of_ok {own info : NodeInfo} (h : nodeStatus info = .ok ())
    (rest : List NodeInfo) : boundReply own (info :: rest) = info := by
  rw [boundReply, h]
  rfl

theorem boundReply_of_error {own info : NodeInfo} {e : Status} (h : nodeStatus info = .error e)
    (rest : List NodeInfo) : boundReply own (info :: rest) = boundReply info rest := by
  rw [boundReply, h]
  rfl

/-- The search succeeds, and leaves the service bound to the node that was asked last. -/
theorem path_taUpdateFullNodeConnection {r : Except Status (String × Nat)} (own : NodeInfo)
    (hlen : replies.length = hosts.length) (hans : Answers hosts replies τ)
    (h : Path (taUpdateFullNodeConnection hosts node).run τ r) :
    ∃ bound, r = .ok bound ∧ bound = (hosts.take (tried replies)).getLastD node ∧
      τ.length = tried replies ∧
      (asked node own :: τ).getLast? = some (asked bound (boundReply own replies)) := by
  induction hosts generalizing τ node replies own with
  | nil =>
      obtain rfl := List.length_eq_zero_iff.mp hlen
      obtain ⟨rfl, rfl⟩ := (path_run_pure ..).mp h
      exact ⟨node, rfl, rfl, rfl, rfl⟩
  | cons host hosts ih =>
      cases replies with
      | nil => cases hlen
      | cons info replies =>
          rw [taUpdateFullNodeConnection, path_run_attempt_bind] at h
          obtain ⟨status, τ₁, τ₂, rfl, hstatus, h⟩ := h
          obtain ⟨info', rfl, rfl⟩ := path_taGetNodeStatus hstatus
          rw [Answers, List.zipWith_cons_cons, List.singleton_append, List.cons_prefix_cons] at hans
          obtain ⟨hinfo, hans⟩ := hans
          cases hinfo
          cases hst : nodeStatus info with
          | ok u =>
              rw [hst] at h
              obtain ⟨rfl, rfl⟩ := (path_run_pure ..).mp h
              rw [tried_of_ok hst, boundReply_of_ok hst]
              exact ⟨host, rfl, rfl, rfl, rfl⟩
          | error e =>
              rw [hst] at h
              obtain ⟨bound, rfl, hbound, hτ, hlast⟩ := ih info (Nat.succ.inj hlen) hans h
              rw [tried_of_error hst, boundReply_of_error hst, List.take_succ_cons,
                List.getLastD_cons, List.singleton_append, List.getLast?_cons_cons]
              exact ⟨bound, rfl, hbound, congrArg (· + 1) hτ, hlast⟩

/-- The search stops at the first node in sync, if there is one, and fails if there is none. -/
structure FindsFirstInSync (hosts : List (String × Nat)) (replies : List NodeInfo)
    (τ : List (Event sig)) (r : Except Status (String × Nat)) : Prop where
  status : (∃ bound, r = .ok bound) ↔ ∃ info ∈ replies, info.inSync = true
  bound : ∀ i, replies.findIdx? NodeInfo.inSync = some i →
    τ.length = i + 1 ∧ ∃ h : i < hosts.length, r = .ok hosts[i]

/-- The first node that answers is in sync, and it is accepted or the last one of the list. -/
def FirstAnswerInSync : List NodeInfo → Prop
  | [] => False
  | .milestones latest latestSolidSubtangle :: rest =>
      latest - latestSolidSubtangle ≤ 1 ∧ (latestSolidSubtangle - latest ≤ 1 ∨ rest = [])
  | _ :: rest => FirstAnswerInSync rest

theorem tried_eq_zero_iff : tried replies = 0 ↔ replies = [] := by
  cases replies with
  | nil => exact iff_of_true rfl rfl
  | cons info rest =>
      refine iff_of_false ?_ (List.cons_ne_nil _ _)
      rw [tried]
      split <;> omega

theorem nodeStatus_milestones_ok {latest solid : Int} (h : solid - latest ≤ 1) :
    nodeStatus (.milestones latest solid) = .ok () := by
  rw [nodeStatus, if_neg (by omega)]

theorem nodeStatus_milestones_error {latest solid : Int} (h : ¬ solid - latest ≤ 1) :
    nodeStatus (.milestones latest solid) = .error .coreNodeUnsync := by
  rw [nodeStatus, if_pos (by omega)]

theorem tried_milestones_eq_one_iff {latest solid : Int} {rest : List NodeInfo} :
    tried (.milestones latest solid :: rest) = 1 ↔ solid - latest ≤ 1 ∨ rest = [] := by
  by_cases hahead : solid - latest ≤ 1
  · rw [tried_of_ok (nodeStatus_milestones_ok hahead)]
    exact iff_of_true rfl (Or.inl hahead)
  · rw [tried_of_error (nodeStatus_milestones_error hahead), Nat.add_eq_right, tried_eq_zero_iff,
      or_iff_right hahead]

theorem firstAnswerInSync_iff : FirstAnswerInSync replies ↔
    ∃ i, replies.findIdx? NodeInfo.inSync = some i ∧ tried replies = i + 1 := by
  -- a reply that is no answer is passed over by both
  have hskip : ∀ {info : NodeInfo} {e : Status} {rest : List NodeInfo}, info.inSync = false →
      nodeStatus info = .error e →
      ((∃ i, (info :: rest).findIdx? NodeInfo.inSync = some i ∧ tried (info :: rest) = i + 1) ↔
        ∃ i, rest.findIdx? NodeInfo.inSync = some i ∧ tried rest = i + 1) := by
    intro info e rest hsync hst
    rw [tried_of_error hst, List.findIdx?_cons, hsync]
    constructor
    · rintro ⟨i, hi, ht⟩
      obtain ⟨j, hj, rfl⟩ := Option.map_eq_some_iff.mp hi
      exact ⟨j, hj, by omega⟩
    · rintro ⟨i, hi, ht⟩
      exact ⟨i + 1, Option.map_eq_some_iff.mpr ⟨i, hi, rfl⟩, by omega⟩
  induction replies with
  | nil => exact iff_of_false id (by simp)
  | cons info rest ih =>
      cases info with
      | unreachable => exact ih.trans (hskip rfl rfl).symm
      | malformed st => exact ih.trans (hskip rfl rfl).symm
      | milestones latest solid =>
          have hsync : (NodeInfo.milestones latest solid).inSync =
              decide (latest - solid ≤ 1) := rfl
          rw [List.findIdx?_cons, hsync]
          by_cases hbehind : latest - solid ≤ 1
          · rw [decide_eq_true hbehind]
            constructor
            · intro h
              exact ⟨0, rfl, tried_milestones_eq_one_iff.mpr h.2⟩
            · rintro ⟨i, hi, ht⟩
              obtain rfl := Option.some.inj hi
              exact ⟨hbehind, tried_milestones_eq_one_iff.mp ht⟩
          · -- a node that lags is accepted
            rw [decide_eq_false hbehind, tried_of_ok (nodeStatus_milestones_ok (by omega))]
            refine iff_of_false (fun h => hbehind h.1) ?_
            rintro ⟨i, hi, ht⟩
            obtain ⟨j, -, rfl⟩ := Option.map_eq_some_iff.mp hi
            omega

/-- What the search does is right exactly where the first node that answers is in sync. -/
theorem findsFirstInSync_iff {r : Except Status (String × Nat)}
    (hlen : replies.length = hosts.length) (hans : Answers hosts replies τ)
    (h : Path (taUpdateFullNodeConnection hosts node).run τ r) :
    FindsFirstInSync hosts replies τ r ↔ FirstAnswerInSync replies := by
  obtain ⟨bound, rfl, rfl, hτ, -⟩ :=
    path_taUpdateFullNodeConnection .unreachable hlen hans h
  rw [firstAnswerInSync_iff]
  constructor
  · intro hfinds
    obtain ⟨info, hinfo, hsync⟩ := hfinds.status.mp ⟨_, rfl⟩
    have hsome : (replies.findIdx? NodeInfo.inSync).isSome := by
      rw [List.findIdx?_isSome, List.any_eq_true]
      exact ⟨info, hinfo, hsync⟩
    obtain ⟨i, hi⟩ := Option.isSome_iff_exists.mp hsome
    exact ⟨i, hi, hτ.symm.trans (hfinds.bound i hi).1⟩
  · rintro ⟨i, hi, ht⟩
    obtain ⟨hil, hsync, -⟩ := List.findIdx?_eq_some_iff_getElem.mp hi
    refine ⟨iff_of_true ⟨_, rfl⟩ ⟨_, List.getElem_mem hil, hsync⟩, fun j hj => ?_⟩
    obtain rfl := Option.some.inj (hi.symm.trans hj)
    have hih : i < hosts.length := by omega
    refine ⟨hτ.trans ht, hih, ?_⟩
    rw [ht, List.take_add_one, List.getElem?_eq_getElem hih, Option.toList_some,
      List.getLastD_concat]


/-! ## A round of `health_track` -/

/-- If the status lets a round broadcast, the node the service is bound to was asked last, and its
reply was in sync. -/
def BroadcastsInSync (τ : List (Event sig)) (bound : String × Nat) (ret : Except Status Unit) :
    Prop :=
  ret = .ok () → ∃ info, τ.getLast? = some (asked bound info) ∧ info.inSync = true

/-- The reply a round relies on is in sync: the one of the node the service was bound to, or after
a failure the one of the first listed node that is accepted, or of the last one if none is. -/
def RoundInSync (own : NodeInfo) (replies : List NodeInfo) : Prop :=
  match nodeStatus own with
  | .ok () => own.inSync = true
  | .error .coreNodeUnsync | .error .cclientFailedResponse =>
      (boundReply own replies).inSync = true
  | .error _ => True

section Round

variable {core : TaCore} {own : NodeInfo} {bound : String × Nat} {ret : Except Status Unit}

theorem broadcastsInSync_of_last {info : NodeInfo} (h : τ.getLast? = some (asked bound info)) :
    BroadcastsInSync τ bound (.ok ()) ↔ info.inSync = true := by
  constructor
  · intro hsync
    obtain ⟨info', hlast, hin⟩ := hsync rfl
    cases h.symm.trans hlast
    exact hin
  · intro hin _
    exact ⟨info, h, hin⟩

theorem broadcastsInSync_iff (hlen : replies.length = core.taConf.iotaHosts.length)
    (hans : Answers core.taConf.iotaHosts replies τ)
    (h : Path (checkNode core node).run (asked node own :: τ) (.ok (bound, ret))) :
    BroadcastsInSync (asked node own :: τ) bound ret ↔ RoundInSync own replies := by
  rw [checkNode, path_run_attempt_bind] at h
  obtain ⟨status, τ₁, τ₂, hτ, hstatus, h⟩ := h
  obtain ⟨own', rfl, rfl⟩ := path_taGetNodeStatus hstatus
  rw [List.singleton_append, List.cons.injEq] at hτ
  obtain ⟨hown, rfl⟩ := hτ
  cases hown
  have hsearch : ∀ {r : Except Status ((String × Nat) × Except Status Unit)},
      Path (taUpdateFullNodeConnection core.taConf.iotaHosts node >>= fun node' =>
        pure (node', Except.ok ())).run τ r → r = .ok (bound, ret) →
      (BroadcastsInSync (asked node own :: τ) bound ret ↔
        (boundReply own replies).inSync = true) := by
    intro r hpath hr
    subst hr
    rw [path_run_bind_ok] at hpath
    obtain ⟨bound', τ₃, τ₄, rfl, hupdate, hpure⟩ := hpath
    obtain ⟨rfl, hres⟩ := (path_run_pure ..).mp hpure
    cases hres
    rw [List.append_nil] at hans ⊢
    obtain ⟨bound', hbound, -, -, hlast⟩ :=
      path_taUpdateFullNodeConnection own hlen hans hupdate
    cases hbound
    exact broadcastsInSync_of_last hlast
  unfold RoundInSync
  split at h
  · rename_i hst
    rw [hst]
    exact hsearch h rfl
  · rename_i hst
    rw [hst]
    exact hsearch h rfl
  · rename_i hunsync hfailed
    obtain ⟨rfl, hres⟩ := (path_run_pure ..).mp h
    cases hres
    cases hst : nodeStatus own with
    | ok u =>
        rw [broadcastsInSync_of_last rfl]
    | error e =>
        refine iff_of_true (fun hok => by cases hok) ?_
        split
        · rename_i hok
          cases hok
        · rename_i he
          exact absurd (hst.trans he) hunsync
        · rename_i he
          exact absurd (hst.trans he) hfailed
        · trivial

/-- A search stops at the first listed node in sync, and fails without one, exactly where the first
listed node that answers is in sync and is accepted or the last.  A round broadcasts only while
bound to a node in sync exactly where the reply it relies on is in sync. -/
theorem failover_iff (hlen : replies.length = core.taConf.iotaHosts.length) :
    (∀ node τ r, Answers core.taConf.iotaHosts replies τ →
      Path (taUpdateFullNodeConnection core.taConf.iotaHosts node).run τ r →
      (FindsFirstInSync core.taConf.iotaHosts replies τ r ↔ FirstAnswerInSync replies)) ∧
    ∀ node own τ bound ret, Answers core.taConf.iotaHosts replies τ →
      Path (checkNode core node).run (asked node own :: τ) (.ok (bound, ret)) →
      (BroadcastsInSync (asked node own :: τ) bound ret ↔ RoundInSync own replies) :=
  ⟨fun _ _ _ hans h => findsFirstInSync_iff hlen hans h,
    fun _ _ _ _ _ hans h => broadcastsInSync_iff hlen hans h⟩

end Round

/-! ## Two nodes -/

namespace Sample

/-- A node of the list. -/
def first : String × Nat := ("node1", 443)

/-- Another one. -/
def second : String × Nat := ("node2", 443)

/-- A core with a list of two nodes. -/
def listed : TaCore where
  taConf := ⟨true, [first, second]⟩
  cache := ⟨true, 0, 0⟩
  iotaConf := ⟨3, 14, Vector.replicate 81 0⟩

end Sample

theorem failover_second : ∃ τ,
    FindsFirstInSync [Sample.first, Sample.second] [.unreachable, .milestones 8 7] τ
      (.ok Sample.second) ∧
    BroadcastsInSync (asked Sample.first .unreachable :: τ) Sample.second (.ok ()) := by
  have hlen : [NodeInfo.unreachable, .milestones 8 7].length =
      Sample.listed.taConf.iotaHosts.length := rfl
  obtain ⟨hsearch, hround⟩ := failover_iff hlen
  refine ⟨[asked Sample.first .unreachable, asked Sample.second (.milestones 8 7)], ?_, ?_⟩
  · refine (hsearch Sample.first _ _ (List.prefix_refl _) ?_).mpr ⟨by decide, Or.inl (by decide)⟩
    exact ⟨_, _, rfl, _, _, rfl, rfl, rfl⟩
  · refine (hround Sample.first .unreachable _ _ _ (List.prefix_refl _) ?_).mpr rfl
    exact ⟨_, _, rfl, _, _, rfl, _, _, rfl, rfl, rfl⟩

/-- No listed node answers, and the search reports success and lets the round broadcast.  A node
that lags by a hundred milestones is taken before one in sync. -/
theorem failover_unreachable_or_lagging :
    (Path (checkNode Sample.listed Sample.first).run
        [asked Sample.first .unreachable, asked Sample.first .unreachable,
          asked Sample.second .unreachable] (.ok (Sample.second, .ok ())) ∧
      ¬ BroadcastsInSync [asked Sample.first .unreachable, asked Sample.first .unreachable,
          asked Sample.second .unreachable] Sample.second (.ok ())) ∧
    Path (taUpdateFullNodeConnection [Sample.first, Sample.second] Sample.first).run
        [asked Sample.first (.milestones 100 0)] (.ok Sample.first) ∧
      ¬ FindsFirstInSync [Sample.first, Sample.second] [.milestones 100 0, .milestones 100 100]
        [asked Sample.first (.milestones 100 0)] (.ok Sample.first) := by
  refine ⟨⟨⟨_, _, rfl, _, _, rfl, _, _, rfl, rfl, rfl⟩, fun h => ?_⟩,
    ⟨_, _, rfl, rfl, rfl⟩, fun h => ?_⟩
  · obtain ⟨info, hlast, hsync⟩ := h rfl
    cases hlast
    cases hsync
  · exact absurd (h.bound 1 rfl).1 (by decide)

end TangleAccelerator
