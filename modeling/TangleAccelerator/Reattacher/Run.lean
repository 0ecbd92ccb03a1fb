import TangleAccelerator.Effect.Protocol
import TangleAccelerator.Reattacher.Identity

/-!
# Runs of the reattacher

What a run does to the table `identity`.

A row is written to in two ways: it is confirmed, or it is given the hash of another attachment.
`Justified` says what must have happened before a write of either kind, and `justified_rounds` that
the reattacher makes no other.  What a run keeps follows from that.

It depends on three things the reattacher does not see to.  The write that confirms a row leaves its
time as it was, so the time is right only if the transaction was found included in the very second
of the row.  The second transaction of a replayed bundle is a new one only for a bundle of one.  A
row whose ID is not of version `4` is read with the ID zero, and a write creates a row with that ID.
-/

namespace TangleAccelerator.Reattacher

open Effect Cql

section Runs

variable [LinearOrder CassUuid] {T T' T₀ : IdentityTable} {τ : List (Event sig)}

/-! ## Traces and tables -/

@[simp] theorem tableAfter_nil (T : IdentityTable) : tableAfter T [] = T := rfl

@[simp] theorem tableAfter_append (T : IdentityTable) (τ₁ τ₂ : List (Event sig)) :
    tableAfter T (τ₁ ++ τ₂) = tableAfter (tableAfter T τ₁) τ₂ := List.foldl_append

@[simp] theorem tableAfter_cons (T : IdentityTable) (e : Event sig) (τ : List (Event sig)) :
    tableAfter T (e :: τ) = tableAfter (written T e) τ := rfl

/-- A query that does not fail returns the rows it asks for. -/
def Faithful (T : IdentityTable) : Event sig → Prop
  | ⟨.selectByStatus status, (some rows, _)⟩ => rows = withStatus T status
  | _ => True

theorem serves_database {e : Event sig} (h : database.Serves T e T') :
    Faithful T e ∧ T' = written T e := by
  obtain ⟨c, ans, now⟩ := e
  obtain ⟨⟨fails, answer, now'⟩, h⟩ := h
  cases c with
  | selectByStatus status =>
      cases fails <;> cases h <;> exact ⟨by trivial, rfl⟩
  | update id row =>
      cases fails <;> cases h <;> exact ⟨trivial, rfl⟩
  | getLatestInclusion hash =>
      cases h
      exact ⟨trivial, rfl⟩
  | replayBundle hash =>
      cases h
      exact ⟨trivial, rfl⟩
  | time =>
      cases h
      exact ⟨trivial, rfl⟩

/-- A trace that was served is faithful, and the table is what was written. -/
theorem served_database (h : Served database T τ T') :
    T' = tableAfter T τ ∧
      ∀ τ₁ e τ₂, τ = τ₁ ++ e :: τ₂ → Faithful (tableAfter T τ₁) e := by
  induction τ generalizing T with
  | nil =>
      refine ⟨h, fun τ₁ e τ₂ hτ => ?_⟩
      cases τ₁ <;> cases hτ
  | cons e τ ih =>
      obtain ⟨T₁, he, h⟩ := h
      obtain ⟨hfaithful, rfl⟩ := serves_database he
      obtain ⟨hT', hrest⟩ := ih h
      refine ⟨hT', fun τ₁ e' τ₂ hτ => ?_⟩
      cases τ₁ with
      | nil =>
          cases hτ
          exact hfaithful
      | cons e₁ τ₁ =>
          cases hτ
          exact hrest τ₁ e' τ₂ rfl

theorem tableAfter_concat (T : IdentityTable) (τ : List (Event sig)) (e : Event sig) :
    tableAfter T (τ ++ [e]) = written (tableAfter T τ) e := tableAfter_append ..

/-- The time after a trace. -/
def clockAfter (τ : List (Event sig)) : Int := (τ.getLast?.map fun e => e.ans.2).getD 0

omit [LinearOrder CassUuid] in
@[simp] theorem clockAfter_concat (τ : List (Event sig)) (e : Event sig) :
    clockAfter (τ ++ [e]) = e.ans.2 := by
  rw [clockAfter, List.getLast?_concat]
  rfl

/-! ## The writes -/

/-- A look at the clock. -/
abbrev timeAt (now : Int) : Event sig := ⟨.time, ((), now)⟩

/-- A bundle is replayed, or not. -/
abbrev replayAt (hash : Hash243) (replay : Option Replay) (now : Int) : Event sig :=
  ⟨.replayBundle hash, (replay, now)⟩

/-- The node is asked for the inclusion of a transaction. -/
abbrev inclusionAt (hash : Hash243) (states : Option (List Bool)) (now : Int) : Event sig :=
  ⟨.getLatestInclusion hash, (states, now)⟩

/-- A transaction has just been replayed after a row had been pending for long, and `hash` is the
hash of one of the new transactions. -/
def Replayed (past : List (Event sig)) (row : Row) (hash : Hash243) : Prop :=
  ∃ τ₀ now replay now₁ now₂,
    past = τ₀ ++ [timeAt now, replayAt row.hash (some replay) now₁, timeAt now₂] ∧
    now - row.ts > persistentPendingSecond ∧ hash ∈ replay.reattached.map fun tx => tx.hash

/-- What must have happened before a row is written to. -/
inductive Justified (past : List (Event sig)) (row : Row) : Row → Prop where
  | confirm (ts : row.ts = clockAfter past) : Justified past row { row with status := .confirmed }
  | reattach {hash : Hash243} (replayed : Replayed past row hash) :
      Justified past row { row with hash := hash, ts := clockAfter past }

/-- A row is only written to while it is pending, and for a reason. -/
def MayWrite (T : IdentityTable) (past : List (Event sig)) : Cmd → Prop
  | .update id row' => ∃ row, T.get id = some row ∧ row.status = .pending ∧ Justified past row row'
  | _ => True

/-- A transaction is found included in the second of its row, and replayed bundles have one
transaction. -/
def Meets (T : IdentityTable) : Event sig → Prop
  | ⟨.getLatestInclusion hash, (some [true], now)⟩ =>
      ∀ id row, T.get id = some row → row.status = .pending → row.hash = hash → row.ts = now
  | ⟨.replayBundle _, (some replay, _)⟩ => replay.originals.length = 1
  | _ => True

/-- The reattacher is watched from its start, with everything it has done. -/
@[reducible] def watch (T₀ : IdentityTable) : Protocol sig where
  State := List (Event sig)
  next past e := past ++ [e]
  may past c := MayWrite (tableAfter T₀ past) past c
  admits past e := Faithful (tableAfter T₀ past) e ∧ Meets (tableAfter T₀ past) e

theorem after_watch (past τ : List (Event sig)) : (watch T₀).after past τ = past ++ τ := by
  induction τ generalizing past with
  | nil => exact (List.append_nil past).symm
  | cons e τ ih => rw [Protocol.after_cons, ih, List.append_assoc, List.singleton_append]

/-- The ID of every pending row is one that is read as it is. -/
def PendingIds (T : IdentityTable) : Prop :=
  ∀ id row, T.get id = some row → row.status = .pending → id.version = 4 ∨ id = .zero

/-- An object holds a pending row as it is in the table. -/
def Current (T : IdentityTable) (obj : DbIdentity) : Prop :=
  T.get obj.uuid = some obj.row ∧ obj.row.status = .pending

/-- Tables that agree except at one ID. -/
def OnlyAt (id : CassUuid) (T T' : IdentityTable) : Prop := ∀ id', id' ≠ id → T'.get id' = T.get id'

theorem onlyAt_refl (id : CassUuid) (T : IdentityTable) : OnlyAt id T T := fun _ _ => rfl

theorem onlyAt_written (T : IdentityTable) (id : CassUuid) (row : Row) (ans : Bool × Int) :
    OnlyAt id T (written T ⟨.update id row, ans⟩) := by
  obtain ⟨ok, now⟩ := ans
  cases ok with
  | false => exact onlyAt_refl id T
  | true =>
      intro id' hid
      change (T.upsert row id fun _ => row).get id' = T.get id'
      rw [Table.get_upsert, if_neg hid]

theorem PendingIds.of_onlyAt {obj : DbIdentity} (h : PendingIds T) (hcur : Current T obj)
    (honly : OnlyAt obj.uuid T T') : PendingIds T' := by
  intro id row hrow hpending
  by_cases hid : id = obj.uuid
  · rw [hid]
    exact h obj.uuid obj.row hcur.1 hcur.2
  · rw [honly id hid] at hrow
    exact h id row hrow hpending

/-! ## Safety -/

section Safe

variable {α : Type} {R : Protocol sig} {past : List (Event sig)} {obj : DbIdentity}

omit [LinearOrder CassUuid] in
theorem safe_issue_bind (c : Cmd) (f : c.Ans → ReProc α) (m : R.State)
    (Q : Except Status α → R.State → Prop) :
    Safe R (issue c >>= f).run m Q ↔ R.may m c ∧ ∀ ans now, R.admits m ⟨c, (ans, now)⟩ →
      Safe R (f ans).run (R.next m ⟨c, (ans, now)⟩) Q := by
  constructor
  · intro h
    exact ⟨h.1, fun ans now => h.2 (ans, now)⟩
  · intro h
    exact ⟨h.1, fun r => h.2 r.1 r.2⟩

omit [LinearOrder CassUuid] in
theorem safe_time_bind (f : Int → ReProc α) (m : R.State) (Q : Except Status α → R.State → Prop) :
    Safe R (time >>= f).run m Q ↔ R.may m .time ∧ ∀ now, R.admits m ⟨.time, ((), now)⟩ →
      Safe R (f now).run (R.next m ⟨.time, ((), now)⟩) Q := by
  constructor
  · intro h
    exact ⟨h.1, fun now => h.2 ((), now)⟩
  · intro h
    exact ⟨h.1, fun r => h.2 r.2⟩

theorem safe_dbInsertIdentityTable {id : CassUuid} {row : Row}
    (hmay : MayWrite (tableAfter T₀ past) past (.update id row)) :
    Safe (watch T₀) (dbInsertIdentityTable ⟨id, row⟩).run past fun _ past' =>
      OnlyAt id (tableAfter T₀ past) (tableAfter T₀ past') := by
  rw [dbInsertIdentityTable, safe_issue_bind]
  refine ⟨hmay, fun ok now _ => ?_⟩
  have honly : OnlyAt id (tableAfter T₀ past)
      (tableAfter T₀ (past ++ [⟨.update id row, (ok, now)⟩])) := by
    rw [tableAfter_concat]
    exact onlyAt_written _ _ _ _
  rw [safe_run_ensure]
  exact ⟨fun _ => honly, fun _ => honly⟩

omit [LinearOrder CassUuid] in
/-- The second transaction of a bundle of one that was replayed is a new one. -/
theorem second_mem_reattached {replay : Replay} (h : replay.originals.length = 1) :
    replay.second ∈ replay.reattached := by
  rw [Replay.second, List.get_eq_getElem]
  simp only [Replay.bundle]
  rw [List.getElem_append_right (by omega)]
  exact List.getElem_mem _

theorem mayWrite_confirm (hcur : Current T obj) (hts : obj.row.ts = clockAfter past) :
    MayWrite T past (.update obj.uuid { obj.row with status := .confirmed }) :=
  ⟨obj.row, hcur.1, hcur.2, .confirm hts⟩

theorem mayWrite_reattach {τ₀ : List (Event sig)} {now now₁ now₂ : Int} {replay : Replay}
    (hcur : Current T obj) (hnow : now - obj.row.ts > persistentPendingSecond)
    (hone : replay.originals.length = 1)
    (hpast : past = τ₀ ++ [timeAt now, replayAt obj.row.hash (some replay) now₁, timeAt now₂]) :
    MayWrite T past
      (.update obj.uuid { obj.row with hash := replay.second.hash, ts := now₂ }) := by
  refine ⟨obj.row, hcur.1, hcur.2, ?_⟩
  have hreplayed : Replayed past obj.row replay.second.hash :=
    ⟨τ₀, now, replay, now₁, now₂, hpast, hnow, List.mem_map_of_mem (second_mem_reattached hone)⟩
  have hclock : clockAfter past = now₂ := by
    rw [hpast, clockAfter, List.getLast?_append]
    rfl
  have hjustified := Justified.reattach hreplayed
  rw [hclock] at hjustified
  exact hjustified

theorem safe_reattach {τ₀ : List (Event sig)} {now : Int}
    (hcur : Current (tableAfter T₀ (τ₀ ++ [timeAt now])) obj)
    (hnow : now - obj.row.ts > persistentPendingSecond) :
    Safe (watch T₀) (reattach obj).run (τ₀ ++ [timeAt now]) fun _ past' =>
      OnlyAt obj.uuid (tableAfter T₀ (τ₀ ++ [timeAt now])) (tableAfter T₀ past') := by
  rw [reattach, safe_issue_bind]
  refine ⟨trivial, fun ans now₁ hadm => ?_⟩
  have hreplay : tableAfter T₀ (τ₀ ++ [timeAt now] ++ [replayAt obj.row.hash ans now₁]) =
      tableAfter T₀ (τ₀ ++ [timeAt now]) := tableAfter_concat ..
  cases ans with
  | none =>
      rw [← hreplay]
      exact onlyAt_refl _ _
  | some replay =>
      change Safe (watch T₀) (time >>= fun now₂ => _).run _ _
      rw [safe_time_bind]
      refine ⟨trivial, fun now₂ _ => ?_⟩
      have htime : tableAfter T₀ (τ₀ ++ [timeAt now] ++
          [replayAt obj.row.hash (some replay) now₁] ++ [timeAt now₂]) =
          tableAfter T₀ (τ₀ ++ [timeAt now]) := (tableAfter_concat ..).trans hreplay
      have hpast : τ₀ ++ [timeAt now] ++ [replayAt obj.row.hash (some replay) now₁] ++
          [timeAt now₂] =
          τ₀ ++ [timeAt now, replayAt obj.row.hash (some replay) now₁, timeAt now₂] := by
        simp
      rw [← htime] at hcur ⊢
      exact safe_dbInsertIdentityTable (mayWrite_reattach hcur hnow hadm.2 hpast)

/-- The calls for a row write to that row only, and for a reason. -/
theorem safe_handlePendingTxn (hcur : Current (tableAfter T₀ past) obj) :
    Safe (watch T₀) (handlePendingTxn obj).run past fun _ past' =>
      OnlyAt obj.uuid (tableAfter T₀ past) (tableAfter T₀ past') := by
  rw [handlePendingTxn, safe_issue_bind]
  refine ⟨trivial, fun states now hadm => ?_⟩
  have hstates : tableAfter T₀ (past ++ [inclusionAt obj.row.hash states now]) =
      tableAfter T₀ past := tableAfter_concat ..
  split
  · have hts : obj.row.ts = now := hadm.2 obj.uuid obj.row hcur.1 hcur.2 rfl
    rw [← hstates] at hcur ⊢
    refine safe_dbInsertIdentityTable (mayWrite_confirm hcur ?_)
    rw [hts, clockAfter_concat]
  · rw [safe_time_bind]
    refine ⟨trivial, fun now₁ _ => ?_⟩
    have htime : tableAfter T₀ (past ++ [inclusionAt obj.row.hash (some [false]) now] ++
        [timeAt now₁]) = tableAfter T₀ past := (tableAfter_concat ..).trans hstates
    rw [← htime] at hcur ⊢
    split
    · rename_i hnow
      exact safe_reattach hcur hnow
    · exact onlyAt_refl _ _
  · rw [← hstates]
    exact onlyAt_refl _ _

/-- The objects of a round: each holds a row of its own as it is in the table. -/
def Ready (T : IdentityTable) (objs : List DbIdentity) : Prop :=
  (∀ obj ∈ objs, Current T obj) ∧ objs.Pairwise fun obj obj' => obj.uuid ≠ obj'.uuid

theorem Ready.tail {objs : List DbIdentity} (h : Ready T (obj :: objs))
    (honly : OnlyAt obj.uuid T T') : Ready T' objs := by
  obtain ⟨hne, hobjs⟩ := List.pairwise_cons.mp h.2
  refine ⟨fun obj' hobj' => ?_, hobjs⟩
  obtain ⟨hget, hpending⟩ := h.1 obj' (List.mem_cons_of_mem _ hobj')
  exact ⟨(honly _ (hne obj' hobj').symm).trans hget, hpending⟩

theorem safe_handleAll {objs : List DbIdentity} (hids : PendingIds (tableAfter T₀ past))
    (hready : Ready (tableAfter T₀ past) objs) :
    Safe (watch T₀) (handleAll objs) past fun _ past' => PendingIds (tableAfter T₀ past') := by
  induction objs generalizing past with
  | nil => exact hids
  | cons obj objs ih =>
      have hcur := hready.1 obj List.mem_cons_self
      rw [handleAll, safe_bind]
      refine (safe_handlePendingTxn hcur).mono fun _ past' honly => ?_
      exact ih (hids.of_onlyAt hcur honly) (hready.tail honly)

omit [LinearOrder CassUuid] in
theorem readRow_eq {id : CassUuid} {row : Row} (h : id.version = 4 ∨ id = .zero) :
    readRow (id, row) = ⟨id, row⟩ := by
  rw [readRow]
  split
  · rfl
  · rename_i hversion
    rw [h.resolve_left hversion]

/-- The rows that a query returns are read as they are. -/
theorem ready_withStatus (hids : PendingIds T) :
    Ready T ((withStatus T .pending).map readRow) := by
  have hrows : ∀ entry ∈ withStatus T .pending,
      T.get entry.1 = some entry.2 ∧ entry.2.status = .pending := by
    intro entry hentry
    obtain ⟨hmem, hpending⟩ := List.mem_filter.mp hentry
    exact ⟨Table.mem_rows_iff.mp hmem, of_decide_eq_true hpending⟩
  have hread : (withStatus T .pending).map readRow =
      (withStatus T .pending).map fun entry => ⟨entry.1, entry.2⟩ := by
    refine List.map_congr_left fun entry hentry => ?_
    obtain ⟨hget, hpending⟩ := hrows entry hentry
    exact readRow_eq (hids _ _ hget hpending)
  rw [hread]
  constructor
  · intro obj hobj
    obtain ⟨entry, hentry, rfl⟩ := List.mem_map.mp hobj
    exact hrows entry hentry
  · rw [List.pairwise_map]
    exact (T.sorted.filter _).imp fun hlt => hlt.ne

theorem safe_round (hids : PendingIds (tableAfter T₀ past)) :
    Safe (watch T₀) round past fun _ past' => PendingIds (tableAfter T₀ past') := by
  rw [round, safe_bind]
  refine ⟨trivial, fun ans hadm => ?_⟩
  obtain ⟨idArray, now⟩ := ans
  have hselect : tableAfter T₀ (past ++ [⟨.selectByStatus .pending, (idArray, now)⟩]) =
      tableAfter T₀ past := tableAfter_concat ..
  rw [← hselect] at hids
  refine safe_handleAll hids ?_
  cases idArray with
  | none => exact ⟨fun obj hobj => (by cases hobj), List.Pairwise.nil⟩
  | some rows =>
      have hrows : rows = withStatus (tableAfter T₀ past) .pending := hadm.1
      rw [hselect] at hids
      have hready := ready_withStatus hids
      rw [← hrows, ← hselect] at hready
      exact hready

/-- The reattacher writes to pending rows only, and for a reason. -/
theorem safe_rounds (n : Nat) (hids : PendingIds (tableAfter T₀ past)) :
    Safe (watch T₀) (rounds n) past fun _ past' => PendingIds (tableAfter T₀ past') := by
  induction n generalizing past with
  | zero => exact hids
  | succ n ih =>
      rw [rounds, safe_bind]
      exact (safe_round hids).mono fun _ past' hids' => ih hids'

end Safe

/-! ## What a run keeps -/

/-- What may become of a row. -/
structure RowKept (past : List (Event sig)) (row row' : Row) : Prop where
  confirmed : row.status = .confirmed → row' = row
  hash : row'.hash ≠ row.hash → row.status = .pending ∧ Replayed past row row'.hash
  ts : row'.status ≠ row.status ∨ row'.hash ≠ row.hash → row'.ts = clockAfter past

omit [LinearOrder CassUuid] in
theorem rowKept_refl (past : List (Event sig)) (row : Row) : RowKept past row row :=
  ⟨fun _ => rfl, fun h => absurd rfl h, fun h => h.elim (absurd rfl) (absurd rfl)⟩

omit [LinearOrder CassUuid] in
theorem Justified.rowKept {past : List (Event sig)} {row row' : Row}
    (h : Justified past row row') (hpending : row.status = .pending) : RowKept past row row' := by
  have hconfirmed : ∀ {P : Prop}, row.status = .confirmed → P := by
    intro P hst
    rw [hpending] at hst
    cases hst
  cases h with
  | confirm hts => exact ⟨hconfirmed, fun h => absurd rfl h, fun _ => hts⟩
  | reattach hreplayed => exact ⟨hconfirmed, fun _ => ⟨hpending, hreplayed⟩, fun _ => rfl⟩

/-- What may become of the table in one step. -/
structure StepKeeps (past : List (Event sig)) (T T' : IdentityTable) : Prop where
  ids : ∀ id, (T'.get id).isSome = (T.get id).isSome
  rows : ∀ id row row', T.get id = some row → T'.get id = some row' → RowKept past row row'

theorem stepKeeps_refl (past : List (Event sig)) (T : IdentityTable) : StepKeeps past T T := by
  refine ⟨fun _ => rfl, fun id row row' hrow hrow' => ?_⟩
  rw [hrow, Option.some.injEq] at hrow'
  exact hrow' ▸ rowKept_refl past row

theorem stepKeeps_written {past : List (Event sig)} {e : Event sig}
    (h : MayWrite T past e.cmd) : StepKeeps past T (written T e) := by
  obtain ⟨c, ans, now⟩ := e
  cases c with
  | update id row' =>
      cases ans with
      | false => exact stepKeeps_refl past T
      | true =>
          obtain ⟨row, hrow, hpending, hjustified⟩ := h
          have hget : ∀ id', (written T ⟨.update id row', (true, now)⟩).get id' =
              if id' = id then some row' else T.get id' := fun id' => Table.get_upsert ..
          refine ⟨fun id' => ?_, fun id' r r' hr hr' => ?_⟩
          · rw [hget]
            split
            · rename_i hid
              rw [hid, hrow]
              rfl
            · rfl
          · rw [hget] at hr'
            split at hr'
            · rename_i hid
              rw [hid, hrow, Option.some.injEq] at hr
              rw [Option.some.injEq] at hr'
              subst hr hr'
              exact hjustified.rowKept hpending
            · rw [hr, Option.some.injEq] at hr'
              exact hr' ▸ rowKept_refl past r
  | selectByStatus status => exact stepKeeps_refl past T
  | getLatestInclusion hash => exact stepKeeps_refl past T
  | replayBundle hash => exact stepKeeps_refl past T
  | time => exact stepKeeps_refl past T

/-- Every step of a run keeps what it must. -/
def RunKeeps (T₀ : IdentityTable) (τ : List (Event sig)) : Prop :=
  ∀ τ₁ e τ₂, τ = τ₁ ++ e :: τ₂ → StepKeeps τ₁ (tableAfter T₀ τ₁) (tableAfter T₀ (τ₁ ++ [e]))

/-- What every step keeps, a part of a run keeps. -/
theorem RunKeeps.after (h : RunKeeps T₀ τ) {τ₁ τ₂ : List (Event sig)} (hτ : τ = τ₁ ++ τ₂) :
    (∀ id, ((tableAfter T₀ τ).get id).isSome = ((tableAfter T₀ τ₁).get id).isSome) ∧
      ∀ id row, (tableAfter T₀ τ₁).get id = some row → row.status = .confirmed →
        (tableAfter T₀ τ).get id = some row := by
  induction τ₂ generalizing τ₁ with
  | nil =>
      rw [hτ, List.append_nil]
      exact ⟨fun _ => rfl, fun _ _ hrow _ => hrow⟩
  | cons e τ₂ ih =>
      have hstep := h τ₁ e τ₂ hτ
      have hτ' : τ = (τ₁ ++ [e]) ++ τ₂ := by
        rw [hτ, List.append_assoc, List.singleton_append]
      obtain ⟨hids, hconfirmed⟩ := ih hτ'
      refine ⟨fun id => (hids id).trans (hstep.ids id), fun id row hrow hst => ?_⟩
      have hsome : ((tableAfter T₀ (τ₁ ++ [e])).get id).isSome = true := by
        rw [hstep.ids, hrow]
        rfl
      obtain ⟨row', hrow'⟩ := Option.isSome_iff_exists.mp hsome
      have heq := (hstep.rows id row row' hrow hrow').confirmed hst
      exact hconfirmed id row (heq ▸ hrow') hst

/-! ## Failures -/

section Failures

variable {α : Type} {obj : DbIdentity} {st : Status}

omit [LinearOrder CassUuid] in
theorem path_issue_bind (c : Cmd) (f : c.Ans → ReProc α) (r : Except Status α) :
    Path (issue c >>= f).run τ r ↔
      ∃ ans now τ', τ = ⟨c, (ans, now)⟩ :: τ' ∧ Path (f ans).run τ' r := by
  constructor
  · rintro ⟨⟨ans, now⟩, τ', rfl, h⟩
    exact ⟨ans, now, τ', rfl, h⟩
  · rintro ⟨ans, now, τ', rfl, h⟩
    exact ⟨(ans, now), τ', rfl, h⟩

omit [LinearOrder CassUuid] in
theorem path_time_bind (f : Int → ReProc α) (r : Except Status α) :
    Path (time >>= f).run τ r ↔ ∃ now τ', τ = timeAt now :: τ' ∧ Path (f now).run τ' r := by
  constructor
  · rintro ⟨⟨⟨⟩, now⟩, τ', rfl, h⟩
    exact ⟨now, τ', rfl, h⟩
  · rintro ⟨now, τ', rfl, h⟩
    exact ⟨((), now), τ', rfl, h⟩

theorem tableAfter_dbInsert_error (h : Path (dbInsertIdentityTable obj).run τ (.error st))
    (T : IdentityTable) : tableAfter T τ = T := by
  rw [dbInsertIdentityTable, path_issue_bind] at h
  obtain ⟨ok, now, τ', rfl, h⟩ := h
  obtain ⟨rfl, hr⟩ := (path_run_ensure ..).mp h
  cases ok with
  | false => rfl
  | true => cases hr

theorem tableAfter_reattach_error (h : Path (reattach obj).run τ (.error st)) (T : IdentityTable) :
    tableAfter T τ = T := by
  rw [reattach, path_issue_bind] at h
  obtain ⟨replay, now, τ₁, rfl, h⟩ := h
  cases replay with
  | none =>
      obtain ⟨rfl, -⟩ := h
      rfl
  | some replay =>
      obtain ⟨now₁, τ₂, rfl, hinsert⟩ := (path_time_bind ..).mp h
      exact tableAfter_dbInsert_error hinsert T

/-- A row whose handling fails is left as it was. -/
theorem tableAfter_error (h : Path (handlePendingTxn obj).run τ (.error st)) (T : IdentityTable) :
    tableAfter T τ = T := by
  rw [handlePendingTxn, path_issue_bind] at h
  obtain ⟨states, now, τ₁, rfl, h⟩ := h
  split at h
  · exact tableAfter_dbInsert_error h T
  · rw [path_time_bind] at h
    obtain ⟨now₁, τ₂, rfl, h⟩ := h
    split at h
    · exact tableAfter_reattach_error h T
    · cases ((path_run_pure ..).mp h).2
  · obtain ⟨rfl, -⟩ := (path_run_throw ..).mp h
    rfl

end Failures

/-! ## All runs -/

/-- In every run from a table whose pending rows have IDs that are read as they are, in which
transactions are found included in the second of their rows and replayed bundles have one
transaction, every step keeps what it must.  The IDs stay the same from any point on, and so does a
row that is confirmed.  A row whose handling fails is left as it was in every run. -/
theorem reattacher_runKeeps :
    (∀ n q, PendingIds T₀ → Steps (rounds n) τ q → Served database T₀ τ T →
      (∀ τ₁ e τ₂, τ = τ₁ ++ e :: τ₂ → Meets (tableAfter T₀ τ₁) e) →
      T = tableAfter T₀ τ ∧ RunKeeps T₀ τ ∧
      ∀ τ₁ τ₂, τ = τ₁ ++ τ₂ →
        (∀ id, (T.get id).isSome = ((tableAfter T₀ τ₁).get id).isSome) ∧
        ∀ id row, (tableAfter T₀ τ₁).get id = some row → row.status = .confirmed →
          T.get id = some row) ∧
    ∀ obj st, Runs database (handlePendingTxn obj).run T₀ τ (.error st) T → T = T₀ := by
  constructor
  · intro n q hids hsteps hserved hmeets
    obtain ⟨rfl, hfaithful⟩ := served_database hserved
    have hadm : (watch T₀).Admitted [] τ := by
      rw [Protocol.admitted_iff]
      intro τ₁ e τ₂ hτ
      rw [after_watch, List.nil_append]
      exact ⟨hfaithful τ₁ e τ₂ hτ, hmeets τ₁ e τ₂ hτ⟩
    have hstart : PendingIds (tableAfter T₀ []) := hids
    have hallowed := (safe_rounds n hstart).allowed hsteps hadm
    have hkeeps : RunKeeps T₀ τ := by
      intro τ₁ e τ₂ hτ
      subst hτ
      have hmay := hallowed.may
      rw [after_watch, List.nil_append] at hmay
      rw [tableAfter_concat]
      exact stepKeeps_written hmay
    exact ⟨rfl, hkeeps, fun τ₁ τ₂ hτ => hkeeps.after hτ⟩
  · rintro obj st ⟨hpath, hserved⟩
    rw [(served_database hserved).1, tableAfter_error hpath]

end Runs

/-! ## One row -/

namespace Sample

/-- IDs in the order of their numbers. -/
@[reducible] def idOrder : LinearOrder CassUuid :=
  LinearOrder.lift' (fun id => id.timeAndVersion.toNat * 2 ^ 64 + id.clockSeqAndNode.toNat) (by
    rintro ⟨t, c⟩ ⟨t', c'⟩ h
    dsimp only at h
    have hc := c.isLt
    have hc' := c'.isLt
    have ht : t.toNat = t'.toNat := by omega
    have hcc : c.toNat = c'.toNat := by omega
    rw [BitVec.eq_of_toNat_eq ht, BitVec.eq_of_toNat_eq hcc])

/-- An ID of version `4`. -/
def uuid : CassUuid := ⟨0x4000000000000000, 1⟩

/-- An ID of version `1`. -/
def uuidV1 : CassUuid := ⟨0x1000000000000000, 1⟩

/-- A hash. -/
def hash (t : Tryte) : Hash243 := Vector.replicate 81 t

/-- A transaction with a hash. -/
def txn (t : Tryte) : Transaction where
  message := Vector.replicate 2187 0
  address := Vector.replicate 81 0
  value := 0
  obsoleteTag := Vector.replicate 27 0
  timestamp := 0
  currentIndex := 0
  lastIndex := 0
  bundle := Vector.replicate 81 0
  trunk := Vector.replicate 81 0
  branch := Vector.replicate 81 0
  tag := Vector.replicate 27 0
  attachmentTimestamp := 0
  attachmentTimestampLower := 0
  attachmentTimestampUpper := 0
  nonce := Vector.replicate 27 0
  hash := hash t

/-- A row that has been pending since the start of time. -/
def row : Row := ⟨0, hash 1, .pending⟩

/-- A bundle of one is replayed. -/
def single : Replay := ⟨[txn 1], [txn 2], rfl, by decide⟩

/-- A bundle of two is replayed. -/
def double : Replay := ⟨[txn 1, txn 2], [txn 3, txn 4], rfl, by decide⟩

/-- The table with one row. -/
def table [LinearOrder CassUuid] (id : CassUuid) : IdentityTable :=
  Table.empty.upsert row id fun _ => row

theorem get_table [LinearOrder CassUuid] (id id' : CassUuid) :
    (table id).get id' = if id' = id then some row else none := Table.get_upsert ..

/-- The query of a round that finds one row. -/
abbrev selected (id : CassUuid) (now : Int) : Event sig :=
  ⟨.selectByStatus .pending, (some [(id, row)], now)⟩

/-- A write. -/
abbrev wrote (id : CassUuid) (row : Row) (now : Int) : Event sig := ⟨.update id row, (true, now)⟩

theorem get_wrote [LinearOrder CassUuid] (T : IdentityTable) (id : CassUuid) (row : Row)
    (now : Int) : (written T (wrote id row now)).get id = some row :=
  (Table.get_upsert ..).trans (if_pos rfl)

/-- A transaction that is pending is reattached. -/
def reattaching (replay : Replay) (t : Tryte) : List (Event sig) :=
  [selected uuid 2000, inclusionAt (hash 1) (some [false]) 2000, timeAt 2000,
    replayAt (hash 1) (some replay) 2000, timeAt 2000, wrote uuid ⟨2000, hash t, .pending⟩ 2000]

/-- A transaction that is included is confirmed.  `read` is the ID its row is read with. -/
def confirming (id read : CassUuid) (now : Int) : List (Event sig) :=
  [selected id now, inclusionAt (hash 1) (some [true]) now, wrote read ⟨0, hash 1, .confirmed⟩ now]

theorem served_reattaching [LinearOrder CassUuid] (replay : Replay) (t : Tryte) :
    ∃ T, Served database (table uuid) (reattaching replay t) T :=
  ⟨_, _, ⟨(false, none, 2000), rfl⟩, _, ⟨(false, some [false], 2000), rfl⟩, _,
    ⟨(false, (), 2000), rfl⟩, _, ⟨(false, some replay, 2000), rfl⟩, _, ⟨(false, (), 2000), rfl⟩, _,
    ⟨(false, true, 2000), rfl⟩, rfl⟩

theorem served_confirming [LinearOrder CassUuid] (id read : CassUuid) (now : Int) :
    ∃ T, Served database (table id) (confirming id read now) T :=
  ⟨_, _, ⟨(false, none, now), rfl⟩, _, ⟨(false, some [true], now), rfl⟩, _,
    ⟨(false, true, now), rfl⟩, rfl⟩

theorem path_reattaching_single : Path (rounds 1) (reattaching single 2) () :=
  ⟨_, _, rfl, _, _, rfl, _, _, rfl, _, _, rfl, _, _, rfl, _, _, rfl, rfl, rfl⟩

theorem path_reattaching_double : Path (rounds 1) (reattaching double 2) () :=
  ⟨_, _, rfl, _, _, rfl, _, _, rfl, _, _, rfl, _, _, rfl, _, _, rfl, rfl, rfl⟩

theorem path_confirming : Path (rounds 1) (confirming uuid uuid 100) () :=
  ⟨_, _, rfl, _, _, rfl, _, _, rfl, rfl, rfl⟩

theorem path_confirming_zero : Path (rounds 1) (confirming uuidV1 .zero 0) () :=
  ⟨_, _, rfl, _, _, rfl, _, _, rfl, rfl, rfl⟩

end Sample

theorem reattacher_runKeeps_single :
    letI := Sample.idOrder
    Path (rounds 1) (Sample.reattaching Sample.single 2) () ∧
      RunKeeps (Sample.table Sample.uuid) (Sample.reattaching Sample.single 2) := by
  let := Sample.idOrder
  obtain ⟨T, hserved⟩ := Sample.served_reattaching Sample.single 2
  have hsteps := (steps_ret_iff ..).mpr Sample.path_reattaching_single
  have hids : PendingIds (Sample.table Sample.uuid) := by
    intro id row hrow _
    rw [Sample.get_table] at hrow
    split at hrow
    · rename_i hid
      rw [hid]
      exact Or.inl (by decide)
    · cases hrow
  have hmeets : ∀ e ∈ Sample.reattaching Sample.single 2, ∀ T, Meets T e := by
    simp [Sample.reattaching, Meets, Sample.single]
  obtain ⟨-, hkeeps, -⟩ := reattacher_runKeeps.1 1 _ hids hsteps hserved fun τ₁ e τ₂ hτ =>
    hmeets e (hτ ▸ List.mem_append_right _ List.mem_cons_self) _
  exact ⟨Sample.path_reattaching_single, hkeeps⟩

/-- A run that does not keep what it must. -/
def Breaks [LinearOrder CassUuid] (id : CassUuid) (τ : List (Event sig)) : Prop :=
  Path (rounds 1) τ () ∧ (∃ T, Served database (Sample.table id) τ T) ∧
    ¬ RunKeeps (Sample.table id) τ

section Breaking

variable [LinearOrder CassUuid]

theorem breaks_confirming : Breaks Sample.uuid (Sample.confirming Sample.uuid Sample.uuid 100) := by
  refine ⟨Sample.path_confirming, Sample.served_confirming _ _ _, fun h => ?_⟩
  have hstep := h [Sample.selected Sample.uuid 100, inclusionAt (Sample.hash 1) (some [true]) 100]
    (Sample.wrote Sample.uuid ⟨0, Sample.hash 1, .confirmed⟩ 100) [] rfl
  have hrow : (Sample.table Sample.uuid).get Sample.uuid = some Sample.row := by
    rw [Sample.get_table, if_pos rfl]
  have hrow' := Sample.get_wrote (Sample.table Sample.uuid) Sample.uuid
    ⟨0, Sample.hash 1, .confirmed⟩ 100
  have hts := (hstep.rows Sample.uuid _ _ hrow hrow').ts (Or.inl (fun h => by cases h))
  exact absurd hts (by decide)

theorem breaks_reattaching : Breaks Sample.uuid (Sample.reattaching Sample.double 2) := by
  refine ⟨Sample.path_reattaching_double, Sample.served_reattaching _ _, fun h => ?_⟩
  have hstep := h [Sample.selected Sample.uuid 2000,
    inclusionAt (Sample.hash 1) (some [false]) 2000, timeAt 2000,
    replayAt (Sample.hash 1) (some Sample.double) 2000, timeAt 2000]
    (Sample.wrote Sample.uuid ⟨2000, Sample.hash 2, .pending⟩ 2000) [] rfl
  have hrow : (Sample.table Sample.uuid).get Sample.uuid = some Sample.row := by
    rw [Sample.get_table, if_pos rfl]
  have hrow' := Sample.get_wrote (Sample.table Sample.uuid) Sample.uuid
    ⟨2000, Sample.hash 2, .pending⟩ 2000
  have hne : ∀ {t t' : Tryte}, Sample.hash t = Sample.hash t' → t = t' := by
    intro t t' heq
    have h0 := congrArg (fun v : Hash243 => v[0]) heq
    simpa [Sample.hash] using h0
  have hhash := (hstep.rows Sample.uuid _ _ hrow hrow').hash fun heq => by
    cases hne heq
  obtain ⟨-, τ₀, now, replay, now₁, now₂, hpast, -, hmem⟩ := hhash
  -- the replay of the run is the one of this bundle
  have hsplit : [Sample.selected Sample.uuid 2000,
      inclusionAt (Sample.hash 1) (some [false]) 2000] ++ [timeAt 2000,
      replayAt (Sample.hash 1) (some Sample.double) 2000, timeAt 2000] =
      τ₀ ++ [timeAt now, replayAt Sample.row.hash (some replay) now₁, timeAt now₂] := hpast
  have htail := (List.append_inj' hsplit rfl).2
  cases htail
  rcases List.mem_pair.mp hmem with heq | heq
  · cases hne heq
  · cases hne heq

theorem breaks_confirming_zero :
    Breaks Sample.uuidV1 (Sample.confirming Sample.uuidV1 .zero 0) := by
  refine ⟨Sample.path_confirming_zero, Sample.served_confirming _ _ _, fun h => ?_⟩
  have hstep := h [Sample.selected Sample.uuidV1 0, inclusionAt (Sample.hash 1) (some [true]) 0]
    (Sample.wrote .zero ⟨0, Sample.hash 1, .confirmed⟩ 0) [] rfl
  have hrow : ((Sample.table Sample.uuidV1).get .zero).isSome = false := by
    rw [Sample.get_table, if_neg]
    · rfl
    · intro heq
      cases heq
  have hsome := congrArg Option.isSome (Sample.get_wrote (Sample.table Sample.uuidV1) .zero
    ⟨0, Sample.hash 1, .confirmed⟩ 0)
  cases hsome.symm.trans ((hstep.ids .zero).trans hrow)

end Breaking

/-- A row that is confirmed keeps its old time.  The row of a bundle of two is given the hash of the
second transaction of the bundle it was.  A row whose ID is of version `1` is confirmed in a new row
with the ID zero. -/
theorem reattacher_breaks :
    letI := Sample.idOrder
    Breaks Sample.uuid (Sample.confirming Sample.uuid Sample.uuid 100) ∧
      Breaks Sample.uuid (Sample.reattaching Sample.double 2) ∧
      Breaks Sample.uuidV1 (Sample.confirming Sample.uuidV1 .zero 0) := by
  let := Sample.idOrder
  exact ⟨breaks_confirming, breaks_reattaching, breaks_confirming_zero⟩

end TangleAccelerator.Reattacher
