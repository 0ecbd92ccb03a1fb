import TangleAccelerator.Permanode.Find

/-!
# Reading transactions back

`db_get_trytes` and `db_client_get_trytes` of `scylladb_permanode.c`, after any inserts.

The query for the trytes of a hash finds no row, or a row whose column may be null.  It is null in
the rows that `insert_approvee` created, so a hash that is the trunk or the branch of a transaction
and was never inserted itself ends a request with another status than a hash that is not there.

Hashes that `db_client_find_transactions` returned are always read back.
-/

namespace TangleAccelerator.Permanode

open Effect Cql

/-! ## The functions -/

/-- The statements that read trytes. -/
inductive Reading where
  /-- `SELECT trytes FROM transaction WHERE hash = ?` -/
  | trytes (hash : Hash243)

/-- The answers.  A query fails, or finds no row, or finds one whose column may be null. -/
@[reducible] def Reading.Ans : Reading → Type
  | .trytes _ => Option (Option (Option Hash8019))

/-- The signature of programs that read trytes. -/
@[reducible] def reading : Sig := ⟨Reading, Reading.Ans⟩

/-- The database, which chooses the queries that fail. -/
@[reducible] def reader [LinearOrder Hash243] : Server reading where
  State := TransactionTable
  Choice _ := Bool
  serve
    | .trytes hash, fails, T => (if fails then none else some ((T.get hash).map (·.trytes)), T)

/-- `db_get_trytes`, with `get_trytes_from_transaction_table` and `get_trytes`. -/
def dbGetTrytes (hash : Hash243) : Prog reading (Except Status Hash8019) := do
  match ← command (S := reading) (.trytes hash) with
  | none => pure (.error .storageCassandraQueryFail)
  | some none => pure (.error .cclientNotFound)
  -- the value of a null column cannot be taken
  | some (some none) => pure (.error .storageCassandraQueryFail)
  | some (some (some trytes)) => pure (.ok trytes)

/-- `db_client_get_trytes`: the queue `res->trytes`, which keeps what was pushed, and the status. -/
def dbClientGetTrytes :
    List Hash243 → List Hash8019 → Prog reading (List Hash8019 × Except Status Unit)
  | [], res => pure (res, .ok ())
  | hash :: hashes, res => do
      match ← dbGetTrytes hash with
      | .error e => pure (res, .error e)
      | .ok trytes => dbClientGetTrytes hashes (res ++ [trytes])

/-! ## What is read -/

/-- How a request for trytes is answered after some inserts. -/
inductive ReadBack (txs : List (Hash243 × Hash8019)) :
    List Hash243 → List Hash8019 → Except Status Unit → Prop
  | done : ReadBack txs [] [] (.ok ())
  | stored {h : Hash243} {t : Hash8019} {hs : List Hash243} {ts : List Hash8019}
      {ret : Except Status Unit} (hlatest : latest txs h = some t) (rest : ReadBack txs hs ts ret) :
      ReadBack txs (h :: hs) (t :: ts) ret
  | approved {h : Hash243} {hs : List Hash243} (hnot : ¬ Inserted txs h) (happ : Approved txs h) :
      ReadBack txs (h :: hs) [] (.error .storageCassandraQueryFail)
  | missing {h : Hash243} {hs : List Hash243} (hnot : ¬ Inserted txs h) (happ : ¬ Approved txs h) :
      ReadBack txs (h :: hs) [] (.error .cclientNotFound)

theorem latest_eq_none_iff {txs : List (Hash243 × Hash8019)} {h : Hash243} :
    latest txs h = none ↔ ¬ Inserted txs h := by
  simp only [latest, Inserted, Option.map_eq_none_iff, List.find?_eq_none, List.mem_reverse,
    decide_eq_true_eq, Prod.forall, not_exists]
  exact ⟨fun hall t ht => hall h t ht rfl, fun hall h' t ht hh => hall t (hh ▸ ht)⟩

theorem mem_of_latest {txs : List (Hash243 × Hash8019)} {h : Hash243} {t : Hash8019}
    (hlatest : latest txs h = some t) : (h, t) ∈ txs := by
  obtain ⟨⟨h', t'⟩, hfind, rfl⟩ := Option.map_eq_some_iff.mp hlatest
  obtain rfl : h' = h := by simpa using List.find?_some hfind
  exact List.mem_reverse.mp (List.mem_of_find?_eq_some hfind)

/-- Where every hash was inserted, every hash is read. -/
theorem ReadBack.of_inserted {txs : List (Hash243 × Hash8019)} {hs : List Hash243}
    {ts : List Hash8019} {ret : Except Status Unit} {P : Hash8019 → Prop}
    (heq : ∀ h t t', (h, t) ∈ txs → (h, t') ∈ txs → t = t')
    (hall : ∀ h ∈ hs, ∃ t, (h, t) ∈ txs ∧ P t) (hread : ReadBack txs hs ts ret) :
    ret = .ok () ∧ List.Forall₂ (fun h t => (h, t) ∈ txs ∧ P t) hs ts := by
  induction hread with
  | done => exact ⟨rfl, .nil⟩
  | stored hlatest _ ih =>
      rw [List.forall_mem_cons] at hall
      obtain ⟨⟨t, ht, hP⟩, hall⟩ := hall
      obtain rfl := heq _ _ _ ht (mem_of_latest hlatest)
      exact ⟨(ih hall).1, .cons ⟨ht, hP⟩ (ih hall).2⟩
  | approved hnot _ | missing hnot _ =>
      obtain ⟨t, ht, -⟩ := hall _ (List.mem_cons_self ..)
      exact absurd ⟨t, ht⟩ hnot

/-- No query failed. -/
def Answered (σ : List (Event reading)) : Prop := ∀ hash, ⟨.trytes hash, none⟩ ∉ σ

section Database

variable [LinearOrder Hash243] {T T' : TransactionTable} {txs : List (Hash243 × Hash8019)}
  {σ : List (Event reading)}

theorem Holds.trytes (hT : Holds T txs) (h : Hash243) :
    (T.row {} h).trytes = latest txs h :=
  congrArg (fun columns => columns.2.2.2) (hT.columns h)

/-- One hash. -/
theorem Holds.dbGetTrytes (hT : Holds T txs) {h : Hash243} {r : Except Status Hash8019}
    (hrun : Runs reader (dbGetTrytes h) T σ r T') (hσ : Answered σ) :
    T' = T ∧ ((∃ t, r = .ok t ∧ latest txs h = some t) ∨
      (¬ Inserted txs h ∧ Approved txs h ∧ r = .error .storageCassandraQueryFail) ∨
      ¬ Inserted txs h ∧ ¬ Approved txs h ∧ r = .error .cclientNotFound) := by
  obtain ⟨answer, σ₁, σ₂, T₁, rfl, hquery, hrest⟩ := (runs_bind ..).mp hrun
  obtain ⟨rfl, fails, hserve⟩ := (runs_command ..).mp hquery
  obtain ⟨hanswer, rfl⟩ := Prod.mk.inj hserve
  cases fails with
  | true =>
      cases hanswer
      exact absurd (List.mem_append_left _ (List.mem_singleton_self _)) (hσ h)
  | false =>
      have htrytes := hT.trytes h
      have hsome := hT.exists_row h
      rw [Table.row] at htrytes
      cases hget : T.get h with
      | none =>
          rw [hget] at hanswer htrytes hsome
          cases hanswer
          obtain ⟨-, rfl, rfl⟩ := (runs_pure ..).mp hrest
          obtain ⟨hnot, happ⟩ := not_or.mp (hsome.not.mp Bool.false_ne_true)
          exact ⟨rfl, Or.inr (Or.inr ⟨hnot, happ, rfl⟩)⟩
      | some row =>
          rw [hget] at hanswer htrytes hsome
          cases hanswer
          cases hrow : row.trytes with
          | none =>
              rw [Option.map_some, hrow] at hrest
              obtain ⟨-, rfl, rfl⟩ := (runs_pure ..).mp hrest
              have hnot := latest_eq_none_iff.mp (htrytes.symm.trans hrow)
              exact ⟨rfl, Or.inr (Or.inl ⟨hnot, (hsome.mp rfl).resolve_left hnot, rfl⟩)⟩
          | some t =>
              rw [Option.map_some, hrow] at hrest
              obtain ⟨-, rfl, rfl⟩ := (runs_pure ..).mp hrest
              exact ⟨rfl, Or.inl ⟨t, rfl, htrytes.symm.trans hrow⟩⟩

/-- All hashes of a request. -/
theorem Holds.dbClientGetTrytes (hT : Holds T txs) {hashes : List Hash243}
    {before res : List Hash8019} {ret : Except Status Unit}
    (hrun : Runs reader (dbClientGetTrytes hashes before) T σ (res, ret) T') (hσ : Answered σ) :
    ∃ ts, res = before ++ ts ∧ ReadBack txs hashes ts ret := by
  induction hashes generalizing before σ with
  | nil =>
      obtain ⟨-, hres, -⟩ := (runs_pure ..).mp hrun
      cases hres
      exact ⟨[], (List.append_nil _).symm, .done⟩
  | cons h hashes ih =>
      obtain ⟨r, σ₁, σ₂, T₁, rfl, hget, hrest⟩ := (runs_bind ..).mp hrun
      obtain ⟨rfl, hcases⟩ := hT.dbGetTrytes hget fun hash hmem =>
        hσ hash (List.mem_append_left _ hmem)
      rcases hcases with ⟨t, rfl, hlatest⟩ | ⟨hnot, happ, rfl⟩ | ⟨hnot, happ, rfl⟩
      · obtain ⟨ts, rfl, hts⟩ := ih hrest fun hash hmem => hσ hash (List.mem_append_right _ hmem)
        exact ⟨t :: ts, List.append_assoc .., .stored hlatest hts⟩
      · obtain ⟨-, hres, -⟩ := (runs_pure ..).mp hrest
        cases hres
        exact ⟨[], (List.append_nil _).symm, .approved hnot happ⟩
      · obtain ⟨-, hres, -⟩ := (runs_pure ..).mp hrest
        cases hres
        exact ⟨[], (List.append_nil _).symm, .missing hnot happ⟩

/-! ## What was found -/

/-- The trytes have the value. -/
def Criterion.Describes (t : Hash8019) : Criterion → Prop
  | .column (.bundle v) => bundleOf t = v
  | .column (.address v) => addressOf t = v
  | .column (.tag v) => tagOf t = v
  | .approvee h => Approves t h

/-- What matches a value was inserted and has that value. -/
theorem Holds.of_stored (hT : Holds T txs) {value : Criterion} {h : Hash243}
    (hmem : h ∈ stored T value) : ∃ t, (h, t) ∈ txs ∧ value.Describes t := by
  cases value with
  | approvee x => exact (hT.approvees x h).mp hmem
  | column condition =>
      obtain ⟨⟨k, row⟩, hrow, rfl⟩ := List.mem_map.mp hmem
      obtain ⟨hrow, hholds⟩ := List.mem_filter.mp hrow
      have hcolumns := hT.columns k
      rw [Table.row, Table.mem_rows_iff.mp hrow, Option.getD_some] at hcolumns
      cases hlatest : latest txs k with
      | none =>
          rw [hlatest] at hcolumns
          cases condition <;> simp_all [Row.columns, columnsOf, Where.holds]
      | some t =>
          rw [hlatest] at hcolumns
          refine ⟨t, mem_of_latest hlatest, ?_⟩
          cases condition <;> simp_all [Row.columns, columnsOf, Where.holds, Criterion.Describes]

/-- The loops push only what matches one of the values. -/
theorem exists_of_mem_collect {values : List Criterion} {res : List Hash243} {h : Hash243}
    (hmem : h ∈ (collect T values res).1) : h ∈ res ∨ ∃ value ∈ values, h ∈ matched T value := by
  induction values generalizing res with
  | nil => exact Or.inl hmem
  | cons value values ih =>
      rw [collect] at hmem
      split at hmem
      · exact Or.inl hmem
      · rcases ih hmem with hres | ⟨v, hv, hh⟩
        · refine (List.mem_append.mp hres).imp_right fun hh => ?_
          exact ⟨value, List.mem_cons_self .., hh⟩
        · exact Or.inr ⟨v, List.mem_cons_of_mem _ hv, hh⟩

theorem stored_of_matched {value : Criterion} {h : Hash243} (hmem : h ∈ matched T value) :
    h ∈ stored T value := by
  cases value with
  | column condition => exact List.mem_of_mem_take hmem
  | approvee x => exact hmem

end Database

/-- After any inserts into an empty table in which equal hashes come with equal trytes, and without
a failure of the database: a request for trytes gives the ones that were inserted, in the order of
the hashes, up to the first hash that was not inserted.  All hashes that a request for transactions
returns are read, and each of those transactions was inserted and has one of the values that were
asked for. -/
theorem reads_after_inserts [LinearOrder Hash243] {τ : List (Event cql)} {T : TransactionTable}
    (txs : List (Hash243 × Hash8019))
    (heq : ∀ h t t', (h, t) ∈ txs → (h, t') ∈ txs → t = t')
    (hinsert : Runs database (insertAll txs).run Table.empty τ (.ok ()) T) :
    (∀ hashes σ res ret T', Runs reader (dbClientGetTrytes hashes []) T σ (res, ret) T' →
      Answered σ → ReadBack txs hashes res ret) ∧
    ∀ req τ' hashes status T₁ σ res ret T₂,
      Runs database (dbClientFindTransactions req).run T τ' (.ok (hashes, status)) T₁ →
      NoFailure τ' → Runs reader (dbClientGetTrytes hashes []) T₁ σ (res, ret) T₂ → Answered σ →
      ret = .ok () ∧ List.Forall₂ (fun h t => (h, t) ∈ txs ∧
        ∃ value ∈ criteria req, value.Describes t) hashes res := by
  have hT := holds_of_insertAll hinsert
  have hread : ∀ hashes σ res ret T', Runs reader (dbClientGetTrytes hashes []) T σ (res, ret) T' →
      Answered σ → ReadBack txs hashes res ret := by
    intro hashes σ res ret T' hrun hσ
    obtain ⟨ts, rfl, hts⟩ := hT.dbClientGetTrytes hrun hσ
    exact hts
  refine ⟨hread, fun req τ' hashes status T₁ σ res ret T₂ hfind hτ' hget hσ => ?_⟩
  obtain ⟨hfound, rfl⟩ := returns_dbClientFindTransactions T req _ _ _ hfind hτ'
  refine (hread _ _ _ _ _ hget hσ).of_inserted heq fun h hh => ?_
  have hmem : h ∈ (collect T₁ (criteria req) []).1 := by
    rw [← Except.ok.inj hfound]
    exact hh
  obtain ⟨value, hvalue, hmatched⟩ := (exists_of_mem_collect hmem).resolve_left List.not_mem_nil
  obtain ⟨t, ht, hdescribes⟩ := hT.of_stored (stored_of_matched hmatched)
  exact ⟨t, ht, value, hvalue, hdescribes⟩

/-- The only transaction that was inserted is read back. -/
theorem reads_after_one_insert :
    letI := Sample.hashOrder
    ∃ τ T σ T', Runs database (insertAll [(Sample.ownHash, Sample.genesisTrytes)]).run Table.empty τ
        (.ok ()) T ∧
      Runs reader (dbClientGetTrytes [Sample.ownHash] []) T σ
        ([Sample.genesisTrytes], .ok ()) T' := by
  let := Sample.hashOrder
  obtain ⟨τ, T, hrun⟩ := Sample.runs_insertAll Table.empty
  obtain ⟨σ, ⟨res, ret⟩, T', hget, hσ⟩ : ∃ σ r T',
      Runs reader (dbClientGetTrytes [Sample.ownHash] []) T σ r T' ∧ Answered σ := by
    refine ⟨_, _, _, runs_exec (V := reader) _ (fun _ _ => false) T, fun hash hmem => ?_⟩
    refine forall_mem_exec (V := reader) (P := fun e => e ≠ ⟨.trytes hash, none⟩) _ T ?_ _ hmem rfl
    rintro _ ⟨c⟩ s heq
    cases heq
  have hread := (reads_after_inserts [(Sample.ownHash, Sample.genesisTrytes)]
    (by simp +contextual) hrun).1 _ _ _ _ _ hget hσ
  obtain ⟨rfl, hres⟩ := hread.of_inserted (P := fun _ => True) (by simp +contextual)
    (List.forall_mem_singleton.mpr ⟨_, List.mem_singleton_self _, trivial⟩)
  obtain ⟨t, ts, ⟨ht, -⟩, hnil, rfl⟩ := List.forall₂_cons_left_iff.mp hres
  cases List.forall₂_nil_left_iff.mp hnil
  cases List.mem_singleton.mp ht
  exact ⟨τ, T, σ, T', hrun, hget⟩

end TangleAccelerator.Permanode
