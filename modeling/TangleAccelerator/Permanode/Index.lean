import Mathlib
import TangleAccelerator.Permanode.Storage

/-!
# What the permanode holds

The table after any inserts, read off the transactions that were inserted.  A row is there if its
hash was inserted, or if it is the trunk or the branch of a transaction that was.  Its columns come
from its own transaction and its approvees from the transactions that approve it, so neither the
order of the inserts nor their number matters.

`db_client_get_inclusion_states` asks whether there is a row, so it also reports the trunks and
branches.
-/

namespace TangleAccelerator.Permanode

open Effect Cql

/-! ## The transactions that are inserted -/

/-- Inserts, one after the other. -/
def insertAll : List (Hash243 × Hash8019) → DbProc Unit
  | [] => pure ()
  | (hash, trytes) :: txs => do
      dbPermanodeInsertTransaction hash trytes
      insertAll txs

/-- A transaction with this hash was inserted. -/
def Inserted (txs : List (Hash243 × Hash8019)) (h : Hash243) : Prop := ∃ t, (h, t) ∈ txs

/-- The transaction approves `x`: `x` is its trunk or its branch. -/
def Approves (trytes : Hash8019) (x : Hash243) : Prop :=
  trunkOf trytes = x ∨ branchOf trytes = x

/-- A transaction that approves this hash was inserted. -/
def Approved (txs : List (Hash243 × Hash8019)) (x : Hash243) : Prop :=
  ∃ h t, (h, t) ∈ txs ∧ Approves t x

/-- The trytes that were inserted last for a hash. -/
def latest (txs : List (Hash243 × Hash8019)) (h : Hash243) : Option Hash8019 :=
  (txs.reverse.find? fun x => x.1 = h).map Prod.snd

theorem latest_concat_self (txs : List (Hash243 × Hash8019)) (h : Hash243) (t : Hash8019) :
    latest (txs ++ [(h, t)]) h = some t := by
  simp [latest]

theorem latest_concat_of_ne (txs : List (Hash243 × Hash8019)) {h k : Hash243} (t : Hash8019)
    (hk : k ≠ h) : latest (txs ++ [(h, t)]) k = latest txs k := by
  simp [latest, hk.symm]

/-- Where equal hashes come with equal trytes, the last ones are the ones. -/
theorem latest_eq_some_iff {txs : List (Hash243 × Hash8019)}
    (heq : ∀ h t t', (h, t) ∈ txs → (h, t') ∈ txs → t = t') {h : Hash243} {t : Hash8019} :
    latest txs h = some t ↔ (h, t) ∈ txs := by
  have hsound : ∀ t, latest txs h = some t → (h, t) ∈ txs := by
    intro t ht
    obtain ⟨⟨h', t'⟩, hfind, rfl⟩ := Option.map_eq_some_iff.mp ht
    obtain rfl : h' = h := by simpa using List.find?_some hfind
    exact List.mem_reverse.mp (List.mem_of_find?_eq_some hfind)
  refine ⟨hsound t, fun ht => ?_⟩
  cases hl : latest txs h with
  | some t' => rw [heq h t' t (hsound t' hl) ht]
  | none =>
      rw [latest, Option.map_eq_none_iff, List.find?_eq_none] at hl
      exact absurd (decide_eq_true rfl) (hl (h, t) (List.mem_reverse.mpr ht))

section Database

variable [LinearOrder Hash243]

/-! ## One insert -/

/-- The columns of a transaction. -/
def Row.setTransaction (row : Row) (trytes : Hash8019) : Row :=
  { row with
    bundle := some (bundleOf trytes)
    address := some (addressOf trytes)
    tag := some (tagOf trytes)
    trytes := some trytes }

/-- One more approvee. -/
def Row.addApprovee (row : Row) (approvee : Hash243) : Row :=
  { row with approvees := row.approvees.add approvee }

/-- The table after a transaction was inserted. -/
def inserted (T : TransactionTable) (hash : Hash243) (trytes : Hash8019) : TransactionTable :=
  ((T.upsert {} hash (·.setTransaction trytes)).upsert {} (trunkOf trytes)
    (·.addApprovee hash)).upsert {} (branchOf trytes) (·.addApprovee hash)

variable {T T' : TransactionTable} {τ : List (Event cql)}

theorem runs_issue {c : Statement} {r : Except Status c.Ans} :
    Runs database (issue c).run T τ r T' ↔
      ∃ a, r = .ok a ∧ τ = [⟨c, a⟩] ∧ database.Serves T ⟨c, a⟩ T' := by
  rw [issue, runs_run_lift]
  exact exists_congr fun a => and_congr_right fun _ => runs_command (V := database) c T T' τ a

/-- A statement whose answer is not that of a failure was executed. -/
theorem serves_of_ne_failed {c : Statement} {a : c.Ans} (h : database.Serves T ⟨c, a⟩ T')
    (ha : a ≠ c.failed) : (a, T') = execute c T := by
  obtain ⟨fails, h⟩ := h
  cases fails with
  | false => exact h.symm
  | true => exact absurd (congrArg Prod.fst h).symm ha

/-- A statement that writes, and is checked. -/
theorem runs_ensure_issue {c : Statement} (f : c.Ans → Bool) (hf : f c.failed = false)
    (h : Runs database (do ensure (f (← issue c)) .storageCassandraQueryFail : DbProc Unit).run T τ
      (.ok ()) T') : T' = (execute c T).2 := by
  obtain ⟨a, τ₁, τ₂, T₁, -, hissue, hensure⟩ := (runs_run_bind_ok ..).mp h
  obtain ⟨a', ha, -, hserves⟩ := runs_issue.mp hissue
  cases ha
  obtain ⟨-, hok, rfl⟩ := (runs_run_ensure ..).mp hensure
  have hne : a ≠ c.failed := by
    rintro rfl
    rw [hf] at hok
    cases hok
  rw [← serves_of_ne_failed hserves hne]

theorem runs_insertTransaction {hash : Hash243} {trytes : Hash8019}
    (h : Runs database (insertTransaction hash trytes).run T τ (.ok ()) T') :
    T' = T.upsert {} hash (·.setTransaction trytes) :=
  runs_ensure_issue (c := .setTransaction ..) id rfl h

theorem runs_insertApprovee {hash approvee : Hash243}
    (h : Runs database (insertApprovee hash approvee).run T τ (.ok ()) T') :
    T' = T.upsert {} hash (·.addApprovee approvee) :=
  runs_ensure_issue (c := .addApprovee ..) id rfl h

theorem runs_dbPermanodeInsertTransaction {hash : Hash243} {trytes : Hash8019}
    (h : Runs database (dbPermanodeInsertTransaction hash trytes).run T τ (.ok ()) T') :
    T' = inserted T hash trytes := by
  obtain ⟨⟨⟩, τ₁, τ₂, T₁, -, h₁, h⟩ := (runs_run_bind_ok ..).mp h
  obtain ⟨⟨⟩, τ₃, τ₄, T₂, -, h₂, h₃⟩ := (runs_run_bind_ok ..).mp h
  rw [runs_insertApprovee h₃, runs_insertApprovee h₂, runs_insertTransaction h₁, inserted]

/-! ## What one insert changes -/

/-- The columns that `insert_transaction` writes. -/
def Row.columns (row : Row) :
    Option Hash243 × Option Hash243 × Option Hash81 × Option Hash8019 :=
  (row.address, row.bundle, row.tag, row.trytes)

/-- The columns of a transaction, where there is one. -/
def columnsOf (trytes : Option Hash8019) :
    Option Hash243 × Option Hash243 × Option Hash81 × Option Hash8019 :=
  (trytes.map addressOf, trytes.map bundleOf, trytes.map tagOf, trytes)

@[simp] theorem Row.columns_setTransaction (row : Row) (trytes : Hash8019) :
    (row.setTransaction trytes).columns = columnsOf (some trytes) := rfl

@[simp] theorem Row.columns_addApprovee (row : Row) (approvee : Hash243) :
    (row.addApprovee approvee).columns = row.columns := rfl

@[simp] theorem Row.approvees_setTransaction (row : Row) (trytes : Hash8019) :
    (row.setTransaction trytes).approvees = row.approvees := rfl

@[simp] theorem Row.mem_approvees_addApprovee (row : Row) (approvee h : Hash243) :
    h ∈ (row.addApprovee approvee).approvees.toList ↔ h = approvee ∨ h ∈ row.approvees.toList :=
  KeySet.mem_add

theorem Row.ext_columns {row row' : Row} (hcolumns : row.columns = row'.columns)
    (happrovees : ∀ h, h ∈ row.approvees.toList ↔ h ∈ row'.approvees.toList) : row = row' := by
  obtain ⟨address, bundle, tag, approvees, trytes⟩ := row
  obtain ⟨address', bundle', tag', approvees', trytes'⟩ := row'
  obtain rfl : approvees = approvees' := KeySet.ext_mem happrovees
  simp only [Row.columns, Prod.mk.injEq] at hcolumns
  obtain ⟨rfl, rfl, rfl, rfl⟩ := hcolumns
  rfl

theorem columns_upsert_addApprovee (T : TransactionTable) (x approvee k : Hash243) :
    ((T.upsert {} x (·.addApprovee approvee)).row {} k).columns = (T.row {} k).columns := by
  rw [Table.row_upsert]
  split
  · exact Row.columns_addApprovee ..
  · rfl

theorem mem_approvees_upsert_addApprovee (T : TransactionTable) (x approvee k h : Hash243) :
    h ∈ ((T.upsert {} x (·.addApprovee approvee)).row {} k).approvees.toList ↔
      (h = approvee ∧ x = k) ∨ h ∈ (T.row {} k).approvees.toList := by
  rw [Table.row_upsert]
  split
  case isTrue hk =>
    rw [Row.mem_approvees_addApprovee, and_iff_left hk.symm]
  case isFalse hk =>
    rw [or_iff_right (fun hx => hk hx.2.symm)]

theorem approvees_upsert_setTransaction (T : TransactionTable) (hash k : Hash243)
    (trytes : Hash8019) :
    ((T.upsert {} hash (·.setTransaction trytes)).row {} k).approvees =
      (T.row {} k).approvees := by
  rw [Table.row_upsert]
  split
  · exact Row.approvees_setTransaction ..
  · rfl

theorem isSome_get_inserted (T : TransactionTable) (hash k : Hash243) (trytes : Hash8019) :
    ((inserted T hash trytes).get k).isSome = true ↔
      (hash = k ∨ Approves trytes k) ∨ (T.get k).isSome = true := by
  unfold inserted Approves
  generalize trunkOf trytes = trunk, branchOf trytes = branch
  rw [Table.isSome_get_upsert, Table.isSome_get_upsert, Table.isSome_get_upsert, @eq_comm _ hash,
    @eq_comm _ trunk, @eq_comm _ branch]
  tauto

theorem columns_inserted_self (T : TransactionTable) (hash : Hash243) (trytes : Hash8019) :
    ((inserted T hash trytes).row {} hash).columns = columnsOf (some trytes) := by
  rw [inserted, columns_upsert_addApprovee, columns_upsert_addApprovee, Table.row_upsert,
    if_pos rfl, Row.columns_setTransaction]

theorem columns_inserted_of_ne (T : TransactionTable) {hash k : Hash243} (trytes : Hash8019)
    (hk : k ≠ hash) : ((inserted T hash trytes).row {} k).columns = (T.row {} k).columns := by
  rw [inserted, columns_upsert_addApprovee, columns_upsert_addApprovee, Table.row_upsert, if_neg hk]

theorem mem_approvees_inserted (T : TransactionTable) (hash k h : Hash243) (trytes : Hash8019) :
    h ∈ ((inserted T hash trytes).row {} k).approvees.toList ↔
      (h = hash ∧ Approves trytes k) ∨ h ∈ (T.row {} k).approvees.toList := by
  unfold inserted Approves
  generalize trunkOf trytes = trunk, branchOf trytes = branch
  rw [mem_approvees_upsert_addApprovee, mem_approvees_upsert_addApprovee,
    approvees_upsert_setTransaction]
  tauto

/-! ## Any inserts -/

/-- The table holds what was inserted, and nothing else. -/
structure Holds (T : TransactionTable) (txs : List (Hash243 × Hash8019)) : Prop where
  exists_row (k : Hash243) : (T.get k).isSome = true ↔ Inserted txs k ∨ Approved txs k
  columns (k : Hash243) : (T.row {} k).columns = columnsOf (latest txs k)
  approvees (k h : Hash243) :
    h ∈ (T.row {} k).approvees.toList ↔ ∃ t, (h, t) ∈ txs ∧ Approves t k

theorem holds_empty : Holds Table.empty [] where
  exists_row k := by simp [Inserted, Approved]
  columns k := rfl
  approvees k h := by simp [Table.row]

theorem Holds.insert {txs : List (Hash243 × Hash8019)} (hT : Holds T txs) (hash : Hash243)
    (trytes : Hash8019) : Holds (inserted T hash trytes) (txs ++ [(hash, trytes)]) where
  exists_row k := by
    rw [isSome_get_inserted, hT.exists_row]
    simp only [Inserted, Approved, List.mem_append, List.mem_singleton, Prod.mk.injEq]
    constructor
    · rintro ((rfl | happ) | ⟨t, ht⟩ | ⟨h, t, ht, happ⟩)
      · exact Or.inl ⟨trytes, Or.inr ⟨rfl, rfl⟩⟩
      · exact Or.inr ⟨hash, trytes, Or.inr ⟨rfl, rfl⟩, happ⟩
      · exact Or.inl ⟨t, Or.inl ht⟩
      · exact Or.inr ⟨h, t, Or.inl ht, happ⟩
    · rintro (⟨t, ht | ⟨rfl, rfl⟩⟩ | ⟨h, t, ht | ⟨rfl, rfl⟩, happ⟩)
      · exact Or.inr (Or.inl ⟨t, ht⟩)
      · exact Or.inl (Or.inl rfl)
      · exact Or.inr (Or.inr ⟨h, t, ht, happ⟩)
      · exact Or.inl (Or.inr happ)
  columns k := by
    by_cases hk : k = hash
    · rw [hk, columns_inserted_self, latest_concat_self]
    · rw [columns_inserted_of_ne T trytes hk, latest_concat_of_ne txs trytes hk, hT.columns]
  approvees k h := by
    rw [mem_approvees_inserted, hT.approvees]
    simp only [List.mem_append, List.mem_singleton, Prod.mk.injEq]
    constructor
    · rintro (⟨rfl, happ⟩ | ⟨t, ht, happ⟩)
      · exact ⟨trytes, Or.inr ⟨rfl, rfl⟩, happ⟩
      · exact ⟨t, Or.inl ht, happ⟩
    · rintro ⟨t, ht | ⟨rfl, rfl⟩, happ⟩
      · exact Or.inr ⟨t, ht, happ⟩
      · exact Or.inl ⟨rfl, happ⟩

theorem Holds.insertAll {txs : List (Hash243 × Hash8019)} (hT : Holds T txs)
    (txs' : List (Hash243 × Hash8019))
    (h : Runs database (insertAll txs').run T τ (.ok ()) T') : Holds T' (txs ++ txs') := by
  induction txs' generalizing T txs τ with
  | nil =>
      obtain ⟨-, -, rfl⟩ := (runs_run_pure ..).mp h
      rwa [List.append_nil]
  | cons x txs' ih =>
      obtain ⟨⟨⟩, τ₁, τ₂, T₁, -, h₁, h₂⟩ := (runs_run_bind_ok ..).mp h
      rw [runs_dbPermanodeInsertTransaction h₁] at h₂
      have hall := ih (hT.insert x.1 x.2) h₂
      rwa [List.append_assoc] at hall

/-- The table after inserts into an empty one. -/
theorem holds_of_insertAll {txs : List (Hash243 × Hash8019)}
    (h : Runs database (insertAll txs).run Table.empty τ (.ok ()) T) : Holds T txs :=
  holds_empty.insertAll txs h

/-- Tables that hold the same transactions are equal. -/
theorem Holds.unique {txs txs' : List (Hash243 × Hash8019)} (hT : Holds T txs)
    (hT' : Holds T' txs') (heq : ∀ h t t', (h, t) ∈ txs → (h, t') ∈ txs → t = t')
    (hmem : ∀ x, x ∈ txs' ↔ x ∈ txs) : T' = T := by
  have heq' : ∀ h t t', (h, t) ∈ txs' → (h, t') ∈ txs' → t = t' := fun h t t' ht ht' =>
    heq h t t' ((hmem _).mp ht) ((hmem _).mp ht')
  have hlatest : ∀ h, latest txs' h = latest txs h := by
    intro h
    ext t
    rw [latest_eq_some_iff heq, latest_eq_some_iff heq', hmem]
  have hrow : ∀ k, T'.row {} k = T.row {} k := fun k =>
    Row.ext_columns (by rw [hT.columns, hT'.columns, hlatest])
      fun h => by simp only [hT.approvees, hT'.approvees, hmem]
  have hsome : ∀ k, (T'.get k).isSome = true ↔ (T.get k).isSome = true := by
    intro k
    simp only [hT.exists_row, hT'.exists_row, Inserted, Approved, hmem]
  refine Table.ext_get fun k => ?_
  have hk := hrow k
  have hs := hsome k
  rw [Table.row, Table.row] at hk
  cases hget : T.get k <;> cases hget' : T'.get k <;> simp_all

/-! ## Queries -/

/-- No statement failed. -/
def NoFailure (τ : List (Event cql)) : Prop := ∀ e ∈ τ, e.ans ≠ e.cmd.failed

/-- Where no statement fails the program returns this value, and changes nothing. -/
def Returns {α : Type} (x : DbProc α) (T : TransactionTable) (a : α) : Prop :=
  ∀ τ r T', Runs database x.run T τ r T' → NoFailure τ → r = .ok a ∧ T' = T

theorem returns_pure {α : Type} (a : α) (T : TransactionTable) : Returns (pure a) T a := by
  intro τ r T' h _
  obtain ⟨-, hr, rfl⟩ := (runs_run_pure ..).mp h
  exact ⟨hr, rfl⟩

theorem Returns.bind {α β : Type} {x : DbProc α} {f : α → DbProc β} {a : α} {b : β}
    (hx : Returns x T a) (hf : Returns (f a) T b) : Returns (x >>= f) T b := by
  intro τ r T' h hτ
  rcases (runs_run_bind ..).mp h with ⟨e, -, h⟩ | ⟨a', τ₁, τ₂, T₁, rfl, h₁, h₂⟩
  · exact absurd (hx _ _ _ h hτ).1 (by simp)
  · obtain ⟨hr, rfl⟩ := hx _ _ _ h₁ fun e he => hτ e (List.mem_append_left _ he)
    cases hr
    exact hf _ _ _ h₂ fun e he => hτ e (List.mem_append_right _ he)

/-- A statement that reads. -/
theorem returns_issue {c : Statement} (hc : (execute c T).2 = T) :
    Returns (issue c) T (execute c T).1 := by
  intro τ r T' h hτ
  obtain ⟨a, rfl, rfl, hserves⟩ := runs_issue.mp h
  have hexec := serves_of_ne_failed hserves (hτ ⟨c, a⟩ (List.mem_singleton_self _))
  rw [← hexec] at hc ⊢
  exact ⟨rfl, hc⟩

theorem noFailure_exec {α : Type} (p : Prog cql α) (T : TransactionTable) :
    NoFailure (exec database p (fun _ _ => false) T).1 := by
  refine forall_mem_exec (V := database) p T fun _ c _ => ?_
  cases c <;> simp [execute, Statement.failed]

theorem returns_getInclusionStatusFromTransactionTable (T : TransactionTable) (hash : Hash243) :
    Returns (getInclusionStatusFromTransactionTable hash) T (T.get hash).isSome := by
  refine (returns_issue (c := .count hash) rfl).bind ((returns_pure _ T).bind ?_)
  cases h : (T.get hash).isSome
  · simpa [h] using returns_pure false T
  · simpa [h] using returns_pure true T

/-- `db_client_get_inclusion_states` reports the hashes that have a row. -/
theorem returns_dbClientGetInclusionStates (T : TransactionTable) (hashes : List Hash243) :
    Returns (dbClientGetInclusionStates hashes) T (hashes.map fun h => (T.get h).isSome) := by
  induction hashes with
  | nil => exact returns_pure [] T
  | cons hash hashes ih =>
      exact (returns_getInclusionStatusFromTransactionTable T hash).bind
        (ih.bind (returns_pure _ T))

end Database

/-! ## The index -/

namespace Sample

/-- Hashes in the order of their trytes. -/
@[reducible] def hashOrder : LinearOrder Hash243 :=
  LinearOrder.lift' Vector.toList fun _ _ => Vector.toList_inj.mp

/-- The hash of a transaction. -/
def ownHash : Hash243 := Vector.replicate 81 1

/-- The trytes of a transaction whose trunk and branch are the null hash. -/
def genesisTrytes : Hash8019 := Vector.replicate 2673 0

theorem approves_genesisTrytes : Approves genesisTrytes (Vector.replicate 81 0) :=
  Or.inl (Vector.ext fun i hi => by simp [trunkOf, slice, genesisTrytes])

/-- The insert of the transaction. -/
theorem runs_insertAll [LinearOrder Hash243] (T : TransactionTable) :
    ∃ τ T', Runs database (insertAll [(ownHash, genesisTrytes)]).run T τ (.ok ()) T' :=
  ⟨_, _, runs_exec (V := database) (insertAll [(ownHash, genesisTrytes)]).run (fun _ _ => false) T⟩

end Sample

/-- The index after any inserts into an empty table in which equal hashes come with equal trytes:
the columns of every transaction, the approvees of every hash, and that neither the order of the
inserts nor their repetition matters. -/
theorem index_of_inserts [LinearOrder Hash243] {τ : List (Event cql)} {T : TransactionTable}
    (txs : List (Hash243 × Hash8019))
    (heq : ∀ h t t', (h, t) ∈ txs → (h, t') ∈ txs → t = t')
    (hrun : Runs database (insertAll txs).run Table.empty τ (.ok ()) T) :
    (∀ h t, (h, t) ∈ txs → ∃ row, T.get h = some row ∧ row.trytes = some t ∧
      row.address = some (slice t 2187 81 (by decide)) ∧
      row.bundle = some (slice t 2349 81 (by decide)) ∧
      row.tag = some (slice t 2295 27 (by decide))) ∧
    (∀ x h, h ∈ (T.row {} x).approvees.toList ↔
      ∃ t, (h, t) ∈ txs ∧ (slice t 2430 81 (by decide) = x ∨ slice t 2511 81 (by decide) = x)) ∧
    ∀ txs' τ' T', (∀ x, x ∈ txs' ↔ x ∈ txs) →
      Runs database (insertAll txs').run Table.empty τ' (.ok ()) T' → T' = T := by
  have hT := holds_of_insertAll hrun
  refine ⟨fun h t ht => ?_, hT.approvees, fun txs' τ' T' hmem hrun' =>
    hT.unique (holds_of_insertAll hrun') heq hmem⟩
  obtain ⟨row, hrow⟩ := Option.isSome_iff_exists.mp ((hT.exists_row h).mpr (Or.inl ⟨t, ht⟩))
  have hcolumns := hT.columns h
  rw [Table.row, hrow, (latest_eq_some_iff heq).mpr ht] at hcolumns
  simp only [Option.getD_some, Row.columns, columnsOf, Option.map_some, Prod.mk.injEq] at hcolumns
  obtain ⟨haddress, hbundle, htag, htrytes⟩ := hcolumns
  exact ⟨row, hrow, htrytes, haddress, hbundle, htag⟩

/-- One transaction, inserted once. -/
theorem index_of_one_insert :
    letI := Sample.hashOrder
    ∃ τ T, Runs database (insertAll [(Sample.ownHash, Sample.genesisTrytes)]).run Table.empty τ
        (.ok ()) T ∧
      ∃ row, T.get Sample.ownHash = some row ∧ row.trytes = some Sample.genesisTrytes := by
  let := Sample.hashOrder
  obtain ⟨τ, T, hrun⟩ := Sample.runs_insertAll Table.empty
  obtain ⟨row, hrow, htrytes, -⟩ := (index_of_inserts [(Sample.ownHash, Sample.genesisTrytes)]
    (by simp +contextual) hrun).1 _ _ (List.mem_singleton_self _)
  exact ⟨τ, T, hrun, row, hrow, htrytes⟩

/-- After any inserts into an empty table a hash is reported true exactly if it was inserted, where
it is not the trunk or the branch of an inserted transaction without having been inserted itself,
and only there. -/
theorem inclusion_iff [LinearOrder Hash243] {τ σ : List (Event cql)} {T T' : TransactionTable}
    {r : Except Status (List Bool)} (txs : List (Hash243 × Hash8019)) (hashes : List Hash243)
    (hinsert : Runs database (insertAll txs).run Table.empty τ (.ok ()) T)
    (hget : Runs database (dbClientGetInclusionStates hashes).run T σ r T')
    (hσ : NoFailure σ) :
    ∃ states, r = .ok states ∧ List.Forall₂ (fun h state =>
      ((state = true ↔ Inserted txs h) ↔ (Approved txs h → Inserted txs h))) hashes states := by
  obtain ⟨hr, -⟩ := returns_dbClientGetInclusionStates T hashes _ _ _ hget hσ
  refine ⟨_, hr, ?_⟩
  have hT := holds_of_insertAll hinsert
  rw [List.forall₂_map_right_iff, List.forall₂_same]
  intro h _
  rw [hT.exists_row h]
  tauto

/-- The hash of the only transaction that was inserted is reported true. -/
theorem inclusion_of_inserted :
    letI := Sample.hashOrder
    ∃ τ T σ, Runs database (insertAll [(Sample.ownHash, Sample.genesisTrytes)]).run Table.empty τ
        (.ok ()) T ∧
      Runs database (dbClientGetInclusionStates [Sample.ownHash]).run T σ (.ok [true]) T := by
  let := Sample.hashOrder
  obtain ⟨τ, T, hrun⟩ := Sample.runs_insertAll Table.empty
  have hget := runs_exec (V := database) (dbClientGetInclusionStates [Sample.ownHash]).run
    (fun _ _ => false) T
  obtain ⟨states, hr, hstates⟩ := inclusion_iff [(Sample.ownHash, Sample.genesisTrytes)]
    [Sample.ownHash] hrun hget (noFailure_exec _ T)
  have hinserted : Inserted [(Sample.ownHash, Sample.genesisTrytes)] Sample.ownHash :=
    ⟨_, List.mem_singleton_self _⟩
  obtain ⟨state, states, hstate, hnil, rfl⟩ := List.forall₂_cons_left_iff.mp hstates
  cases List.forall₂_nil_left_iff.mp hnil
  rw [(hstate.mpr fun _ => hinserted).mpr hinserted] at hr
  rw [hr] at hget
  exact ⟨τ, T, _, hrun, hget⟩

/-- The null hash was never inserted, but it is the trunk of the only transaction that was, and it
is reported true. -/
theorem inclusion_of_trunk :
    letI := Sample.hashOrder
    ∃ τ T σ, Runs database (insertAll [(Sample.ownHash, Sample.genesisTrytes)]).run Table.empty τ
        (.ok ()) T ∧
      Runs database (dbClientGetInclusionStates [Vector.replicate 81 0]).run T σ (.ok [true]) T ∧
      NoFailure σ ∧
      ¬ Inserted [(Sample.ownHash, Sample.genesisTrytes)] (Vector.replicate 81 0) := by
  let := Sample.hashOrder
  obtain ⟨τ, T, hrun⟩ := Sample.runs_insertAll Table.empty
  have hget := runs_exec (V := database)
    (dbClientGetInclusionStates [Vector.replicate 81 0]).run (fun _ _ => false) T
  have hsome : (T.get (Vector.replicate 81 0)).isSome = true :=
    ((holds_of_insertAll hrun).exists_row _).mpr
      (Or.inr ⟨_, _, List.mem_singleton_self _, Sample.approves_genesisTrytes⟩)
  obtain ⟨hr, hT⟩ := returns_dbClientGetInclusionStates T [Vector.replicate 81 0] _ _ _ hget
    (noFailure_exec _ T)
  rw [hr, hT, List.map_singleton, hsome] at hget
  refine ⟨τ, T, _, hrun, hget, noFailure_exec _ T, ?_⟩
  rintro ⟨t, ht⟩
  have hhash : Vector.replicate 81 0 = Sample.ownHash :=
    congrArg Prod.fst (List.mem_singleton.mp ht)
  exact absurd hhash (by decide)

end TangleAccelerator.Permanode
