import TangleAccelerator.Permanode.Index

/-!
# Requests for transactions

`db_client_find_transactions` runs one query for each value of the request and returns at the first
that does not end with `SC_OK`.  A value that nothing matches ends with `SC_CCLIENT_NOT_FOUND`, so
it hides the values after it.
-/

namespace TangleAccelerator.Permanode

open Effect Cql

section Database

variable [LinearOrder Hash243] {T : TransactionTable}

/-! ## One value -/

/-- The stored hashes that match a value. -/
def stored (T : TransactionTable) : Criterion → List Hash243
  | .column condition => T.select condition.holds
  | .approvee hash => (T.row {} hash).approvees.toList

/-- The ones a query returns: at most `100` for a column. -/
def matched (T : TransactionTable) : Criterion → List Hash243
  | .column condition => (stored T (.column condition)).take 100
  | .approvee hash => stored T (.approvee hash)

theorem matched_eq_nil_iff {value : Criterion} : matched T value = [] ↔ stored T value = [] := by
  cases value with
  | column condition => simp [matched]
  | approvee hash => rfl

theorem returns_getHashes (T : TransactionTable) (value : Criterion) :
    Returns (getHashes value) T (matched T value, pushStatus (matched T value)) := by
  cases value with
  | column condition => exact (returns_issue (c := .hashes condition) rfl).bind (returns_pure _ T)
  | approvee hash =>
      have hrow : ((T.get hash).map fun row => row.approvees.toList).getD [] =
          matched T (.approvee hash) := by
        rw [matched, stored, Table.row]
        cases T.get hash <;> rfl
      have hissue := returns_issue (T := T) (c := .approvees hash) rfl
      exact hrow ▸ hissue.bind (returns_pure _ T)

/-! ## The loops -/

/-- What the loops push and return. -/
def collect (T : TransactionTable) :
    List Criterion → List Hash243 → List Hash243 × Except Status Unit
  | [], res => (res, .ok ())
  | value :: values, res =>
      if matched T value = [] then (res, .error .cclientNotFound)
      else collect T values (res ++ matched T value)

theorem returns_findLoop (T : TransactionTable) (values : List Criterion) (res : List Hash243) :
    Returns (findLoop values res) T (collect T values res) := by
  induction values generalizing res with
  | nil => exact returns_pure _ T
  | cons value values ih =>
      refine (returns_getHashes T value).bind ?_
      by_cases hnil : matched T value = []
      · rw [collect, if_pos hnil, pushStatus, if_pos hnil, hnil]
        simpa using returns_pure (res, Except.error Status.cclientNotFound) T
      · rw [collect, if_neg hnil, pushStatus, if_neg hnil]
        exact ih (res ++ matched T value)

/-- Where every value matches something, everything is collected. -/
theorem collect_of_forall {values : List Criterion} (h : ∀ value ∈ values, stored T value ≠ [])
    (res : List Hash243) :
    collect T values res = (res ++ values.flatMap (matched T), .ok ()) := by
  induction values generalizing res with
  | nil => rw [collect, List.flatMap_nil, List.append_nil]
  | cons value values ih =>
      have hmatched : matched T value ≠ [] := fun hnil =>
        h value List.mem_cons_self (matched_eq_nil_iff.mp hnil)
      rw [collect, if_neg hmatched, ih fun v hv => h v (List.mem_cons_of_mem _ hv),
        List.flatMap_cons, List.append_assoc]

/-- Where a value matches nothing, the status says so. -/
theorem collect_of_exists {values : List Criterion} (h : ∃ value ∈ values, stored T value = [])
    (res : List Hash243) : (collect T values res).2 = .error .cclientNotFound := by
  induction values generalizing res with
  | nil =>
      obtain ⟨value, hmem, -⟩ := h
      exact absurd hmem List.not_mem_nil
  | cons value values ih =>
      rw [collect]
      split
      case isTrue => rfl
      case isFalse hne =>
        obtain ⟨v, hmem, hv⟩ := h
        rcases List.mem_cons.mp hmem with rfl | hmem
        · exact absurd (matched_eq_nil_iff.mpr hv) hne
        · exact ih ⟨v, hmem, hv⟩ _

/-- Where no value matches anything, nothing is collected. -/
theorem collect_of_none {values : List Criterion} (h : ∀ value ∈ values, stored T value = [])
    (res : List Hash243) : (collect T values res).1 = res := by
  cases values with
  | nil => rfl
  | cons value values =>
      rw [collect, if_pos (matched_eq_nil_iff.mpr (h value List.mem_cons_self))]

/-! ## Requests -/

/-- The answer to a request is complete: it has what every value matches, it is not a failure if
something matches, and its hashes do not depend on the order of the values. -/
structure Complete (T : TransactionTable) (req : FindTransactionsReq) (res : List Hash243)
    (status : Except Status Unit) : Prop where
  collected (h : Hash243) : h ∈ res ↔ ∃ value ∈ criteria req, h ∈ matched T value
  notFound : status = .error .cclientNotFound → ∀ value ∈ criteria req, stored T value = []
  unordered (req' : FindTransactionsReq) (hperm : (criteria req').Perm (criteria req))
    (τ : List (Event cql)) (res' : List Hash243) (status' : Except Status Unit)
    (T' : TransactionTable)
    (hrun : Runs database (dbClientFindTransactions req').run T τ (.ok (res', status')) T')
    (hτ : NoFailure τ) (h : Hash243) : h ∈ res' ↔ h ∈ res

/-- The values of a request all match something, or none does. -/
def AllOrNone (T : TransactionTable) (values : List Criterion) : Prop :=
  (∀ value ∈ values, stored T value ≠ []) ∨ ∀ value ∈ values, stored T value = []

theorem mem_collect {values : List Criterion} (hall : AllOrNone T values) (h : Hash243) :
    h ∈ (collect T values []).1 ↔ ∃ value ∈ values, h ∈ matched T value := by
  rcases hall with hall | hnone
  · rw [collect_of_forall hall, List.nil_append, List.mem_flatMap]
  · rw [collect_of_none hnone]
    refine iff_of_false List.not_mem_nil ?_
    rintro ⟨value, hmem, hh⟩
    rw [matched_eq_nil_iff.mpr (hnone value hmem)] at hh
    exact List.not_mem_nil hh

theorem AllOrNone.perm {values values' : List Criterion} (hall : AllOrNone T values)
    (hperm : values'.Perm values) : AllOrNone T values' :=
  hall.imp (fun h value hmem => h value (hperm.mem_iff.mp hmem))
    fun h value hmem => h value (hperm.mem_iff.mp hmem)

theorem returns_dbClientFindTransactions (T : TransactionTable) (req : FindTransactionsReq) :
    Returns (dbClientFindTransactions req) T (collect T (criteria req) []) :=
  returns_findLoop T (criteria req) []

theorem complete_of_allOrNone {req : FindTransactionsReq} (hall : AllOrNone T (criteria req)) :
    Complete T req (collect T (criteria req) []).1 (collect T (criteria req) []).2 where
  collected := mem_collect hall
  notFound hstatus := by
    rcases hall with hall | hnone
    · rw [collect_of_forall hall] at hstatus
      cases hstatus
    · exact hnone
  unordered req' hperm τ res' status' T' hrun hτ h := by
    obtain ⟨hres, -⟩ := returns_dbClientFindTransactions T req' _ _ _ hrun hτ
    obtain rfl : res' = (collect T (criteria req') []).1 :=
      congrArg Prod.fst (Except.ok.inj hres)
    rw [mem_collect hall, mem_collect (hall.perm hperm)]
    simp only [hperm.mem_iff]

end Database

namespace Sample

/-- A table with one transaction, whose bundle is the null hash. -/
def oneRow : letI := hashOrder; TransactionTable :=
  letI := hashOrder
  Table.empty.upsert {} ownHash (·.setTransaction genesisTrytes)

theorem bundleOf_genesisTrytes : bundleOf genesisTrytes = Vector.replicate 81 0 :=
  Vector.ext fun i hi => by simp [bundleOf, slice, genesisTrytes]

theorem stored_oneRow (b : Hash243) :
    letI := hashOrder
    stored oneRow (.column (.bundle b)) = if Vector.replicate 81 0 = b then [ownHash] else [] := by
  let := hashOrder
  rw [stored, oneRow, Table.select_upsert_empty, Where.holds, Row.setTransaction,
    bundleOf_genesisTrytes]
  simp only [beq_iff_eq, Option.some.injEq]

end Sample

end TangleAccelerator.Permanode
