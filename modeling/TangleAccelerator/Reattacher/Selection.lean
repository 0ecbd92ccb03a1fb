import TangleAccelerator.Bytes.Block
import TangleAccelerator.Reattacher.Run

/-!
# Selections from the table `identity`

`db_get_identity_objs_by_status`, `db_get_identity_objs_by_uuid_string` and
`db_get_identity_objs_by_hash` of `scylladb_identity.c`, for any content of the table.  A column may
be null, a blob may have any length, and a `tinyint` any value.

`get_identity_array` looks at the array to find out whether there was a row.  An array that was not
empty before hides that there was none, and that the query failed.  The setters check the columns
and their status is dropped, so that a row they refuse is appended with zeros in its place.

What `cass_uuid_from_string` reads is a parameter.  Where it reads nothing, the ID that is asked for
is what the stack holds, which is another.
-/

namespace TangleAccelerator.Reattacher

open Bytes Cql

/-! ## Rows and objects -/

/-- The columns of a row, without its key `id`. -/
structure Columns where
  ts : Option Int64
  hash : Option (List UInt8)
  status : Option Int8

/-- `DB_NUM_TRYTES_HASH`. -/
def dbNumTrytesHash : Nat := 81

/-- The fields of `db_identity_s`. -/
structure IdentityObj where
  uuid : CassUuid
  timestamp : Int64
  status : Int8
  hash : Vector UInt8 dbNumTrytesHash

/-- An element `utarray_extend_back` appends. -/
def IdentityObj.zero : IdentityObj := ⟨.zero, 0, 0, Vector.replicate _ 0⟩

/-- `NUM_OF_TXN_STATUS`. -/
def numOfTxnStatus : Int := 3

/-- `db_set_identity_uuid`. -/
def dbSetIdentityUuid (obj : IdentityObj) (uuid : CassUuid) : Except Status IdentityObj :=
  if uuid.version ≠ 4 then .error .storageInvalidInput else .ok { obj with uuid := uuid }

/-- `db_set_identity_status`. -/
def dbSetIdentityStatus (obj : IdentityObj) (status : Int8) : Except Status IdentityObj :=
  if status.toInt < 0 ∨ numOfTxnStatus ≤ status.toInt then .error .storageInvalidInput
  else .ok { obj with status := status }

/-- `db_set_identity_timestamp`. -/
def dbSetIdentityTimestamp (obj : IdentityObj) (ts : Int64) : Except Status IdentityObj :=
  .ok { obj with timestamp := ts }

/-- `db_set_identity_hash`.  Nothing is returned where it reads behind the hash. -/
def dbSetIdentityHash (obj : IdentityObj) (hash : List UInt8) (length : Nat) :
    Option (Except Status IdentityObj) :=
  if length ≠ dbNumTrytesHash then some (.error .storageInvalidInput)
  else if hash.length < dbNumTrytesHash then none
  else some (.ok { obj with hash := block 0 dbNumTrytesHash hash })

/-- An object after a setter whose status is dropped. -/
def dropped (obj : IdentityObj) : Except Status IdentityObj → IdentityObj
  | .ok obj => obj
  | .error _ => obj

/-- The body of the loop of `get_identity_array`.  Nothing is returned where it reads something that
a column that is null left unset. -/
def readColumns (row : CassUuid × Columns) : Option IdentityObj := do
  let itr := IdentityObj.zero
  let hash ← row.2.hash
  let itr := dropped itr (← dbSetIdentityHash itr hash dbNumTrytesHash)
  let value ← row.2.status
  let itr := dropped itr (dbSetIdentityStatus itr value)
  let ts ← row.2.ts
  let itr := dropped itr (dbSetIdentityTimestamp itr ts)
  pure (dropped itr (dbSetIdentityUuid itr row.1))

/-! ## Queries -/

/-- What becomes of a query. -/
inductive Outcome where
  | prepareFails
  | bindFails
  /-- `db_identity_new` fails. -/
  | outOfMemory
  | executeFails
  | executes
deriving DecidableEq

/-- The loop of `get_identity_array`. -/
def readRows (identityArray : List IdentityObj) :
    List (CassUuid × Columns) → Option (List IdentityObj)
  | [] => some identityArray
  | row :: rows => do
      let itr ← readColumns row
      readRows (identityArray ++ [itr]) rows

/-- The end of `get_identity_array`. -/
def checkFront (ret : Except Status Unit) (identityArray : List IdentityObj) :
    Except Status Unit × List IdentityObj :=
  if identityArray = [] then (.error .storageInvalidInput, identityArray) else (ret, identityArray)

/-- `get_identity_array` for the rows that the statement selects. -/
def getIdentityArray (outcome : Outcome) (rows : List (CassUuid × Columns))
    (identityArray : List IdentityObj) : Option (Except Status Unit × List IdentityObj) :=
  match outcome with
  | .outOfMemory => some (checkFront (.error .oom) identityArray)
  | .executes => do
      let identityArray ← readRows identityArray rows
      pure (checkFront (.ok ()) identityArray)
  | _ => some (checkFront (.ok ()) identityArray)

/-- What the three functions do with their statement. -/
def select (outcome : Outcome) (rows : List (CassUuid × Columns))
    (identityArray : List IdentityObj) : Option (Except Status Unit × List IdentityObj) :=
  match outcome with
  | .prepareFails | .bindFails => some (.error .storageCassandraQueryFail, identityArray)
  | _ => getIdentityArray outcome rows identityArray

section Functions

variable [LinearOrder CassUuid]

/-- The table and the driver: what `cass_uuid_from_string` reads, and what the variable for it holds
before. -/
structure Source where
  table : Table CassUuid Columns
  cassUuidFromString : String → Option CassUuid
  unset : CassUuid

/-- `db_get_identity_objs_by_status`. -/
def dbGetIdentityObjsByStatus (source : Source) (outcome : Outcome) (status : Int8)
    (identityArray : List IdentityObj) : Option (Except Status Unit × List IdentityObj) :=
  select outcome (source.table.rows.filter fun row => row.2.status = some status) identityArray

/-- `db_get_identity_objs_by_uuid_string`. -/
def dbGetIdentityObjsByUuidString (source : Source) (outcome : Outcome) (uuidString : String)
    (identityArray : List IdentityObj) : Option (Except Status Unit × List IdentityObj) :=
  let uuid := (source.cassUuidFromString uuidString).getD source.unset
  select outcome (source.table.rows.filter fun row => row.1 = uuid) identityArray

/-- `db_get_identity_objs_by_hash`. -/
def dbGetIdentityObjsByHash (source : Source) (outcome : Outcome)
    (hash : Vector UInt8 dbNumTrytesHash) (identityArray : List IdentityObj) :
    Option (Except Status Unit × List IdentityObj) :=
  select outcome (source.table.rows.filter fun row => row.2.hash = some hash.toList) identityArray

/-- A call of one of the three functions. -/
inductive Call where
  | byStatus (status : Int8)
  | byUuidString (uuidString : String)
  | byHash (hash : Vector UInt8 dbNumTrytesHash)

/-- The function that is called. -/
def Call.run (source : Source) (outcome : Outcome) (identityArray : List IdentityObj) :
    Call → Option (Except Status Unit × List IdentityObj)
  | .byStatus status => dbGetIdentityObjsByStatus source outcome status identityArray
  | .byUuidString uuidString =>
      dbGetIdentityObjsByUuidString source outcome uuidString identityArray
  | .byHash hash => dbGetIdentityObjsByHash source outcome hash identityArray

/-! ## What a call is for -/

/-- A row matches what a call asks for.  A text that is no UUID is the ID of no row. -/
def Call.Matches (source : Source) (row : CassUuid × Columns) : Call → Prop
  | .byStatus status => row.2.status = some status
  | .byUuidString uuidString => source.cassUuidFromString uuidString = some row.1
  | .byHash hash => row.2.hash = some hash.toList

instance (source : Source) (row : CassUuid × Columns) (call : Call) :
    Decidable (call.Matches source row) :=
  match call with
  | .byStatus _ => inferInstanceAs (Decidable (_ = _))
  | .byUuidString _ => inferInstanceAs (Decidable (_ = _))
  | .byHash _ => inferInstanceAs (Decidable (_ = _))

/-- The rows that match. -/
def Call.matching (source : Source) (call : Call) : List (CassUuid × Columns) :=
  source.table.rows.filter fun row => call.Matches source row

/-- An object has the columns of a row. -/
structure Copies (obj : IdentityObj) (row : CassUuid × Columns) : Prop where
  uuid : obj.uuid = row.1
  hash : row.2.hash = some obj.hash.toList
  status : row.2.status = some obj.status
  timestamp : row.2.ts = some obj.timestamp

/-- A call succeeds exactly if the query does and a row matches, and then it appends the rows that
match.  A query that fails appends nothing. -/
def Selects (outcome : Outcome) (rows : List (CassUuid × Columns))
    (identityArray : List IdentityObj)
    (result : Option (Except Status Unit × List IdentityObj)) : Prop :=
  ∃ ret identityArray', result = some (ret, identityArray') ∧
    (ret = .ok () ↔ outcome = .executes ∧ rows ≠ []) ∧
    (ret = .ok () →
      ∃ objs, identityArray' = identityArray ++ objs ∧ List.Forall₂ Copies objs rows) ∧
    (outcome ≠ .executes → identityArray' = identityArray)

/-- The setters take a row: an ID of version `4`, or the one of zeros that the object has anyway, a
hash of the right length, a status of the enumeration, and no null. -/
structure Readable (row : CassUuid × Columns) : Prop where
  uuid : row.1.version = 4 ∨ row.1 = .zero
  hash : ∃ hash, row.2.hash = some hash ∧ hash.length = dbNumTrytesHash
  status : ∃ status, row.2.status = some status ∧ 0 ≤ status.toInt ∧ status.toInt < numOfTxnStatus
  ts : row.2.ts.isSome

end Functions

/-! ## The loop -/

/-- What the setters leave. -/
def objOf (uuid : CassUuid) (hash : List UInt8) (status : Int8) (ts : Int64) : IdentityObj where
  uuid := if uuid.version = 4 then uuid else .zero
  timestamp := ts
  status := if 0 ≤ status.toInt ∧ status.toInt < numOfTxnStatus then status else 0
  hash := block 0 dbNumTrytesHash hash

theorem dropped_status (obj : IdentityObj) (status : Int8) :
    dropped obj (dbSetIdentityStatus obj status) =
      { obj with
        status :=
          if 0 ≤ status.toInt ∧ status.toInt < numOfTxnStatus then status else obj.status } := by
  rw [dbSetIdentityStatus]
  split
  · rename_i h
    rw [if_neg (by omega)]
    rfl
  · rename_i h
    rw [if_pos (by omega)]
    rfl

theorem dropped_uuid (obj : IdentityObj) (uuid : CassUuid) :
    dropped obj (dbSetIdentityUuid obj uuid) =
      { obj with uuid := if uuid.version = 4 then uuid else obj.uuid } := by
  by_cases h : uuid.version = 4
  · rw [dbSetIdentityUuid, if_neg (not_not.mpr h), if_pos h]
    rfl
  · rw [dbSetIdentityUuid, if_pos h, if_neg h]
    rfl

theorem readColumns_eq {row : CassUuid × Columns} {hash : List UInt8} {status : Int8} {ts : Int64}
    (hhash : row.2.hash = some hash) (hstatus : row.2.status = some status)
    (hts : row.2.ts = some ts) : readColumns row =
      if hash.length < dbNumTrytesHash then none else some (objOf row.1 hash status ts) := by
  rw [readColumns, hhash, hstatus, hts]
  simp only [Option.bind_eq_bind, Option.bind_some, dbSetIdentityHash, ne_eq, not_true_eq_false,
    if_false]
  split
  · rfl
  · simp only [Option.bind_some, dropped_status, dropped_uuid]
    rfl

theorem readColumns_eq_some {row : CassUuid × Columns} {obj : IdentityObj}
    (h : readColumns row = some obj) : ∃ hash status ts, row.2.hash = some hash ∧
      dbNumTrytesHash ≤ hash.length ∧ row.2.status = some status ∧ row.2.ts = some ts ∧
      obj = objOf row.1 hash status ts := by
  cases hhash : row.2.hash with
  | none => simp [readColumns, hhash] at h
  | some hash =>
      cases hstatus : row.2.status with
      | none =>
          rw [readColumns, hhash, hstatus] at h
          simp at h
      | some status =>
          cases hts : row.2.ts with
          | none =>
              rw [readColumns, hhash, hstatus, hts] at h
              simp at h
          | some ts =>
              rw [readColumns_eq hhash hstatus hts] at h
              split at h
              · cases h
              · rename_i hlength
                exact ⟨hash, status, ts, rfl, Nat.not_lt.mp hlength, rfl, rfl,
                  (Option.some.inj h).symm⟩

theorem toList_block_hash {hash : List UInt8} (h : dbNumTrytesHash ≤ hash.length) :
    (block 0 dbNumTrytesHash hash).toList = hash.take dbNumTrytesHash := by
  rw [toList_block, Nat.sub_eq_zero_of_le h, List.replicate_zero, List.append_nil]

/-- A row is copied exactly if the setters take it. -/
theorem readColumns_copies_iff (row : CassUuid × Columns) :
    (∃ obj, readColumns row = some obj ∧ Copies obj row) ↔ Readable row := by
  constructor
  · rintro ⟨obj, hread, hcopies⟩
    obtain ⟨hash, status, ts, hhash, hlength, hstatus, hts, rfl⟩ := readColumns_eq_some hread
    refine ⟨?_, ⟨hash, hhash, ?_⟩, ⟨status, hstatus, ?_⟩, by rw [hts]; rfl⟩
    · by_cases hversion : row.1.version = 4
      · exact Or.inl hversion
      · have huuid := hcopies.uuid
        rw [objOf, if_neg hversion] at huuid
        exact Or.inr huuid.symm
    · have htake := hcopies.hash
      rw [hhash, objOf, toList_block_hash hlength, Option.some.injEq] at htake
      rw [htake, List.length_take]
      exact min_eq_left hlength
    · by_contra hrange
      have hzero : some status = some 0 := by
        rw [← hstatus, hcopies.status, objOf, if_neg hrange]
      obtain rfl := Option.some.inj hzero
      exact hrange (by decide)
  · rintro ⟨huuid, ⟨hash, hhash, hlength⟩, ⟨status, hstatus, hrange⟩, hts⟩
    obtain ⟨ts, hts⟩ := Option.isSome_iff_exists.mp hts
    refine ⟨objOf row.1 hash status ts, ?_, ?_, ?_, ?_, hts⟩
    · rw [readColumns_eq hhash hstatus hts, if_neg (Nat.not_lt.mpr hlength.ge)]
    · rw [objOf]
      rcases huuid with hversion | hzero
      · rw [if_pos hversion]
      · rw [hzero, if_neg (by decide)]
    · rw [hhash, objOf, toList_block_hash hlength.ge, List.take_of_length_le hlength.le]
    · rw [hstatus, objOf, if_pos hrange]

/-- The number of a status. -/
def TxnStatus.val : TxnStatus → Int8
  | pending => 0
  | inserting => 1
  | confirmed => 2

/-- The columns of a row that the reattacher writes, where `code` is the byte for a tryte. -/
def columnsOf (code : Tryte → UInt8) (row : Row) : Columns where
  ts := some (Int64.ofInt row.ts)
  hash := some (row.hash.toList.map code)
  status := some row.status.val

/-- Of the checks for such a row, that of the ID is the only one that can fail. -/
theorem readColumns_columnsOf (code : Tryte → UInt8) (id : CassUuid) (row : Row) :
    readColumns (id, columnsOf code row) =
      some ⟨(readRow (id, row)).uuid, Int64.ofInt row.ts, row.status.val, row.hash.map code⟩ := by
  have hlength : (row.hash.toList.map code).length = dbNumTrytesHash := by
    rw [List.length_map, Vector.length_toList, dbNumTrytesHash]
  have hstatus : 0 ≤ row.status.val.toInt ∧ row.status.val.toInt < numOfTxnStatus := by
    cases row.status <;> decide
  have hhash : block 0 dbNumTrytesHash (row.hash.toList.map code) = row.hash.map code := by
    apply Vector.toList_inj.mp
    rw [toList_block_hash hlength.ge, List.take_of_length_le hlength.le]
    exact Vector.toList_map.symm
  rw [readColumns_eq rfl rfl rfl, if_neg (Nat.not_lt.mpr hlength.ge), objOf, if_pos hstatus, hhash]
  rfl

theorem readRows_eq : ∀ (rows : List (CassUuid × Columns)) (identityArray : List IdentityObj),
    readRows identityArray rows = (rows.mapM readColumns).map (identityArray ++ ·)
  | [], identityArray => by simp [readRows]
  | row :: rows, identityArray => by
      rw [readRows, List.mapM_cons]
      cases hrow : readColumns row with
      | none => rfl
      | some itr =>
          simp only [Option.bind_eq_bind, Option.bind_some]
          rw [readRows_eq rows]
          cases rows.mapM readColumns with
          | none => rfl
          | some objs => simp

theorem mapM_readColumns_iff (rows : List (CassUuid × Columns)) :
    (∃ objs, rows.mapM readColumns = some objs ∧ List.Forall₂ Copies objs rows) ↔
      ∀ row ∈ rows, Readable row := by
  induction rows with
  | nil => simp
  | cons row rows ih =>
      rw [List.forall_mem_cons, ← ih, ← readColumns_copies_iff]
      constructor
      · rintro ⟨objs, hmap, hall⟩
        cases hall with
        | @cons obj _ objs _ hobj hobjs =>
            rw [List.mapM_cons] at hmap
            simp only [Option.bind_eq_bind, Option.bind_eq_some_iff, Option.pure_def,
              Option.some.injEq] at hmap
            obtain ⟨obj', hread, objs', hreads, hcons⟩ := hmap
            cases hcons
            exact ⟨⟨obj, hread, hobj⟩, objs, hreads, hobjs⟩
      · rintro ⟨⟨obj, hread, hobj⟩, objs, hreads, hobjs⟩
        refine ⟨obj :: objs, ?_, .cons hobj hobjs⟩
        rw [List.mapM_cons, hread, hreads]
        rfl

theorem mapM_eq_nil_iff {rows : List (CassUuid × Columns)} {objs : List IdentityObj}
    (h : rows.mapM readColumns = some objs) : objs = [] ↔ rows = [] := by
  cases rows with
  | nil =>
      cases h
      exact iff_of_true rfl rfl
  | cons row rows =>
      rw [List.mapM_cons] at h
      simp only [Option.bind_eq_bind, Option.bind_eq_some_iff, Option.pure_def,
        Option.some.injEq] at h
      obtain ⟨obj, -, objs', -, rfl⟩ := h
      exact iff_of_false (List.cons_ne_nil _ _) (List.cons_ne_nil _ _)

/-! ## When a call does what it is for -/

/-- The condition for a call with the rows that match and the rows that its statement selects. -/
def SelectsWhen (outcome : Outcome) (rows selected : List (CassUuid × Columns))
    (identityArray : List IdentityObj) : Prop :=
  match outcome with
  | .prepareFails | .bindFails | .outOfMemory => True
  | .executeFails => identityArray = []
  | .executes => (rows = [] → identityArray = [] ∧ selected = []) ∧ ∀ row ∈ rows, Readable row

theorem checkFront_eq (ret : Except Status Unit) (identityArray : List IdentityObj) :
    checkFront ret identityArray = ((checkFront ret identityArray).1, identityArray) := by
  rw [checkFront]
  split
  · rfl
  · rfl

theorem checkFront_ok_iff (ret : Except Status Unit) (identityArray : List IdentityObj) :
    (checkFront ret identityArray).1 = .ok () ↔ identityArray ≠ [] ∧ ret = .ok () := by
  rw [checkFront]
  split
  · rename_i h
    simp [h]
  · rename_i h
    simp [h]

section Result

variable {outcome : Outcome} {rows selected : List (CassUuid × Columns)}
  {identityArray : List IdentityObj} {ret : Except Status Unit}

/-- A query that fails is reported as such exactly if its status is not that of success. -/
theorem selects_failed_iff (houtcome : outcome ≠ .executes) :
    Selects outcome rows identityArray (some (ret, identityArray)) ↔ ret ≠ .ok () := by
  constructor
  · rintro ⟨ret', array', hresult, hok, -, -⟩ hret
    cases hresult
    exact houtcome (hok.mp hret).1
  · intro hret
    exact ⟨ret, identityArray, rfl, ⟨(absurd · hret), fun h => absurd h.1 houtcome⟩,
      (absurd · hret), fun _ => rfl⟩

theorem selects_executes_of_nil {result : Except Status Unit × List IdentityObj} :
    Selects .executes [] identityArray (some result) ↔ result.1 ≠ .ok () := by
  constructor
  · rintro ⟨ret', array', hresult, hok, -, -⟩ hret
    cases hresult
    exact (hok.mp hret).2 rfl
  · intro hret
    exact ⟨result.1, result.2, rfl, ⟨(absurd · hret), fun h => absurd rfl h.2⟩,
      (absurd · hret), fun h => absurd rfl h⟩

theorem selects_executes_of_ne_nil (hrows : rows ≠ []) {objs : List IdentityObj} :
    Selects .executes rows identityArray (some (.ok (), identityArray ++ objs)) ↔
      List.Forall₂ Copies objs rows := by
  constructor
  · rintro ⟨ret', array', hresult, -, happend, -⟩
    cases hresult
    obtain ⟨objs', hobjs', hall⟩ := happend rfl
    rwa [List.append_cancel_left hobjs']
  · intro hall
    exact ⟨.ok (), _, rfl, iff_of_true rfl ⟨rfl, hrows⟩, fun _ => ⟨objs, rfl, hall⟩,
      fun h => absurd rfl h⟩

theorem select_executes (selected : List (CassUuid × Columns)) (identityArray : List IdentityObj) :
    select .executes selected identityArray =
      (selected.mapM readColumns).map fun objs => checkFront (.ok ()) (identityArray ++ objs) := by
  rw [select, getIdentityArray, readRows_eq]
  · cases selected.mapM readColumns with
    | none => rfl
    | some objs => rfl
  · intro h
    cases h
  · intro h
    cases h

/-- A query that succeeds, where no row matches. -/
theorem select_executes_nil_iff (selected : List (CassUuid × Columns))
    (identityArray : List IdentityObj) :
    Selects .executes [] identityArray (select .executes selected identityArray) ↔
      identityArray = [] ∧ selected = [] := by
  rw [select_executes]
  cases hread : selected.mapM readColumns with
  | none =>
      constructor
      · rintro ⟨ret, array', hresult, -⟩
        cases hresult
      · rintro ⟨-, rfl⟩
        cases hread
  | some objs =>
      rw [Option.map_some, selects_executes_of_nil, Ne, checkFront_ok_iff, ← mapM_eq_nil_iff hread,
        ← List.append_eq_nil_iff]
      simp

/-- A query that succeeds, where a row matches. -/
theorem select_executes_cons_iff (hrows : rows ≠ []) :
    Selects .executes rows identityArray (select .executes rows identityArray) ↔
      ∀ row ∈ rows, Readable row := by
  rw [select_executes, ← mapM_readColumns_iff]
  cases hread : rows.mapM readColumns with
  | none =>
      constructor
      · rintro ⟨ret, array', hresult, -⟩
        cases hresult
      · rintro ⟨objs, hobjs, -⟩
        cases hobjs
  | some objs =>
      have hfront : checkFront (.ok ()) (identityArray ++ objs) =
          (.ok (), identityArray ++ objs) := by
        refine if_neg fun hnil => hrows ?_
        exact (mapM_eq_nil_iff hread).mp (List.append_eq_nil_iff.mp hnil).2
      rw [Option.map_some, hfront, selects_executes_of_ne_nil hrows]
      constructor
      · intro hall
        exact ⟨objs, rfl, hall⟩
      · rintro ⟨objs', hobjs', hall⟩
        rwa [Option.some.inj hobjs']

/-- The statement selects what is asked for, unless nothing is. -/
theorem select_selects_iff (h : rows ≠ [] → selected = rows) :
    Selects outcome rows identityArray (select outcome selected identityArray) ↔
      SelectsWhen outcome rows selected identityArray := by
  cases outcome with
  | prepareFails | bindFails =>
      exact iff_of_true ((selects_failed_iff (by decide)).mpr (by intro hret; cases hret)) trivial
  | outOfMemory =>
      have hfront : select .outOfMemory selected identityArray =
          some ((checkFront (.error .oom) identityArray).1, identityArray) :=
        congrArg some (checkFront_eq _ _)
      rw [hfront, selects_failed_iff (by decide), Ne, checkFront_ok_iff]
      simp [SelectsWhen]
  | executeFails =>
      have hfront : select .executeFails selected identityArray =
          some ((checkFront (.ok ()) identityArray).1, identityArray) :=
        congrArg some (checkFront_eq _ _)
      rw [hfront, selects_failed_iff (by decide), Ne, checkFront_ok_iff]
      simp [SelectsWhen]
  | executes =>
      rw [SelectsWhen]
      by_cases hrows : rows = []
      · rw [hrows, select_executes_nil_iff]
        simp
      · rw [h hrows, select_executes_cons_iff hrows]
        simp [hrows]

end Result

section Functions

variable [LinearOrder CassUuid]

/-- The rows that the statement of a call selects. -/
def Call.selected (source : Source) : Call → List (CassUuid × Columns)
  | .byUuidString uuidString => source.table.rows.filter fun row =>
      row.1 = (source.cassUuidFromString uuidString).getD source.unset
  | call => call.matching source

theorem Call.run_eq (source : Source) (outcome : Outcome) (identityArray : List IdentityObj)
    (call : Call) :
    call.run source outcome identityArray =
      select outcome (call.selected source) identityArray := by
  cases call <;> rfl

theorem Call.selected_eq {source : Source} {call : Call} (h : call.matching source ≠ []) :
    call.selected source = call.matching source := by
  cases call with
  | byStatus _ => rfl
  | byHash _ => rfl
  | byUuidString uuidString =>
      cases huuid : source.cassUuidFromString uuidString with
      | none =>
          refine absurd (List.filter_eq_nil_iff.mpr fun row _ => ?_) h
          simp [Call.Matches, huuid]
      | some uuid =>
          refine List.filter_congr fun row _ => decide_eq_decide.mpr ?_
          rw [Call.Matches, huuid, Option.getD_some, Option.some.injEq]
          exact eq_comm

/-- Which calls return success exactly for a query that succeeds and matches, and append exactly
the rows that match. -/
theorem dbGetIdentityObjs_selects_iff (source : Source) (outcome : Outcome)
    (identityArray : List IdentityObj) (call : Call) :
    Selects outcome (call.matching source) identityArray
        (call.run source outcome identityArray) ↔
      SelectsWhen outcome (call.matching source) (call.selected source) identityArray := by
  rw [Call.run_eq]
  exact select_selects_iff Call.selected_eq

end Functions

namespace Sample

/-- A table with one row, which has an ID of version `1`. -/
def sourceV1 : letI := idOrder; Source :=
  letI := idOrder
  ⟨⟨[(uuidV1, columnsOf (fun _ => 57) ⟨0, hash 0, .pending⟩)], List.pairwise_singleton _ _⟩,
    fun _ => none, .zero⟩

end Sample

/-- A query that failed is reported as a success where the array was not empty, and a row with an ID
of version `1` is appended with another ID. -/
theorem dbGetIdentityObjs_not_selects :
    letI := Sample.idOrder
    ¬Selects .executeFails ((Call.byStatus 0).matching Sample.sourceV1) [.zero]
        ((Call.byStatus 0).run Sample.sourceV1 .executeFails [.zero]) ∧
      ¬Selects .executes ((Call.byStatus 0).matching Sample.sourceV1) []
        ((Call.byStatus 0).run Sample.sourceV1 .executes []) := by
  let := Sample.idOrder
  constructor
  · rw [Call.run_eq, select_selects_iff Call.selected_eq]
    exact List.cons_ne_nil _ _
  · rw [Call.run_eq, select_selects_iff Call.selected_eq]
    rintro ⟨-, hreadable⟩
    have huuid := (hreadable _ List.mem_cons_self).uuid
    rcases huuid with hversion | hzero
    · exact absurd hversion (by decide)
    · exact absurd (congrArg CassUuid.timeAndVersion hzero) (by decide)

end TangleAccelerator.Reattacher
