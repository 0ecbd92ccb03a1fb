import TangleAccelerator.Common.Types
import TangleAccelerator.Cql.Table
import TangleAccelerator.Effect.Prog

/-!
# The permanode

`scylladb_permanode.c`: the table `transaction` of the permanode, and the functions that write and
query it.

One table has two roles.  A row holds the trytes of a transaction and the columns the table is
queried by, and it holds the hashes of the transactions that approve it.  The two parts are written
by different statements: `insert_transaction` writes to the row of the transaction, and
`insert_approvee` to the rows of its trunk and its branch.  Both are `UPDATE`s, so either creates
the row it writes to.

The programs issue CQL statements, and the database may fail each of them.  `LinearOrder Hash243` is
the order in which the database returns rows.
-/

namespace TangleAccelerator.Permanode

open Effect Cql

/-! ## Offsets in a serialized transaction -/

/-- `ADDRESS_OFFSET`, which is `NUM_TRYTES_SIGNATURE`. -/
def addressOffset : Nat := 2187
/-- `VALUE_OFFSET`. -/
def valueOffset : Nat := addressOffset + 81
/-- `OBSOLETE_TAG_OFFSET`. -/
def obsoleteTagOffset : Nat := valueOffset + 27
/-- `TIMESTAMP_OFFSET`. -/
def timestampOffset : Nat := obsoleteTagOffset + 27
/-- `CURRENT_INDEX_OFFSET`. -/
def currentIndexOffset : Nat := timestampOffset + 9
/-- `LAST_INDEX_OFFSET`. -/
def lastIndexOffset : Nat := currentIndexOffset + 9
/-- `BUNDLE_OFFSET`. -/
def bundleOffset : Nat := lastIndexOffset + 9
/-- `TRUNK_OFFSET`. -/
def trunkOffset : Nat := bundleOffset + 81
/-- `BRANCH_OFFSET`. -/
def branchOffset : Nat := trunkOffset + 81

/-- The `len` trytes from `offset` on. -/
def slice (trytes : Hash8019) (offset len : Nat) (h : offset + len ≤ 2673) :
    Vector Tryte len :=
  Vector.ofFn fun i => trytes[offset + i.val]

/-- The address of a transaction. -/
def addressOf (trytes : Hash8019) : Hash243 := slice trytes addressOffset 81 (by decide)

/-- Its obsolete tag. -/
def tagOf (trytes : Hash8019) : Hash81 := slice trytes obsoleteTagOffset 27 (by decide)

/-- Its bundle. -/
def bundleOf (trytes : Hash8019) : Hash243 := slice trytes bundleOffset 81 (by decide)

/-- Its trunk. -/
def trunkOf (trytes : Hash8019) : Hash243 := slice trytes trunkOffset 81 (by decide)

/-- Its branch. -/
def branchOf (trytes : Hash8019) : Hash243 := slice trytes branchOffset 81 (by decide)

/-! ## The table -/

/-- A row of the table `transaction`, without its key `hash`. -/
structure Row [LinearOrder Hash243] where
  address : Option Hash243 := none
  bundle : Option Hash243 := none
  tag : Option Hash81 := none
  approvees : KeySet Hash243 := Table.empty
  trytes : Option Hash8019 := none

/-- The table `transaction`. -/
abbrev TransactionTable [LinearOrder Hash243] := Table Hash243 Row

/-- A condition on an indexed column. -/
inductive Where where
  | bundle (value : Hash243)
  | address (value : Hash243)
  | tag (value : Hash81)

/-- The statements. -/
inductive Statement where
  /-- `UPDATE transaction Set bundle = ?, address = ?, tag = ?, trytes = ?  Where hash = ?` -/
  | setTransaction (bundle address : Hash243) (tag : Hash81) (trytes : Hash8019) (hash : Hash243)
  /-- `UPDATE transaction SET approvees = approvees + ? WHERE hash = ?` -/
  | addApprovee (approvee hash : Hash243)
  /-- `SELECT COUNT(*) FROM transaction WHERE hash = ? LIMIT 1` -/
  | count (hash : Hash243)
  /-- `SELECT approvees FROM transaction WHERE hash = ?` -/
  | approvees (hash : Hash243)
  /-- `SELECT hash FROM transaction WHERE <column> = ? LIMIT 100` -/
  | hashes (condition : Where)

/-- The answers.  `false` and `none` say that the statement failed.  A query for approvees that does
not fail finds no row, or the set of one. -/
@[reducible] def Statement.Ans : Statement → Type
  | .setTransaction .. => Bool
  | .addApprovee .. => Bool
  | .count _ => Option Nat
  | .approvees _ => Option (Option (List Hash243))
  | .hashes _ => Option (List Hash243)

/-- The signature of CQL programs. -/
@[reducible] def cql : Sig := ⟨Statement, Statement.Ans⟩

section Database

variable [LinearOrder Hash243]

/-- The row satisfies the condition. -/
def Where.holds : Where → Row → Bool
  | .bundle value, row => row.bundle == some value
  | .address value, row => row.address == some value
  | .tag value, row => row.tag == some value

/-- A statement that does not fail. -/
def execute : (c : Statement) → TransactionTable → c.Ans × TransactionTable
  | .setTransaction bundle address tag trytes hash, T =>
      (true, T.upsert {} hash fun row =>
        { row with
          bundle := some bundle
          address := some address
          tag := some tag
          trytes := some trytes })
  | .addApprovee approvee hash, T =>
      (true, T.upsert {} hash fun row => { row with approvees := row.approvees.add approvee })
  | .count hash, T => (some (if (T.get hash).isSome then 1 else 0), T)
  | .approvees hash, T => (some ((T.get hash).map fun row => row.approvees.toList), T)
  | .hashes condition, T => (some ((T.select condition.holds).take 100), T)

/-- The answer of a statement that failed. -/
def Statement.failed : (c : Statement) → c.Ans
  | .setTransaction .. => false
  | .addApprovee .. => false
  | .count _ => none
  | .approvees _ => none
  | .hashes _ => none

/-- The database.  It chooses which statements fail, and these do nothing. -/
@[reducible] def database : Server cql where
  State := TransactionTable
  Choice _ := Bool
  serve c fails T := if fails then (c.failed, T) else execute c T

end Database

/-! ## The functions -/

/-- Programs of the permanode. -/
abbrev DbProc (α : Type) := ExceptT Status (Prog cql) α

/-- Issue a statement. -/
def issue (c : Statement) : DbProc c.Ans := liftM (command (S := cql) c)

/-- `insert_transaction`. -/
def insertTransaction (hash : Hash243) (trytes : Hash8019) : DbProc Unit := do
  ensure (← issue (.setTransaction (bundleOf trytes) (addressOf trytes) (tagOf trytes) trytes hash))
    .storageCassandraQueryFail

/-- `insert_approvee`. -/
def insertApprovee (hash approvee : Hash243) : DbProc Unit := do
  ensure (← issue (.addApprovee approvee hash)) .storageCassandraQueryFail

/-- `db_permanode_insert_transaction`. -/
def dbPermanodeInsertTransaction (hash : Hash243) (trytes : Hash8019) : DbProc Unit := do
  insertTransaction hash trytes
  insertApprovee (trunkOf trytes) hash
  insertApprovee (branchOf trytes) hash

/-- `get_inclusion_status_from_transaction_table`, with `get_count`. -/
def getInclusionStatusFromTransactionTable (hash : Hash243) : DbProc Bool := do
  let count ← demand (← issue (.count hash)) .storageCassandraQueryFail
  pure (decide (count > 0))

/-- `db_client_get_inclusion_states`. -/
def dbClientGetInclusionStates : List Hash243 → DbProc (List Bool)
  | [] => pure []
  | hash :: hashes => do
      let state ← getInclusionStatusFromTransactionTable hash
      let states ← dbClientGetInclusionStates hashes
      pure (state :: states)

/-- The status of `push_columns_into_queue` and `push_collection_into_queue` where nothing failed:
`SC_OK` only if something was pushed. -/
def pushStatus (pushed : List Hash243) : Except Status Unit :=
  if pushed = [] then .error .cclientNotFound else .ok ()

/-- The values a request for transactions lists. -/
inductive Criterion where
  | column (condition : Where)
  | approvee (hash : Hash243)

/-- `get_hash_from_transaction_table` and `get_approvee_from_transaction_table`: the hashes that are
pushed and the status. -/
def getHashes : Criterion → DbProc (List Hash243 × Except Status Unit)
  | .column condition => do
      match ← issue (.hashes condition) with
      | none => pure ([], .error .storageCassandraQueryFail)
      | some hashes => pure (hashes, pushStatus hashes)
  | .approvee hash => do
      match ← issue (.approvees hash) with
      | none => pure ([], .error .storageCassandraQueryFail)
      | some row => pure (row.getD [], pushStatus (row.getD []))

/-- The values of a request in the order of the four loops of `db_client_find_transactions`. -/
def criteria (req : FindTransactionsReq) : List Criterion :=
  req.bundles.map (fun v => .column (.bundle v)) ++
    req.addresses.map (fun v => .column (.address v)) ++
    req.tags.map (fun v => .column (.tag v)) ++ req.approvees.map .approvee

/-- The loops of `db_client_find_transactions` over the values that are left.  `res` is the queue,
which keeps what was pushed where the function returns early. -/
def findLoop : List Criterion → List Hash243 → DbProc (List Hash243 × Except Status Unit)
  | [], res => pure (res, .ok ())
  | value :: values, res => do
      let (hashes, ret) ← getHashes value
      match ret with
      | .error e => pure (res ++ hashes, .error e)
      | .ok () => findLoop values (res ++ hashes)

/-- `db_client_find_transactions`: the queue `res->hashes`, which was empty, and the status. -/
def dbClientFindTransactions (req : FindTransactionsReq) :
    DbProc (List Hash243 × Except Status Unit) :=
  findLoop (criteria req) []

end TangleAccelerator.Permanode
