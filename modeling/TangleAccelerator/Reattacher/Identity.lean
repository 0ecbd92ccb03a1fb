import TangleAccelerator.Common.Types
import TangleAccelerator.Cql.Table
import TangleAccelerator.Effect.Prog

/-!
# The reattacher

`reattacher_main.c`, and the table `identity` of `scylladb_identity.c`.

The reattacher goes round and round.  It selects the pending rows of the table and handles one after
the other: a transaction that is included is marked as confirmed, and one that has been pending for
long is replayed, and its row is given the hash of another attachment.

Every answer comes with the time it was given at.  Only `time` shows it to the program.
`LinearOrder CassUuid` is the order in which the database returns rows.
-/

namespace TangleAccelerator.Reattacher

open Effect Cql

/-! ## The table -/

/-- `CassUuid`. -/
structure CassUuid where
  timeAndVersion : BitVec 64
  clockSeqAndNode : BitVec 64

/-- The version, in the most significant four bits. -/
def CassUuid.version (uuid : CassUuid) : Nat := (uuid.timeAndVersion >>> 60).toNat

/-- What a new element of an array holds. -/
def CassUuid.zero : CassUuid := ⟨0, 0⟩

/-- `db_txn_status_t`. -/
inductive TxnStatus where
  | pending
  | inserting
  | confirmed
deriving DecidableEq

/-- A row of the table `identity`, without its key `id`. -/
structure Row where
  ts : Int
  hash : Hash243
  status : TxnStatus
deriving DecidableEq

/-- `db_identity_s`. -/
structure DbIdentity where
  uuid : CassUuid
  row : Row

/-! ## Commands -/

/-- What `iota_client_replay_bundle` returns: the transactions of the bundle, followed by the
transactions that were attached again. -/
structure Replay where
  originals : List Transaction
  reattached : List Transaction
  length_eq : originals.length = reattached.length
  pos : 0 < originals.length

/-- The bundle of all of them. -/
def Replay.bundle (replay : Replay) : List Transaction := replay.originals ++ replay.reattached

theorem Replay.one_lt_length (replay : Replay) : 1 < replay.bundle.length := by
  have hlen := replay.length_eq
  have hpos := replay.pos
  rw [Replay.bundle, List.length_append]
  omega

/-- `bundle_at(res_bundle_txn, 1)`. -/
def Replay.second (replay : Replay) : Transaction := replay.bundle.get ⟨1, replay.one_lt_length⟩

/-- The commands. -/
inductive Cmd where
  /-- `SELECT * FROM identity WHERE status = ?` -/
  | selectByStatus (status : TxnStatus)
  /-- `UPDATE identity Set ts = ?, status = ?, hash =? Where id = ?` -/
  | update (id : CassUuid) (row : Row)
  /-- `iota_client_get_latest_inclusion`. -/
  | getLatestInclusion (hash : Hash243)
  /-- `iota_client_replay_bundle`. -/
  | replayBundle (hash : Hash243)
  /-- `time`. -/
  | time

/-- The answers.  `none` and `false` say that the command failed. -/
@[reducible] def Cmd.Ans : Cmd → Type
  | .selectByStatus _ => Option (List (CassUuid × Row))
  | .update .. => Bool
  | .getLatestInclusion _ => Option (List Bool)
  | .replayBundle _ => Option Replay
  | .time => Unit

/-- The signature of the reattacher: an answer, and the time it was given at. -/
@[reducible] def sig : Sig := ⟨Cmd, fun c => c.Ans × Int⟩

/-- Programs of the reattacher. -/
abbrev ReProc (α : Type) := ExceptT Status (Prog sig) α

/-- Issue a command, and take its answer. -/
def issue (c : Cmd) : ReProc c.Ans := do
  let a ← liftM (command (S := sig) c)
  pure a.1

/-- `time(NULL)`. -/
def time : ReProc Int := do
  let a ← liftM (command (S := sig) .time)
  pure a.2

/-! ## The functions -/

/-- `PRESISTENT_PENDING_SECOND`. -/
def persistentPendingSecond : Int := 1800

/-- A row as `get_identity_array` reads it.  `db_set_identity_uuid` refuses an ID of another version
than `4`, and its status is dropped. -/
def readRow (entry : CassUuid × Row) : DbIdentity :=
  ⟨if entry.1.version = 4 then entry.1 else .zero, entry.2⟩

/-- `db_insert_identity_table`. -/
def dbInsertIdentityTable (obj : DbIdentity) : ReProc Unit := do
  ensure (← issue (.update obj.uuid obj.row)) .storageCassandraQueryFail

/-- The branch of `handle_pending_txn` that attaches a transaction again. -/
def reattach (obj : DbIdentity) : ReProc Unit := do
  let resBundleTxn ← demand (← issue (.replayBundle obj.row.hash)) .cclientFailedResponse
  let hash := resBundleTxn.second.hash
  let now ← time
  dbInsertIdentityTable { obj with row := { obj.row with hash := hash, ts := now } }

/-- `handle_pending_txn`. -/
def handlePendingTxn (obj : DbIdentity) : ReProc Unit := do
  match ← issue (.getLatestInclusion obj.row.hash) with
  | some [true] =>
      dbInsertIdentityTable { obj with row := { obj.row with status := .confirmed } }
  | some [false] => do
      let now ← time
      if now - obj.row.ts > persistentPendingSecond then reattach obj else pure ()
  | _ => throw .cclientFailedResponse

/-- The loop over the rows that were selected.  The status of a call is only logged. -/
def handleAll : List DbIdentity → Prog sig Unit
  | [] => pure ()
  | obj :: rest => do
      let _ ← (handlePendingTxn obj).run
      handleAll rest

/-- One round of the loop of `main`.  Where the query fails the array stays empty. -/
def round : Prog sig Unit := do
  let idArray ← command (S := sig) (.selectByStatus .pending)
  handleAll ((idArray.1.getD []).map readRow)

/-- So many rounds. -/
def rounds : Nat → Prog sig Unit
  | 0 => pure ()
  | n + 1 => do
      round
      rounds n

/-! ## The database -/

section Database

variable [LinearOrder CassUuid]

/-- The table `identity`. -/
abbrev IdentityTable := Table CassUuid Row

/-- The table after an event.  An `UPDATE` creates the row it writes to. -/
def written (T : IdentityTable) : Event sig → IdentityTable
  | ⟨.update id row, (true, _)⟩ => T.upsert row id fun _ => row
  | _ => T

/-- The table after a trace. -/
def tableAfter (T : IdentityTable) (τ : List (Event sig)) : IdentityTable := τ.foldl written T

/-- The rows with a status. -/
def withStatus (T : IdentityTable) (status : TxnStatus) : List (CassUuid × Row) :=
  T.rows.filter fun entry => entry.2.status = status

/-- The database, the node and the clock.  A choice says whether a statement fails, what the node
answers, and the time. -/
@[reducible] def database : Server sig where
  State := IdentityTable
  Choice c := Bool × c.Ans × Int
  serve c x T :=
    match c, x with
    | .selectByStatus status, (fails, _, now) =>
        ((if fails then none else some (withStatus T status), now), T)
    | .update id row, (fails, _, now) =>
        if fails then ((false, now), T) else ((true, now), T.upsert row id fun _ => row)
    | .getLatestInclusion _, (_, states, now) => ((states, now), T)
    | .replayBundle _, (_, replay, now) => ((replay, now), T)
    | .time, (_, _, now) => (((), now), T)

end Database

end TangleAccelerator.Reattacher
