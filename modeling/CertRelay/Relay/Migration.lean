import Mathlib.Data.Prod.Lex
import Mathlib.Data.String.Basic
import Mathlib.Data.List.Sort
import CertRelay.Lib.Runs
import CertRelay.Relay.UpdateHandles

/-!
# Opening a database file

`SqliteStore::init` brings a file up to the present schema: it adds the columns that an old
`handles` table lacks, creates the tables that are missing, numbers and hashes old rows in
chunks, and fills the accounting.  Each statement outside a transaction commits by itself,
so a crash may leave the file between any two of the steps below; the next call of `init`
starts over on what it finds.

The triggers of the schema fire on insertion and deletion of rows of `handles`; `init`
does neither, so they and the tables that only the schema mentions are left out here.
-/

namespace CertRelay

/-- A row of `handles` in a file; a column that the table lacks may hold anything. -/
structure FileRow where
  handle : String
  space : String
  certData : Bytes
  zoneData : Bytes
  epochHeight : Nat
  offchainSeq : Nat
  delegateOffchainSeq : Nat
  syncSeq : Nat
  zoneHash : Bytes
  updatedAt : Nat
deriving DecidableEq

namespace FileRow

/-- The row without the columns that the migration fills. -/
def data (r : FileRow) : FileRow :=
  { r with syncSeq := 0, zoneHash := [] }

/-- `length(cert_data) + length(zone_data)`. -/
def bytes (r : FileRow) : Nat :=
  r.certData.length + r.zoneData.length

/-- The space and epoch that a row counts for. -/
def bucket (r : FileRow) : String × Nat :=
  (r.space, r.epochHeight)

/-- `ORDER BY updated_at, handle`. -/
def Le (r s : FileRow) : Prop :=
  toLex (r.updatedAt, r.handle) ≤ toLex (s.updatedAt, s.handle)

instance : DecidableRel Le :=
  fun r s =>
    inferInstanceAs (Decidable (toLex (r.updatedAt, r.handle) ≤ toLex (s.updatedAt, s.handle)))

end FileRow

/-- Which of the later columns the `handles` table has. -/
structure Columns where
  syncSeq : Bool
  zoneHash : Bool
deriving DecidableEq

structure HandlesTable where
  columns : Columns
  rows : KeyedTable FileRow FileRow.handle
deriving DecidableEq

/-- A database file: each table if it exists, and of singleton tables the row. -/
structure DbFile where
  handles : Option HandlesTable
  syncCounter : Option (Option Nat)
  spaceEpochCounts : Option (KeyedTable EpochCount EpochCount.bucket)
  storageTotals : Option (Option StorageTotals)
deriving DecidableEq

namespace DbFile

/-- A file from before the sync schema. -/
def preSync (legacy : KeyedTable FileRow FileRow.handle) : DbFile where
  handles := some ⟨⟨false, false⟩, legacy⟩
  syncCounter := none
  spaceEpochCounts := none
  storageTotals := none

/-- The statements of `SCHEMA` that matter here, in order. -/
inductive SchemaStatement
  | createHandles
  | indexSyncSeq
  | createSyncCounter
  | insertSyncCounter
  | createSpaceEpochCounts
  | createStorageTotals
  | insertStorageTotals
deriving DecidableEq

def schema : List SchemaStatement :=
  [.createHandles, .indexSyncSeq, .createSyncCounter, .insertSyncCounter,
    .createSpaceEpochCounts, .createStorageTotals, .insertStorageTotals]

/-- Run one statement; the index needs its column and an insertion its table. -/
def SchemaStatement.run (db : DbFile) : SchemaStatement → Option DbFile
  | .createHandles =>
      some { db with handles := some (db.handles.getD ⟨⟨true, true⟩, .empty⟩) }
  | .indexSyncSeq =>
      if db.handles.any (fun t => t.columns.syncSeq) then some db else none
  | .createSyncCounter => some { db with syncCounter := some (db.syncCounter.getD none) }
  | .insertSyncCounter =>
      db.syncCounter.map (fun row => { db with syncCounter := some (some (row.getD 0)) })
  | .createSpaceEpochCounts =>
      some { db with spaceEpochCounts := some (db.spaceEpochCounts.getD .empty) }
  | .createStorageTotals =>
      some { db with storageTotals := some (db.storageTotals.getD none) }
  | .insertStorageTotals =>
      db.storageTotals.map (fun row =>
        { db with storageTotals := some (some (row.getD ⟨0, 0⟩)) })

/-- `ALTER TABLE handles ADD COLUMN sync_seq INTEGER NOT NULL DEFAULT 0`. -/
def addSyncSeq (t : HandlesTable) : HandlesTable where
  columns := { t.columns with syncSeq := true }
  rows := t.rows.map (fun r => { r with syncSeq := 0 }) (fun _ => rfl)

/-- `ALTER TABLE handles ADD COLUMN zone_hash BLOB NOT NULL DEFAULT x''`. -/
def addZoneHash (t : HandlesTable) : HandlesTable where
  columns := { t.columns with zoneHash := true }
  rows := t.rows.map (fun r => { r with zoneHash := [] }) (fun _ => rfl)

/-- Rows in `(updated_at, handle)` order. -/
def sortRows (rows : List FileRow) : List FileRow :=
  rows.insertionSort FileRow.Le

/-- Rows in one transaction of `backfill_sync`. -/
def chunkSize : Nat := 1000

/-- The next chunk: `WHERE sync_seq = 0 ORDER BY updated_at, handle LIMIT ?`. -/
def nextChunk (rows : List FileRow) : List (String × Bytes) :=
  ((sortRows (rows.filter (fun r => decide (r.syncSeq = 0)))).take chunkSize).map
    (fun r => (r.handle, r.zoneData))

section Backfill

variable (V : Crates)

/-- `SET sync_seq = ?, zone_hash = ? WHERE handle = ?`, on one row. -/
def renumber (handle : String) (zoneData : Bytes) (seq : Nat) (r : FileRow) : FileRow :=
  if r.handle = handle then { r with syncSeq := seq, zoneHash := zoneHash V zoneData } else r

theorem handle_renumber
    (handle : String)
    (zoneData : Bytes)
    (seq : Nat)
    (r : FileRow) :
    (renumber V handle zoneData seq r).handle = r.handle := by
  unfold renumber
  split_ifs <;> rfl

/-- Number the rows of a chunk after `base`. -/
def numberChunk : Nat → List (String × Bytes) → KeyedTable FileRow FileRow.handle →
    KeyedTable FileRow FileRow.handle
  | _, [], rows => rows
  | base, (handle, zoneData) :: chunk, rows =>
      numberChunk (base + 1) chunk
        (rows.map (renumber V handle zoneData (base + 1))
          (handle_renumber V handle zoneData (base + 1)))

end Backfill

/-- `SELECT space, epoch_height, COUNT(*) .. GROUP BY space, epoch_height`. -/
def groupCounts (rows : List FileRow) : List EpochCount :=
  (rows.map FileRow.bucket).dedup.map
    (fun b => ⟨b.1, b.2, rows.countP (fun r => decide (r.bucket = b))⟩)

/-- `COUNT(*)` and the summed blob lengths. -/
def scanTotals (rows : List FileRow) : StorageTotals :=
  ⟨rows.length, ((rows.map FileRow.bytes).sum : Nat)⟩

/-- Where `init` is: what it does next. -/
inductive Phase
  | migrateColumns
  | alterSyncSeq (columns : Columns)
  | alterZoneHash (columns : Columns)
  | schema (left : List SchemaStatement)
  | backfillSync
  | backfillStorage
  | opened
  | failed
deriving DecidableEq

/-- `migrate_columns` up to the first `ALTER`: the columns are read once. -/
def readColumns (db : DbFile) : Phase :=
  match db.handles with
  | none => .schema schema
  | some t => .alterSyncSeq t.columns

/-- One transaction of `backfill_sync`, or its end. -/
def backfillChunk (V : Crates) (db : DbFile) : Phase × DbFile :=
  match db.handles with
  | none => (.failed, db)
  | some t =>
      if t.columns = ⟨true, true⟩ then
        match nextChunk t.rows.rows with
        | [] => (.backfillStorage, db)
        | chunk =>
            match db.syncCounter with
            | some (some base) =>
                (.backfillSync,
                  { db with
                    handles := some { t with rows := numberChunk V base chunk t.rows }
                    syncCounter := some (some (base + chunk.length)) })
            | _ => (.failed, db)
      else (.failed, db)

/-- `backfill_storage`. -/
def backfillTotals (db : DbFile) : Phase × DbFile :=
  match db.storageTotals with
  | some (some totals) =>
      if totals.rows ≠ 0 then (.opened, db)
      else
        match db.handles with
        | none => (.failed, db)
        | some t =>
            if t.rows.rows.length = 0 then (.opened, db)
            else
              match db.spaceEpochCounts with
              | none => (.failed, db)
              | some counts =>
                  (.opened,
                    { db with
                      spaceEpochCounts :=
                        some ((groupCounts t.rows.rows).foldl KeyedTable.insertOrReplace counts)
                      storageTotals := some (some (scanTotals t.rows.rows)) })
  | _ => (.failed, db)

/-- The next committed step of `init`. -/
def step (V : Crates) : Phase × DbFile → Phase × DbFile
  | (.migrateColumns, db) => (readColumns db, db)
  | (.alterSyncSeq columns, db) =>
      (.alterZoneHash columns,
        if columns.syncSeq then db else { db with handles := db.handles.map addSyncSeq })
  | (.alterZoneHash columns, db) =>
      (.schema schema,
        if columns.zoneHash then db else { db with handles := db.handles.map addZoneHash })
  | (.schema [], db) => (.backfillSync, db)
  | (.schema (s :: left), db) =>
      match s.run db with
      | some db' => (.schema left, db')
      | none => (.failed, db)
  | (.backfillSync, db) => backfillChunk V db
  | (.backfillStorage, db) => backfillTotals db
  | (.opened, db) => (.opened, db)
  | (.failed, db) => (.failed, db)

/-- A committed step, or a crash after which the file is opened again. -/
abbrev initMove (V : Crates) : Phase × DbFile → Runs.Move → Phase × DbFile :=
  Runs.move (step V) .migrateColumns

/-- `init` from the start, on a file from before the sync schema. -/
def opening (legacy : KeyedTable FileRow FileRow.handle) : Phase × DbFile :=
  (.migrateColumns, preSync legacy)

end DbFile
end CertRelay
