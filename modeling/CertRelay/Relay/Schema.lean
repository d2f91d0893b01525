import CertRelay.Lib.KeyedTable
import CertRelay.Lib.Fallible
import CertRelay.Relay.Crates
import Mathlib.Tactic.SplitIfs

/-!
# The relay database

Tables and triggers of the relay's SQLite schema, with the statements that the
store runs on them.

`handles` is a keyed table, so the primary key holds by type.  Sequence numbers
and the write counter are natural numbers: the counter starts at 0 and grows by
one for each stored row.  A stored row has a positive sequence number by type;
0 marks rows from before the sync schema, which opening the store removes.

Deleting a row of `handles` fires `handles_count_delete`, inserting one fires
`handles_count_insert`, and because `recursive_triggers` is on `INSERT OR
REPLACE` fires both: the displaced row is deleted first.
-/

namespace CertRelay

/-- A row of `handles`. -/
structure Row where
  handle : String
  space : String
  certData : Bytes
  zoneData : Bytes
  epochHeight : Nat
  offchainSeq : Nat
  delegateOffchainSeq : Nat
  syncSeq : Nat
  zoneHash : Bytes
  updatedAt : Nat
  syncSeq_pos : 0 < syncSeq
deriving DecidableEq

/-- `length(cert_data) + length(zone_data)`. -/
def Row.bytes (r : Row) : Nat :=
  r.certData.length + r.zoneData.length

/-- The row is the root row of its space. -/
def Row.IsRoot (r : Row) : Prop :=
  r.handle = r.space

instance (r : Row) : Decidable r.IsRoot :=
  inferInstanceAs (Decidable (r.handle = r.space))

/-- A row of `sync_watermarks`. -/
structure WatermarkRow where
  peerUrl : String
  cursor : String
  updatedAt : Nat
deriving DecidableEq

/-- A row of `reverse`. -/
structure ReverseRow where
  numId : String
  name : String
  updatedAt : Nat
deriving DecidableEq

/-- A row of `addrs`. -/
structure AddrRow where
  name : String
  addr : String
  handle : String
  rev : String
  updatedAt : Nat
deriving DecidableEq

/-- A row of `space_epoch_counts`. -/
structure EpochCount where
  space : String
  epochHeight : Nat
  handles : Int
deriving DecidableEq

/-- Primary key of `space_epoch_counts`. -/
def EpochCount.bucket (c : EpochCount) : String × Nat :=
  (c.space, c.epochHeight)

/-- `SET handles = handles + 1`. -/
def EpochCount.incr (c : EpochCount) : EpochCount :=
  { c with handles := c.handles + 1 }

/-- `SET handles = handles - 1`. -/
def EpochCount.decr (c : EpochCount) : EpochCount :=
  { c with handles := c.handles - 1 }

/-- The row of `storage_totals`. -/
structure StorageTotals where
  rows : Int
  bytes : Int
deriving DecidableEq

/-- The tables of one relay. -/
structure Tables where
  handles : KeyedTable Row Row.handle
  syncCounter : Nat
  syncWatermarks : KeyedTable WatermarkRow WatermarkRow.peerUrl
  reverse : KeyedTable ReverseRow ReverseRow.numId
  addrs : List AddrRow
  spaceEpochCounts : KeyedTable EpochCount EpochCount.bucket
  storageTotals : StorageTotals
deriving DecidableEq

namespace Tables

/-- The schema on a fresh database. -/
def init : Tables where
  handles := .empty
  syncCounter := 0
  syncWatermarks := .empty
  reverse := .empty
  addrs := []
  spaceEpochCounts := .empty
  storageTotals := ⟨0, 0⟩

/-- Trigger `handles_count_insert`. -/
def handlesCountInsert (db : Tables) (new : Row) : Tables :=
  { db with
    spaceEpochCounts :=
      db.spaceEpochCounts.upsert ⟨new.space, new.epochHeight, 1⟩
        EpochCount.incr (fun _ => rfl)
    storageTotals :=
      ⟨db.storageTotals.rows + 1,
        db.storageTotals.bytes + new.certData.length + new.zoneData.length⟩ }

/-- Trigger `handles_count_delete`. -/
def handlesCountDelete (db : Tables) (old : Row) : Tables :=
  { db with
    spaceEpochCounts :=
      db.spaceEpochCounts.modify (old.space, old.epochHeight)
        EpochCount.decr (fun _ => rfl)
    storageTotals :=
      ⟨db.storageTotals.rows - 1,
        db.storageTotals.bytes - old.certData.length - old.zoneData.length⟩ }

/-- Delete one row of `handles`. -/
def deleteRow (db : Tables) (old : Row) : Tables :=
  handlesCountDelete { db with handles := db.handles.erase old.handle } old

/-- Delete the row that a new row of this handle would displace. -/
def displaceRow (db : Tables) (handle : String) : Tables :=
  match db.handles.find? handle with
  | some old => db.deleteRow old
  | none => db

/-- `INSERT OR REPLACE INTO handles` of one row. -/
def insertOrReplaceRow (db : Tables) (new : Row) : Tables :=
  let db := db.displaceRow new.handle
  handlesCountInsert { db with handles := db.handles.insertOrReplace new } new

/-- `INSERT OR REPLACE INTO handles VALUES ..`, row by row. -/
def insertRows (db : Tables) (rows : List Row) : Tables :=
  rows.foldl insertOrReplaceRow db

/-- The statements on `handles` leave every other relation of the store alone. -/
structure SameRest (db db' : Tables) : Prop where
  syncCounter : db'.syncCounter = db.syncCounter
  syncWatermarks : db'.syncWatermarks = db.syncWatermarks
  reverse : db'.reverse = db.reverse
  addrs : db'.addrs = db.addrs

namespace SameRest

theorem refl (db : Tables) : SameRest db db :=
  ⟨rfl, rfl, rfl, rfl⟩

theorem trans
    {a b c : Tables}
    (h₁ : SameRest a b)
    (h₂ : SameRest b c) :
    SameRest a c :=
  ⟨h₂.syncCounter.trans h₁.syncCounter,
    h₂.syncWatermarks.trans h₁.syncWatermarks,
    h₂.reverse.trans h₁.reverse,
    h₂.addrs.trans h₁.addrs⟩

end SameRest

@[simp] theorem handles_handlesCountInsert
    (db : Tables)
    (new : Row) :
    (db.handlesCountInsert new).handles = db.handles := by
  rfl

@[simp] theorem handles_deleteRow
    (db : Tables)
    (old : Row) :
    (db.deleteRow old).handles = db.handles.erase old.handle := by
  rfl

theorem sameRest_deleteRow
    (db : Tables)
    (old : Row) :
    SameRest db (db.deleteRow old) :=
  ⟨rfl, rfl, rfl, rfl⟩

theorem handles_displaceRow
    (db : Tables)
    (handle : String) :
    (db.displaceRow handle).handles = db.handles.erase handle := by
  unfold displaceRow
  cases h : db.handles.find? handle with
  | some old =>
      rw [handles_deleteRow, (KeyedTable.find?_eq_some_iff.1 h).2]
  | none =>
      rw [KeyedTable.erase_of_find?_none h]

theorem sameRest_displaceRow
    (db : Tables)
    (handle : String) :
    SameRest db (db.displaceRow handle) := by
  unfold displaceRow
  cases db.handles.find? handle with
  | some old =>
      exact sameRest_deleteRow db old
  | none =>
      exact SameRest.refl db

theorem mem_insertOrReplaceRow
    {db : Tables}
    {new r : Row} :
    r ∈ (db.insertOrReplaceRow new).handles.rows ↔
      (r ∈ db.handles.rows ∧ r.handle ≠ new.handle) ∨ r = new := by
  simp only [insertOrReplaceRow, handles_handlesCountInsert,
    KeyedTable.mem_insertOrReplace, handles_displaceRow, KeyedTable.mem_erase]
  tauto

theorem sameRest_insertOrReplaceRow
    (db : Tables)
    (new : Row) :
    SameRest db (db.insertOrReplaceRow new) := by
  have h := sameRest_displaceRow db new.handle
  exact ⟨h.syncCounter, h.syncWatermarks, h.reverse, h.addrs⟩

theorem find?_insertOrReplaceRow
    (db : Tables)
    (new : Row)
    (handle : String) :
    (db.insertOrReplaceRow new).handles.find? handle =
      if new.handle = handle then some new else db.handles.find? handle := by
  split_ifs with h
  · subst h
    exact KeyedTable.find?_eq_some_iff.2 ⟨mem_insertOrReplaceRow.2 (Or.inr rfl), rfl⟩
  · apply KeyedTable.find?_congr
    intro r hr
    rw [mem_insertOrReplaceRow]
    constructor
    · rintro (⟨hmem, _⟩ | rfl)
      · exact hmem
      · exact absurd hr h
    · intro hmem
      exact Or.inl ⟨hmem, fun he => h (he.symm.trans hr)⟩

theorem sameRest_insertRows
    (db : Tables)
    (rows : List Row) :
    SameRest db (db.insertRows rows) := by
  induction rows generalizing db with
  | nil =>
      exact SameRest.refl db
  | cons r rows ih =>
      exact (sameRest_insertOrReplaceRow db r).trans (ih _)

/-- After a bulk insert a handle has its last new row, or else its old one. -/
theorem find?_insertRows
    (db : Tables)
    (rows : List Row)
    (handle : String) :
    (db.insertRows rows).handles.find? handle =
      (Fallible.lastMatch (fun r => decide (r.handle = handle)) rows).or
        (db.handles.find? handle) := by
  induction rows generalizing db with
  | nil =>
      rfl
  | cons r rows ih =>
      have hstep := ih (db.insertOrReplaceRow r)
      rw [find?_insertOrReplaceRow] at hstep
      show ((db.insertOrReplaceRow r).insertRows rows).handles.find? handle = _
      rw [hstep, Fallible.lastMatch_cons]
      by_cases h : r.handle = handle
      · cases Fallible.lastMatch (fun r => decide (r.handle = handle)) rows <;>
          simp [h]
      · cases Fallible.lastMatch (fun r => decide (r.handle = handle)) rows <;>
          simp [h]

/-- Rows after a bulk insert are old rows or new ones. -/
theorem mem_insertRows_of
    {db : Tables}
    {rows : List Row}
    {r : Row}
    (h : r ∈ (db.insertRows rows).handles.rows) :
    r ∈ db.handles.rows ∨ r ∈ rows := by
  have hfind := KeyedTable.find?_key h
  rw [find?_insertRows] at hfind
  cases hlast :
      Fallible.lastMatch (fun s => decide (s.handle = r.handle)) rows with
  | some s =>
      rw [hlast, Option.some_or] at hfind
      cases hfind
      exact Or.inr (Fallible.lastMatch_mem hlast).1
  | none =>
      rw [hlast, Option.none_or] at hfind
      exact Or.inl (KeyedTable.find?_eq_some_iff.1 hfind).1

end Tables

end CertRelay
