import CertRelay.Relay.Schema
import CertRelay.Relay.SyncCursor
import CertRelay.Lib.Paging
import Mathlib.Data.List.DropRight
import Mathlib.Data.List.Sort

/-!
# Sync pages

`sync_page` selects the rows after a cursor in `sync_seq` order, cuts the selection
at a row limit and at a byte limit, looks up the roots that its sub-handles need and
that lie beyond the page, and then shortens the page from its tail until rows and
roots fit under a hard cap.  A root that is popped on the way is kept for the
sub-handles before it.

**Results.**
* `selection_eq`: the selection is what lies beyond the cursor, in order;
* `trim_cases`: trimming pops a tail, never the whole page, and keeps its roots;
* `mainOf_isPage`: the rows of a page are a page of the write sequence;
* `syncPage_records`, `syncPage_nextCursor`: what a page ships.
-/

namespace CertRelay

/-- One stored row as it is served. -/
structure SyncRecord where
  handle : String
  epochHeight : Nat
  seq : Nat
  delegateSeq : Nat
  cert : Bytes
  zone : Bytes
deriving DecidableEq

/-- The space portion of a handle: from its first `@` or `#` on. -/
def spaceNameOf (handle : String) : String :=
  match handle.toList.dropWhile (fun c => c != '@' && c != '#') with
  | [] => handle
  | c :: cs => String.ofList (c :: cs)

theorem spaceNameOf_idem
    (handle : String) :
    spaceNameOf (spaceNameOf handle) = spaceNameOf handle := by
  have hdrop := List.dropWhile_idempotent
    (fun c => c != '@' && c != '#') handle.toList
  cases h : handle.toList.dropWhile (fun c => c != '@' && c != '#') with
  | nil =>
      have hself : spaceNameOf handle = handle := by
        unfold spaceNameOf
        rw [h]
      rw [hself, hself]
  | cons c cs =>
      rw [h] at hdrop
      have hspace : spaceNameOf handle = String.ofList (c :: cs) := by
        unfold spaceNameOf
        rw [h]
      rw [hspace]
      unfold spaceNameOf
      rw [String.toList_ofList, hdrop]

namespace SyncRecord

/-- `SyncRecord::space_name`. -/
def spaceName (r : SyncRecord) : String :=
  spaceNameOf r.handle

/-- The record is of a handle under a space, not of a space. -/
def IsSub (r : SyncRecord) : Prop :=
  r.handle ≠ r.spaceName

instance (r : SyncRecord) : Decidable r.IsSub :=
  inferInstanceAs (Decidable (r.handle ≠ r.spaceName))

def bytes (r : SyncRecord) : Nat :=
  r.cert.length + r.zone.length

end SyncRecord

/-- The columns of a row that are served. -/
def Row.record (r : Row) : SyncRecord :=
  ⟨r.handle, r.epochHeight, r.offchainSeq, r.delegateOffchainSeq, r.certData, r.zoneData⟩

/-- A served row with its `sync_seq`. -/
def Row.served (r : Row) : SyncRecord × Nat :=
  (r.record, r.syncSeq)

@[simp] theorem Row.served_snd
    (r : Row) :
    r.served.2 = r.syncSeq := by
  rfl

structure SyncPage where
  records : List SyncRecord
  nextCursor : Option String
deriving DecidableEq

structure SyncSummary where
  count : Nat
  latestCursor : Option String
deriving DecidableEq

/-- The iteration order of a hash table. -/
structure HashOrder (α : Type) where
  arrange : List α → List α
  perm : ∀ l, (arrange l).Perm l

/-- Iteration in insertion order. -/
def HashOrder.inserted {α : Type} : HashOrder α :=
  ⟨id, fun _ => List.Perm.refl _⟩

@[simp] theorem HashOrder.mem_arrange
    {α : Type}
    (order : HashOrder α)
    {l : List α}
    {a : α} :
    a ∈ order.arrange l ↔ a ∈ l :=
  (order.perm l).mem_iff

/-- Roots by handle. -/
abbrev Roots := KeyedTable SyncRecord SyncRecord.handle

section Page

/-- Rows in `sync_seq` order. -/
def orderBySyncSeq (rows : List Row) : List Row :=
  rows.insertionSort (fun a b => a.syncSeq ≤ b.syncSeq)

/-- `LIMIT ?`, where `limit as i64` is negative from `2^63` on: no limit. -/
def sqlLimit (limit : UInt64) (rows : List Row) : List Row :=
  if limit.toNat < 2 ^ 63 then rows.take limit.toNat else rows

/-- `cursor.map(|c| c.0 as i64).unwrap_or(0)`. -/
def afterOf (cursor : Option SyncCursor) : Int :=
  (cursor.map SyncCursor.asI64).getD 0

/-- `WHERE sync_seq > ? ORDER BY sync_seq`. -/
def selection (db : Tables) (after : Int) : List Row :=
  orderBySyncSeq (db.handles.rows.filter (fun r => decide (after < (r.syncSeq : Int))))

/-- The reading loop: it stops after the row with which the bytes exceed the bound. -/
def cutBytes (maxBytes : Nat) : Nat → List (SyncRecord × Nat) → List (SyncRecord × Nat)
  | _, [] => []
  | bytes, row :: rows =>
      if maxBytes < bytes + row.1.bytes then [row]
      else row :: cutBytes maxBytes (bytes + row.1.bytes) rows

/-- The rows read before roots are considered. -/
def readRows (db : Tables) (after : Int) (limit maxBytes : UInt64) :
    List (SyncRecord × Nat) :=
  cutBytes maxBytes.toNat 0 ((sqlLimit limit (selection db after)).map Row.served)

/-- The spaces of the sub-handles among some rows. -/
def subSpaces (rows : List (SyncRecord × Nat)) : List String :=
  (rows.filter (fun r => decide r.1.IsSub)).map (fun r => r.1.spaceName)

/-- The `sync_seq` of the last row read, or the cursor. -/
def lastSeq (after : Int) (main : List (SyncRecord × Nat)) : Int :=
  match main.getLast? with
  | some row => row.2
  | none => after

/-- Rows of the query for the roots beyond the page. -/
def rootRows (db : Tables) (spaces : List String) (last : Int) : KeyedTable Row Row.handle :=
  db.handles.filter (fun r =>
    decide (r.handle ∈ spaces) && decide (r.handle = r.space) &&
      decide (last < (r.syncSeq : Int)))

/-- The records of some rows, by handle. -/
def recordsOf (t : KeyedTable Row Row.handle) : Roots where
  rows := t.rows.map Row.record
  nodup := by
    rw [List.map_map]
    exact t.nodup

/-- The roots read beyond the page. -/
def readRoots (db : Tables) (after : Int) (main : List (SyncRecord × Nat)) : Roots :=
  if (subSpaces main).isEmpty then .empty
  else recordsOf (rootRows db (subSpaces main) (lastSeq after main))

/-- The roots that the sub-handles of a page need. -/
def neededRoots (main : List (SyncRecord × Nat)) (roots : List SyncRecord) :
    List SyncRecord :=
  roots.filter (fun r => decide (r.handle ∈ subSpaces main))

/-- Bytes of a page with the roots that it needs. -/
def total (main : List (SyncRecord × Nat)) (roots : Roots) : Nat :=
  (main.map (fun r => r.1.bytes)).sum +
    ((neededRoots main roots.rows).map SyncRecord.bytes).sum

/-- Keep a popped root for the sub-handles before it. -/
def rehome (roots : Roots) (popped : SyncRecord × Nat) : Roots :=
  if popped.1.IsSub then roots else roots.insertOrIgnore popped.1

/-- The trimming loop.  Rows are popped from the tail, so the page is walked with
its last row first. -/
def trim (hardCap : Nat) : List (SyncRecord × Nat) → Roots → List (SyncRecord × Nat) × Roots
  | popped :: row :: rest, roots =>
      if hardCap < total (popped :: row :: rest) roots then
        trim hardCap (row :: rest) (rehome roots popped)
      else (popped :: row :: rest, roots)
  | main, roots => (main, roots)

/-- `max_bytes.saturating_mul(2)`. -/
def hardCapOf (maxBytes : UInt64) : Nat :=
  min (2 * maxBytes.toNat) (2 ^ 64 - 1)

/-- The rows and roots after trimming, rows in page order. -/
def trimmed (db : Tables) (after : Int) (limit maxBytes : UInt64) :
    List (SyncRecord × Nat) × Roots :=
  let main := readRows db after limit maxBytes
  let (main, roots) := trim (hardCapOf maxBytes) main.reverse (readRoots db after main)
  (main.reverse, roots)

/-- `SqliteStore::sync_page`. -/
def syncPage (order : HashOrder SyncRecord) (db : Tables) (cursor : Option SyncCursor)
    (limit maxBytes : UInt64) : SyncPage :=
  let (main, roots) := trimmed db (afterOf cursor) limit maxBytes
  { records := main.map Prod.fst ++ neededRoots main (order.arrange roots.rows)
    nextCursor := main.getLast?.map (fun r => (SyncCursor.ofCounter r.2).display) }

/-- `SqliteStore::sync_summary`. -/
def syncSummary (db : Tables) : SyncSummary where
  count := db.handles.rows.length
  latestCursor :=
    if 0 < db.syncCounter then some (SyncCursor.ofCounter db.syncCounter).display
    else none

end Page

section WriteSequence

/-- The stored rows in `sync_seq` order. -/
def writeSequence (db : Tables) : List Row :=
  orderBySyncSeq db.handles.rows

/-- No two rows share a `sync_seq`. -/
def SeqsDistinct (db : Tables) : Prop :=
  (db.handles.rows.map Row.syncSeq).Nodup

/-- The write counter and the sequence numbers fit the integers of the database. -/
structure I64Range (db : Tables) : Prop where
  counter : db.syncCounter < 2 ^ 63
  rows : ∀ r ∈ db.handles.rows, r.syncSeq < 2 ^ 63

/-- The position of a cursor in the write sequence; no cursor is before every row. -/
def positionOf (cursor : Option SyncCursor) : Nat :=
  (cursor.map SyncCursor.val).getD 0

theorem afterOf_eq
    {cursor : Option SyncCursor}
    (h : positionOf cursor < 2 ^ 63) :
    afterOf cursor = positionOf cursor := by
  cases cursor with
  | none =>
      rfl
  | some c =>
      exact SyncCursor.asI64_of_lt h

instance : Std.Total (fun a b : Row => a.syncSeq ≤ b.syncSeq) :=
  ⟨fun a b => le_total a.syncSeq b.syncSeq⟩

instance : IsTrans Row (fun a b : Row => a.syncSeq ≤ b.syncSeq) :=
  ⟨fun _ _ _ hab hbc => le_trans hab hbc⟩

theorem perm_writeSequence
    (db : Tables) :
    (writeSequence db).Perm db.handles.rows :=
  List.perm_insertionSort _ _

theorem mem_writeSequence
    {db : Tables}
    {r : Row} :
    r ∈ writeSequence db ↔ r ∈ db.handles.rows :=
  (perm_writeSequence db).mem_iff

/-- Sorting rows of distinct numbers gives a strictly ascending list. -/
theorem ascending_orderBySyncSeq
    {rows : List Row}
    (h : (rows.map Row.syncSeq).Nodup) :
    Paging.Ascending Row.syncSeq (orderBySyncSeq rows) := by
  have hle := List.pairwise_insertionSort (fun a b : Row => a.syncSeq ≤ b.syncSeq) rows
  have hperm := List.perm_insertionSort (fun a b : Row => a.syncSeq ≤ b.syncSeq) rows
  have hnodup : ((orderBySyncSeq rows).map Row.syncSeq).Nodup :=
    (hperm.map Row.syncSeq).nodup_iff.2 h
  have hne : (orderBySyncSeq rows).Pairwise (fun a b => a.syncSeq ≠ b.syncSeq) :=
    List.pairwise_map.1 hnodup
  exact hle.imp₂ (fun _ _ hab hne => lt_of_le_of_ne hab hne) hne

theorem ascending_writeSequence
    {db : Tables}
    (h : SeqsDistinct db) :
    Paging.Ascending Row.syncSeq (writeSequence db) :=
  ascending_orderBySyncSeq h

/-- **The selection is what lies beyond the cursor**, in order. -/
theorem selection_eq
    {db : Tables}
    (h : SeqsDistinct db)
    (c : Nat) :
    selection db c = Paging.after Row.syncSeq c (writeSequence db) := by
  have hsub : (db.handles.rows.filter
      (fun r => decide ((c : Int) < (r.syncSeq : Int)))).Sublist db.handles.rows :=
    List.filter_sublist
  have hselection : Paging.Ascending Row.syncSeq (selection db c) :=
    ascending_orderBySyncSeq ((hsub.map Row.syncSeq).nodup h)
  have hafter := (ascending_writeSequence h).after c
  have hperm : (selection db c).Perm (Paging.after Row.syncSeq c (writeSequence db)) := by
    rw [List.perm_ext_iff_of_nodup (hselection.imp fun hab he => (he ▸ hab).false)
      (hafter.imp fun hab he => (he ▸ hab).false)]
    intro r
    unfold selection orderBySyncSeq
    rw [List.mem_insertionSort, List.mem_filter, Paging.mem_after, mem_writeSequence]
    simp
  refine hperm.eq_of_pairwise ?_ hselection hafter
  intro a b _ _ hab hba
  exact absurd hab hba.asymm

end WriteSequence

section Reading

theorem cutBytes_isPrefix
    (maxBytes bytes : Nat)
    (rows : List (SyncRecord × Nat)) :
    cutBytes maxBytes bytes rows <+: rows := by
  induction rows generalizing bytes with
  | nil =>
      exact List.prefix_refl []
  | cons row rows ih =>
      unfold cutBytes
      split_ifs
      · exact List.prefix_append [row] rows
      · exact List.cons_prefix_cons.2 ⟨rfl, ih _⟩

/-- The reading loop keeps the first row, however large. -/
theorem cutBytes_ne_nil
    {maxBytes bytes : Nat}
    {rows : List (SyncRecord × Nat)}
    (h : rows ≠ []) :
    cutBytes maxBytes bytes rows ≠ [] := by
  cases rows with
  | nil =>
      exact absurd rfl h
  | cons row rows =>
      unfold cutBytes
      split_ifs <;> simp

theorem sqlLimit_isPrefix
    (limit : UInt64)
    (rows : List Row) :
    sqlLimit limit rows <+: rows := by
  unfold sqlLimit
  split_ifs
  · exact List.take_prefix _ rows
  · exact List.prefix_refl rows

theorem sqlLimit_ne_nil
    {limit : UInt64}
    (hlimit : 1 ≤ limit)
    {rows : List Row}
    (h : rows ≠ []) :
    sqlLimit limit rows ≠ [] := by
  have hpos : 1 ≤ limit.toNat := UInt64.le_iff_toNat_le.1 hlimit
  unfold sqlLimit
  split_ifs
  · rw [Ne, List.take_eq_nil_iff]
    rintro (hzero | hnil)
    · omega
    · exact h hnil
  · exact h

theorem readRows_isPrefix
    (db : Tables)
    (after : Int)
    (limit maxBytes : UInt64) :
    readRows db after limit maxBytes <+: (selection db after).map Row.served :=
  (cutBytes_isPrefix _ _ _).trans ((sqlLimit_isPrefix limit _).map Row.served)

theorem readRows_ne_nil
    {db : Tables}
    {after : Int}
    {limit maxBytes : UInt64}
    (hlimit : 1 ≤ limit)
    (h : selection db after ≠ []) :
    readRows db after limit maxBytes ≠ [] :=
  cutBytes_ne_nil (by simpa using sqlLimit_ne_nil hlimit h)

/-- A row that was read is a stored row beyond the cursor. -/
theorem exists_row_of_mem_readRows
    {db : Tables}
    {after : Int}
    {limit maxBytes : UInt64}
    {m : SyncRecord × Nat}
    (h : m ∈ readRows db after limit maxBytes) :
    ∃ r ∈ db.handles.rows, r.served = m := by
  obtain ⟨r, hr, rfl⟩ :=
    List.mem_map.1 ((readRows_isPrefix db after limit maxBytes).subset h)
  exact ⟨r, (List.mem_filter.1 ((List.mem_insertionSort _).1 hr)).1, rfl⟩

theorem mem_subSpaces
    {main : List (SyncRecord × Nat)}
    {space : String} :
    space ∈ subSpaces main ↔ ∃ m ∈ main, m.1.IsSub ∧ m.1.spaceName = space := by
  simp only [subSpaces, List.mem_map, List.mem_filter, decide_eq_true_eq, and_assoc]

/-- The last row of an ascending page has the highest `sync_seq`. -/
theorem lastSeq_lt_iff
    {after : Int}
    {main : List (SyncRecord × Nat)}
    (hasc : Paging.Ascending Prod.snd main)
    (hne : main ≠ [])
    {seq : Nat} :
    lastSeq after main < seq ↔ ∀ m ∈ main, m.2 < seq := by
  obtain ⟨x, hlast⟩ := Option.ne_none_iff_exists'.1
    (fun h => hne (List.getLast?_eq_none_iff.1 h))
  simp only [lastSeq, hlast, Int.ofNat_lt]
  constructor
  · intro hlt m hm
    exact (hasc.le_last hlast hm).trans_lt hlt
  · intro hall
    exact hall x (Paging.mem_of_getLast? hlast)

/-- The roots that were read: stored roots of spaces of the page, beyond the page. -/
theorem mem_readRoots
    {db : Tables}
    {after : Int}
    {main : List (SyncRecord × Nat)}
    {rec : SyncRecord} :
    rec ∈ (readRoots db after main).rows ↔
      ∃ r ∈ db.handles.rows, r.record = rec ∧ r.handle ∈ subSpaces main ∧
        r.IsRoot ∧ lastSeq after main < r.syncSeq := by
  unfold readRoots
  split_ifs with hempty
  · rw [List.isEmpty_iff] at hempty
    simp [hempty]
  · simp only [recordsOf, rootRows, KeyedTable.filter, List.mem_map, List.mem_filter,
      Bool.and_eq_true, decide_eq_true_eq, Row.IsRoot]
    constructor
    · rintro ⟨r, ⟨hr, ⟨hspace, hroot⟩, hlast⟩, rfl⟩
      exact ⟨r, hr, rfl, hspace, hroot, hlast⟩
    · rintro ⟨r, hr, rfl, hspace, hroot, hlast⟩
      exact ⟨r, ⟨hr, ⟨hspace, hroot⟩, hlast⟩, rfl⟩

end Reading

section Trimming

/-- **Trimming pops a tail, never the whole page, and keeps its roots.** -/
theorem trim_cases
    (hardCap : Nat)
    (main : List (SyncRecord × Nat))
    (roots : Roots) :
    ∃ popped, main = popped ++ (trim hardCap main roots).1 ∧
      (main ≠ [] → (trim hardCap main roots).1 ≠ []) ∧
      (trim hardCap main roots).2 = popped.foldl rehome roots := by
  fun_induction trim hardCap main roots with
  | case1 popped row rest roots hcap ih =>
      obtain ⟨more, hmain, hne, hroots⟩ := ih
      refine ⟨popped :: more, ?_, fun _ => hne (by simp), ?_⟩
      · rw [List.cons_append, ← hmain]
      · rw [hroots, List.foldl_cons]
  | case2 popped row rest roots hcap =>
      exact ⟨[], rfl, fun h => h, rfl⟩
  | case3 main roots =>
      exact ⟨[], rfl, fun h => h, rfl⟩

theorem trimmed_cases
    (db : Tables)
    (after : Int)
    (limit maxBytes : UInt64) :
    ∃ popped : List (SyncRecord × Nat),
      readRows db after limit maxBytes =
        (trimmed db after limit maxBytes).1 ++ popped.reverse ∧
      (readRows db after limit maxBytes ≠ [] → (trimmed db after limit maxBytes).1 ≠ []) ∧
      (trimmed db after limit maxBytes).2 =
        popped.foldl rehome (readRoots db after (readRows db after limit maxBytes)) := by
  obtain ⟨popped, hmain, hne, hroots⟩ :=
    trim_cases (hardCapOf maxBytes) (readRows db after limit maxBytes).reverse
      (readRoots db after (readRows db after limit maxBytes))
  refine ⟨popped, ?_, ?_, hroots⟩
  · rw [← List.reverse_inj, List.reverse_append, List.reverse_reverse]
    unfold trimmed
    rw [List.reverse_reverse]
    exact hmain
  · intro h
    unfold trimmed
    rw [Ne, List.reverse_eq_nil_iff]
    exact hne (by simpa using h)

/-- What one pop does to the roots. -/
theorem mem_rehome
    {roots : Roots}
    {popped : SyncRecord × Nat}
    {r : SyncRecord} :
    r ∈ (rehome roots popped).rows ↔
      r ∈ roots.rows ∨
        (¬ popped.1.IsSub ∧ r = popped.1 ∧ roots.find? popped.1.handle = none) := by
  unfold rehome
  split_ifs with hsub
  · simp [hsub]
  · simp [hsub, KeyedTable.mem_insertOrIgnore]

theorem subset_foldl_rehome
    (popped : List (SyncRecord × Nat))
    (roots : Roots) :
    roots.rows ⊆ (popped.foldl rehome roots).rows := by
  induction popped generalizing roots with
  | nil =>
      exact List.Subset.refl _
  | cons p popped ih =>
      intro r hr
      exact ih (rehome roots p) (mem_rehome.2 (Or.inl hr))

/-- A root kept by trimming was there before, or was popped. -/
theorem mem_foldl_rehome_of
    {popped : List (SyncRecord × Nat)}
    {roots : Roots}
    {r : SyncRecord}
    (h : r ∈ (popped.foldl rehome roots).rows) :
    r ∈ roots.rows ∨ (¬ r.IsSub ∧ ∃ p ∈ popped, p.1 = r) := by
  induction popped generalizing roots with
  | nil =>
      exact Or.inl h
  | cons p popped ih =>
      rcases ih h with hstep | ⟨hsub, q, hq, rfl⟩
      · rcases mem_rehome.1 hstep with hr | ⟨hp, rfl, _⟩
        · exact Or.inl hr
        · exact Or.inr ⟨hp, p, List.mem_cons_self, rfl⟩
      · exact Or.inr ⟨hsub, q, List.mem_cons_of_mem p hq, rfl⟩

/-- **A popped root keeps its place among the roots.** -/
theorem rehomed
    {popped : List (SyncRecord × Nat)}
    (roots : Roots)
    {p : SyncRecord × Nat}
    (hp : p ∈ popped)
    (hroot : ¬ p.1.IsSub) :
    ∃ r ∈ (popped.foldl rehome roots).rows, r.handle = p.1.handle := by
  induction popped generalizing roots with
  | nil =>
      cases hp
  | cons q popped ih =>
      rcases List.mem_cons.1 hp with rfl | hp
      · -- at the pop the handle is either taken already or inserted
        have hstep : ∃ r ∈ (rehome roots p).rows, r.handle = p.1.handle := by
          cases hfind : roots.find? p.1.handle with
          | some r =>
              obtain ⟨hr, hhandle⟩ := KeyedTable.find?_eq_some_iff.1 hfind
              exact ⟨r, mem_rehome.2 (Or.inl hr), hhandle⟩
          | none =>
              exact ⟨p.1, mem_rehome.2 (Or.inr ⟨hroot, rfl, hfind⟩), rfl⟩
        obtain ⟨r, hr, hhandle⟩ := hstep
        exact ⟨r, subset_foldl_rehome popped _ hr, hhandle⟩
      · exact ih (rehome roots q) hp

end Trimming

section Shipping

/-- The rows that a page ships in cursor order. -/
def mainOf (db : Tables) (cursor : Option SyncCursor) (limit maxBytes : UInt64) :
    List (SyncRecord × Nat) :=
  (trimmed db (afterOf cursor) limit maxBytes).1

/-- The roots that a page ships besides. -/
def appendedOf (order : HashOrder SyncRecord) (db : Tables) (cursor : Option SyncCursor)
    (limit maxBytes : UInt64) : List SyncRecord :=
  neededRoots (mainOf db cursor limit maxBytes)
    (order.arrange (trimmed db (afterOf cursor) limit maxBytes).2.rows)

theorem syncPage_records
    (order : HashOrder SyncRecord)
    (db : Tables)
    (cursor : Option SyncCursor)
    (limit maxBytes : UInt64) :
    (syncPage order db cursor limit maxBytes).records =
      (mainOf db cursor limit maxBytes).map Prod.fst ++
        appendedOf order db cursor limit maxBytes := by
  rfl

theorem syncPage_nextCursor
    (order : HashOrder SyncRecord)
    (db : Tables)
    (cursor : Option SyncCursor)
    (limit maxBytes : UInt64) :
    (syncPage order db cursor limit maxBytes).nextCursor =
      (mainOf db cursor limit maxBytes).getLast?.map
        (fun r => (SyncCursor.ofCounter r.2).display) := by
  rfl

theorem appendedOf_of_mainOf_nil
    {order : HashOrder SyncRecord}
    {db : Tables}
    {cursor : Option SyncCursor}
    {limit maxBytes : UInt64}
    (h : mainOf db cursor limit maxBytes = []) :
    appendedOf order db cursor limit maxBytes = [] := by
  simp [appendedOf, h, neededRoots, subSpaces]

theorem stored_of_mem_mainOf
    {db : Tables}
    {cursor : Option SyncCursor}
    {limit maxBytes : UInt64}
    {m : SyncRecord × Nat}
    (h : m ∈ mainOf db cursor limit maxBytes) :
    ∃ r ∈ db.handles.rows, r.served = m := by
  obtain ⟨popped, hread, _⟩ := trimmed_cases db (afterOf cursor) limit maxBytes
  apply exists_row_of_mem_readRows
  rw [hread]
  exact List.mem_append_left _ h

variable {db : Tables}

/-- The write sequence as it is served. -/
theorem ascending_served
    (h : SeqsDistinct db) :
    Paging.Ascending Prod.snd ((writeSequence db).map Row.served) :=
  (ascending_writeSequence h).map Row.served_snd

variable (hseq : SeqsDistinct db) {cursor : Option SyncCursor}
  (hcursor : positionOf cursor < 2 ^ 63) (limit maxBytes : UInt64)
include hseq hcursor

/-- The rows read are the first rows beyond the cursor. -/
theorem readRows_prefix_served :
    readRows db (afterOf cursor) limit maxBytes <+:
      Paging.after Prod.snd (positionOf cursor) ((writeSequence db).map Row.served) := by
  have hpre := readRows_isPrefix db (afterOf cursor) limit maxBytes
  rw [afterOf_eq hcursor, selection_eq hseq] at hpre
  rw [Paging.after_map Row.served_snd, afterOf_eq hcursor]
  exact hpre

/-- **The rows of a page are a page of the write sequence.** -/
theorem mainOf_isPage
    (hlimit : 1 ≤ limit) :
    Paging.IsPage Prod.snd ((writeSequence db).map Row.served) (positionOf cursor)
      (mainOf db cursor limit maxBytes) := by
  obtain ⟨popped, hread, hne, _⟩ := trimmed_cases db (afterOf cursor) limit maxBytes
  constructor
  · have hpre : mainOf db cursor limit maxBytes <+:
        readRows db (afterOf cursor) limit maxBytes := by
      rw [hread]
      exact List.prefix_append _ _
    exact hpre.trans (readRows_prefix_served hseq hcursor limit maxBytes)
  · intro hbeyond
    apply hne
    apply readRows_ne_nil hlimit
    rw [afterOf_eq hcursor, selection_eq hseq]
    intro hnil
    apply hbeyond
    rw [Paging.after_map Row.served_snd, hnil]
    rfl

/-- Where an appended root is stored: beyond the rows of its page. -/
structure BeyondPage (db : Tables) (main : List (SyncRecord × Nat)) (rec : SyncRecord) :
    Prop where
  isRoot : ¬ rec.IsSub
  stored : ∃ r ∈ db.handles.rows, r.record = rec ∧ ∀ m ∈ main, m.2 < r.syncSeq

/-- **Every root kept for a page is stored beyond the rows of the page.** -/
theorem beyondPage_of_mem_trimmed
    {rec : SyncRecord}
    (hrec : rec ∈ (trimmed db (afterOf cursor) limit maxBytes).2.rows) :
    BeyondPage db (mainOf db cursor limit maxBytes) rec := by
  obtain ⟨popped, hread, _, hroots⟩ := trimmed_cases db (afterOf cursor) limit maxBytes
  have hread' : readRows db (afterOf cursor) limit maxBytes =
      mainOf db cursor limit maxBytes ++ popped.reverse := hread
  have hasc : Paging.Ascending Prod.snd (readRows db (afterOf cursor) limit maxBytes) :=
    ((ascending_served hseq).after _).of_isPrefix
      (readRows_prefix_served hseq hcursor limit maxBytes)
  rw [hroots] at hrec
  rcases mem_foldl_rehome_of hrec with hfound | ⟨hsub, p, hp, rfl⟩
  · obtain ⟨r, hr, rfl, hspace, _, hlast⟩ := mem_readRoots.1 hfound
    obtain ⟨m₀, hm₀, _, hname⟩ := mem_subSpaces.1 hspace
    refine ⟨?_, r, hr, rfl, fun m hm => ?_⟩
    · show ¬ r.handle ≠ spaceNameOf r.handle
      rw [← hname]
      exact not_not.2 (spaceNameOf_idem _).symm
    · have hne : readRows db (afterOf cursor) limit maxBytes ≠ [] := List.ne_nil_of_mem hm₀
      apply (lastSeq_lt_iff hasc hne).1 hlast m
      rw [hread']
      exact List.mem_append_left _ hm
  · have hpread : p ∈ popped.reverse := List.mem_reverse.2 hp
    obtain ⟨r, hr, rfl⟩ := exists_row_of_mem_readRows (m := p) (by
      rw [hread']
      exact List.mem_append_right _ hpread)
    refine ⟨hsub, r, hr, rfl, fun m hm => ?_⟩
    rw [hread'] at hasc
    exact (List.pairwise_append.1 hasc).2.2 m hm r.served hpread

theorem beyondPage_of_mem_appendedOf
    {order : HashOrder SyncRecord}
    {rec : SyncRecord}
    (hrec : rec ∈ appendedOf order db cursor limit maxBytes) :
    BeyondPage db (mainOf db cursor limit maxBytes) rec := by
  have hmem := (List.mem_filter.1 hrec).1
  exact beyondPage_of_mem_trimmed hseq hcursor limit maxBytes (order.mem_arrange.1 hmem)

end Shipping

section Sample

/-- A sub-handle whose root was republished after it. -/
def sampleStore : Tables :=
  Tables.insertRows { Tables.init with syncCounter := 2 }
    [⟨"alice@bitcoin", "@bitcoin", [1], [2], 1, 1, 0, 1, [0], 0, by decide⟩,
      ⟨"@bitcoin", "@bitcoin", [1, 1], [2, 2], 1, 1, 0, 2, [0], 0, by decide⟩]

theorem sampleStore_seqsDistinct : SeqsDistinct sampleStore := by
  unfold SeqsDistinct
  decide

theorem sampleStore_i64Range : I64Range sampleStore :=
  ⟨by decide, by decide⟩

/-- A page of one row ships the root besides, and its cursor is that of the row. -/
example : syncPage HashOrder.inserted sampleStore none 1 0 =
    ⟨[⟨"alice@bitcoin", 1, 1, 0, [1], [2]⟩, ⟨"@bitcoin", 1, 1, 0, [1, 1], [2, 2]⟩],
      some "1"⟩ := by
  decide

end Sample

end CertRelay
