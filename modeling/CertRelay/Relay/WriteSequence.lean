import CertRelay.Relay.StoreCalls
import CertRelay.Relay.SyncPage

/-!
# The write sequence

Every stored row carries a number from one counter per relay.  A batch takes the
numbers after the counter, in order; a replaced or evicted row leaves a hole.  The
watermarks of all peers rest on the numbers never being reused.

**Results.**
* `updateHandles_writes`: a call writes rows numbered past the counter;
* `reachable_sequenced`: numbers are distinct and covered by the counter;
* `issued_le_counter`: so are the cursors that the relay ever gives out;
* `write_sequence_invariant`: hence a row is written beyond every cursor given out
  before, in every run.
-/

namespace CertRelay

/-- The numbers of the stored rows are distinct and covered by the counter. -/
structure Sequenced (db : Tables) : Prop where
  distinct : SeqsDistinct db
  le_counter : ∀ r ∈ db.handles.rows, r.syncSeq ≤ db.syncCounter

theorem seqsDistinct_iff
    {db : Tables} :
    SeqsDistinct db ↔
      ∀ r ∈ db.handles.rows, ∀ s ∈ db.handles.rows, r.syncSeq = s.syncSeq → r = s := by
  constructor
  · intro h r hr s hs he
    exact List.inj_on_of_nodup_map h hr hs he
  · intro h
    exact List.Nodup.map_on h (List.Nodup.of_map Row.handle db.handles.nodup)

/-- Dropping rows keeps the sequence. -/
theorem Sequenced.mono
    {db db' : Tables}
    (h : Sequenced db)
    (hrows : ∀ r ∈ db'.handles.rows, r ∈ db.handles.rows)
    (hcounter : db.syncCounter ≤ db'.syncCounter) :
    Sequenced db' := by
  constructor
  · rw [seqsDistinct_iff]
    intro r hr s hs he
    exact seqsDistinct_iff.1 h.distinct r (hrows r hr) s (hrows s hs) he
  · intro r hr
    exact (h.le_counter r (hrows r hr)).trans hcounter

theorem Sequenced.i64Range
    {db : Tables}
    (h : Sequenced db)
    (hcounter : db.syncCounter < 2 ^ 63) :
    I64Range db :=
  ⟨hcounter, fun r hr => (h.le_counter r hr).trans_lt hcounter⟩

theorem sequenced_init : Sequenced Tables.init := by
  constructor
  · exact List.nodup_nil
  · intro r hr
    cases hr

section Writes

variable (V : Crates)

/-- What one call writes: new rows, numbered after the old counter up to the new one. -/
structure WritesRows (db db' : Tables) (rows : List Row) : Prop where
  tables : db' = ({ db with syncCounter := db.syncCounter + rows.length } : Tables).insertRows
    rows
  seqs : rows.map Row.syncSeq = List.range' (db.syncCounter + 1) rows.length

namespace WritesRows

variable {db db' : Tables} {rows : List Row}

theorem counter
    (h : WritesRows db db' rows) :
    db'.syncCounter = db.syncCounter + rows.length := by
  rw [h.tables, (Tables.sameRest_insertRows _ rows).syncCounter]

theorem seq_bounds
    (h : WritesRows db db' rows)
    {r : Row}
    (hr : r ∈ rows) :
    db.syncCounter < r.syncSeq ∧ r.syncSeq ≤ db'.syncCounter := by
  have hmem : r.syncSeq ∈ List.range' (db.syncCounter + 1) rows.length := by
    rw [← h.seqs]
    exact List.mem_map_of_mem hr
  have hrange := List.mem_range'_1.1 hmem
  have hcounter := h.counter
  omega

theorem mem_of
    (h : WritesRows db db' rows)
    {r : Row}
    (hr : r ∈ db'.handles.rows) :
    r ∈ db.handles.rows ∨ r ∈ rows := by
  rw [h.tables] at hr
  exact @Tables.mem_insertRows_of
    { db with syncCounter := db.syncCounter + rows.length } rows r hr

/-- Old rows stay below the old counter and new ones lie above it, so no two numbers meet. -/
theorem sequenced
    (h : WritesRows db db' rows)
    (hdb : Sequenced db) :
    Sequenced db' := by
  have hnew : (rows.map Row.syncSeq).Nodup := by
    rw [h.seqs]
    exact List.nodup_range'
  constructor
  · rw [seqsDistinct_iff]
    intro r hr s hs he
    rcases h.mem_of hr with hrold | hrnew <;> rcases h.mem_of hs with hsold | hsnew
    · exact seqsDistinct_iff.1 hdb.distinct r hrold s hsold he
    · have hle := hdb.le_counter r hrold
      have hlt := (h.seq_bounds hsnew).1
      omega
    · have hle := hdb.le_counter s hsold
      have hlt := (h.seq_bounds hrnew).1
      omega
    · exact List.inj_on_of_nodup_map hnew hrnew hsnew he
  · intro r hr
    rcases h.mem_of hr with hold | hnew
    · have hle := hdb.le_counter r hold
      have hcounter := h.counter
      omega
    · exact (h.seq_bounds hnew).2

end WritesRows

/-- **A call writes rows numbered past the counter**, one for each stored handle. -/
theorem updateHandles_writes
    {now : Nat}
    {db db' : Tables}
    {updates : List HandleRecord}
    {res : BulkStoreResult}
    (h : updateHandles V now db updates = .ok (db', res)) :
    ∃ rows, rows.map Row.handle = res.storedHandles ∧ WritesRows db db' rows := by
  obtain ⟨_, hstored, rows, hrows, rfl⟩ := updateHandles_cases V h
  obtain ⟨hrowOf, hseqs⟩ := valuesRows_ok V hrows
  have hlen := hrowOf.length_eq
  refine ⟨rows, ?_, ?_, ?_⟩
  · rw [hstored]
    exact map_handle_of_rowOf V hrowOf
  · rw [hlen]
  · rw [hseqs, hlen]

/-- **What a call does to the write sequence.**  The counter and the rows stay, or rows
are dropped, or rows are written. -/
theorem runCall_sequence
    (db : Tables)
    (call : StoreCall) :
    ((∀ r ∈ (runCall V db call).handles.rows, r ∈ db.handles.rows) ∧
      (runCall V db call).syncCounter = db.syncCounter) ∨
    ∃ rows, WritesRows db (runCall V db call) rows := by
  rcases runCall_cases V db call with hsame | ⟨handles, mid, _, hsame, heq⟩ | ⟨_, _, _, _, hok⟩
  · left
    rw [hsame.handles, hsame.syncCounter]
    exact ⟨fun _ hr => hr, rfl⟩
  · left
    rw [heq, syncCounter_foldl_deleteRow, hsame.syncCounter]
    refine ⟨fun r hr => ?_, rfl⟩
    rw [mem_foldl_deleteRow, hsame.handles] at hr
    exact hr.1
  · obtain ⟨rows, _, hwrites⟩ := updateHandles_writes V hok
    exact Or.inr ⟨rows, hwrites⟩

theorem sequenced_runCall
    {db : Tables}
    (hdb : Sequenced db)
    (call : StoreCall) :
    Sequenced (runCall V db call) := by
  rcases runCall_sequence V db call with ⟨hrows, hcounter⟩ | ⟨rows, hwrites⟩
  · exact hdb.mono hrows hcounter.ge
  · exact hwrites.sequenced hdb

theorem syncCounter_le_runCall
    (db : Tables)
    (call : StoreCall) :
    db.syncCounter ≤ (runCall V db call).syncCounter := by
  rcases runCall_sequence V db call with ⟨_, hcounter⟩ | ⟨rows, hwrites⟩
  · exact hcounter.ge
  · rw [hwrites.counter]
    exact Nat.le_add_right _ _

theorem syncCounter_le_runCalls
    (db : Tables)
    (calls : List StoreCall) :
    db.syncCounter ≤ (runCalls V db calls).syncCounter :=
  List.foldlRecOn (motive := fun s => db.syncCounter ≤ s.syncCounter) calls (runCall V) le_rfl
    (fun s hs call _ => hs.trans (syncCounter_le_runCall V s call))

/-- **Numbers are distinct and covered by the counter** in every reachable state. -/
theorem reachable_sequenced
    {db : Tables}
    (h : Reachable V db) :
    Sequenced db := by
  obtain ⟨calls, rfl⟩ := h
  exact List.foldlRecOn calls (runCall V) sequenced_init
    (fun _ hdb call _ => sequenced_runCall V hdb call)

end Writes

section Issued

/-- The cursors that a relay gives out: in summaries, which pokes repeat, and in pages. -/
inductive Issued (db : Tables) (cursor : SyncCursor) : Prop
  | summary
      (h : (syncSummary db).latestCursor = some cursor.display) :
      Issued db cursor
  | page
      (order : HashOrder SyncRecord)
      (after : Option SyncCursor)
      (limit maxBytes : UInt64)
      (h : (syncPage order db after limit maxBytes).nextCursor = some cursor.display) :
      Issued db cursor

/-- The advertised cursor is the counter, once it has counted. -/
theorem latestCursor_eq_iff
    {db : Tables}
    {cursor : SyncCursor} :
    (syncSummary db).latestCursor = some cursor.display ↔
      0 < db.syncCounter ∧ SyncCursor.ofCounter db.syncCounter = cursor := by
  simp only [syncSummary, Option.ite_none_right_eq_some, Option.some.injEq]
  constructor
  · rintro ⟨hpos, hdisplay⟩
    exact ⟨hpos, SyncCursor.display_injective hdisplay⟩
  · rintro ⟨hpos, rfl⟩
    exact ⟨hpos, rfl⟩

theorem issued_le_counter
    {db : Tables}
    (hdb : Sequenced db)
    {cursor : SyncCursor}
    (h : Issued db cursor) :
    cursor.val ≤ db.syncCounter := by
  cases h with
  | summary h =>
      obtain ⟨_, rfl⟩ := latestCursor_eq_iff.1 h
      exact Nat.mod_le _ _
  | page order after limit maxBytes h =>
      rw [syncPage_nextCursor] at h
      obtain ⟨m, hlast, hdisplay⟩ := Option.map_eq_some_iff.1 h
      obtain ⟨r, hr, rfl⟩ := stored_of_mem_mainOf (Paging.mem_of_getLast? hlast)
      rw [← SyncCursor.display_injective hdisplay]
      exact (Nat.mod_le _ _).trans (hdb.le_counter r hr)

/-- The advertised cursor follows the counter, whatever was evicted. -/
theorem latestCursor_mono
    {db db' : Tables}
    (hle : db.syncCounter ≤ db'.syncCounter)
    (hrange : db'.syncCounter < 2 ^ 63)
    {cursor : SyncCursor}
    (h : (syncSummary db).latestCursor = some cursor.display) :
    ∃ next : SyncCursor, (syncSummary db').latestCursor = some next.display ∧
      cursor.val ≤ next.val := by
  obtain ⟨hpos, rfl⟩ := latestCursor_eq_iff.1 h
  refine ⟨SyncCursor.ofCounter db'.syncCounter,
    latestCursor_eq_iff.2 ⟨hpos.trans_le hle, rfl⟩, ?_⟩
  rw [SyncCursor.ofCounter_val (by omega), SyncCursor.ofCounter_val (by omega)]
  exact hle

end Issued

/-- **The write sequence.**  After any calls the numbers are distinct and lie between 1 and
the counter; later calls do not lower the counter or the advertised cursor; and a row that a
later call writes lies beyond the counter before that call and beyond every cursor that was
given out before. -/
theorem write_sequence_invariant
    (V : Crates)
    (calls later : List StoreCall) :
    SeqsDistinct (runCalls V Tables.init calls) ∧
    (∀ r ∈ (runCalls V Tables.init calls).handles.rows,
      1 ≤ r.syncSeq ∧ r.syncSeq ≤ (runCalls V Tables.init calls).syncCounter) ∧
    (runCalls V Tables.init calls).syncCounter ≤
      (runCalls V Tables.init (calls ++ later)).syncCounter ∧
    ((runCalls V Tables.init (calls ++ later)).syncCounter < 2 ^ 63 →
      ∀ cursor : SyncCursor, (syncSummary (runCalls V Tables.init calls)).latestCursor =
          some cursor.display →
        ∃ next : SyncCursor, (syncSummary (runCalls V Tables.init (calls ++ later))).latestCursor =
          some next.display ∧ cursor.val ≤ next.val) ∧
    ∀ now updates db' res,
      updateHandles V now (runCalls V Tables.init (calls ++ later)) updates = .ok (db', res) →
      ∃ rows, rows.map Row.handle = res.storedHandles ∧
        WritesRows (runCalls V Tables.init (calls ++ later)) db' rows ∧
        ∀ r ∈ rows,
          (runCalls V Tables.init (calls ++ later)).syncCounter < r.syncSeq ∧
          ∀ cursor, Issued (runCalls V Tables.init calls) cursor → cursor.val < r.syncSeq := by
  have hdb : Sequenced (runCalls V Tables.init calls) :=
    reachable_sequenced V ⟨calls, rfl⟩
  have hmono : (runCalls V Tables.init calls).syncCounter ≤
      (runCalls V Tables.init (calls ++ later)).syncCounter := by
    rw [runCalls_append]
    exact syncCounter_le_runCalls V _ later
  refine ⟨hdb.distinct, fun r hr => ⟨r.syncSeq_pos, hdb.le_counter r hr⟩, hmono, ?_, ?_⟩
  · intro hrange cursor hcursor
    exact latestCursor_mono hmono hrange hcursor
  · intro now updates db' res hok
    obtain ⟨rows, hhandles, hwrites⟩ := updateHandles_writes V hok
    refine ⟨rows, hhandles, hwrites, fun r hr => ⟨(hwrites.seq_bounds hr).1, ?_⟩⟩
    intro cursor hissued
    have hle := (issued_le_counter hdb hissued).trans hmono
    exact hle.trans_lt (hwrites.seq_bounds hr).1

end CertRelay
