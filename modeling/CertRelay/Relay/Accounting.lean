import Mathlib.Algebra.BigOperators.Ring.Finset
import CertRelay.Relay.StoreCalls

/-!
# Storage accounting

The triggers on `handles` keep two tables of totals.  A bulk replace fires them
once for every displaced and every inserted row, also for a row that the same
statement displaces again.

**Results.**
* `accounted_deleteRow`, `accounted_insertOrReplaceRow`: firing the triggers of
  one row keeps the accounting exact;
* `storage_accounting_exact`: it is exact in every reachable state, and a bucket
  exists for exactly the spaces and epochs ever stored.
-/

namespace CertRelay

/-- The space and epoch that a row counts for. -/
def Row.bucket (r : Row) : String × Nat :=
  (r.space, r.epochHeight)

namespace Tables

/-- `SqliteStore::storage_totals`. -/
def readStorageTotals (db : Tables) : Nat × Nat :=
  ((max db.storageTotals.rows 0).toNat, (max db.storageTotals.bytes 0).toNat)

/-- `SqliteStore::space_usage`. -/
def spaceUsage (db : Tables) (space : String) : Nat × Nat :=
  let rows := db.spaceEpochCounts.rows.filter (fun c => decide (c.space = space))
  ((max (rows.map EpochCount.handles).sum 0).toNat, rows.length)

/-- Stored rows of a space and epoch. -/
def bucketCount (db : Tables) (b : String × Nat) : ℤ :=
  KeyedTable.total (fun r => if r.bucket = b then 1 else 0) db.handles

/-- The buckets after `handles_count_delete`. -/
theorem find?_handlesCountDelete
    (db : Tables)
    (old : Row)
    (b : String × Nat) :
    (db.handlesCountDelete old).spaceEpochCounts.find? b =
      (db.spaceEpochCounts.find? b).map
        (fun c => if b = old.bucket then c.decr else c) :=
  KeyedTable.find?_modify (f := EpochCount.decr) (fun _ => rfl) db.spaceEpochCounts
    old.bucket b

/-- The buckets after `handles_count_insert`. -/
theorem find?_handlesCountInsert
    (db : Tables)
    (new : Row)
    (b : String × Nat) :
    (db.handlesCountInsert new).spaceEpochCounts.find? b =
      if b = new.bucket then
        some (((db.spaceEpochCounts.find? b).map EpochCount.incr).getD ⟨b.1, b.2, 1⟩)
      else db.spaceEpochCounts.find? b := by
  let one : EpochCount := ⟨new.space, new.epochHeight, 1⟩
  split_ifs with hb
  · subst hb
    exact KeyedTable.find?_upsert_self (f := EpochCount.incr) (fun _ => rfl)
      db.spaceEpochCounts one
  · exact KeyedTable.find?_upsert_ne (f := EpochCount.incr) (r := one) (fun _ => rfl)
      db.spaceEpochCounts (Ne.symm hb)

end Tables

section Accounted

/-- The accounting agrees with the rows; `ever` are the buckets stored so far. -/
structure Accounted (ever : List (String × Nat)) (db : Tables) : Prop where
  rows : db.storageTotals.rows = KeyedTable.total (fun _ => 1) db.handles
  bytes : db.storageTotals.bytes = KeyedTable.total (fun r => (r.bytes : ℤ)) db.handles
  counts : ∀ b, db.spaceEpochCounts.find? b =
    if b ∈ ever then some ⟨b.1, b.2, db.bucketCount b⟩ else none
  counted : ∀ r ∈ db.handles.rows, r.bucket ∈ ever

theorem accounted_init : Accounted [] Tables.init where
  rows := rfl
  bytes := rfl
  counts _ := rfl
  counted _ hr := by cases hr

theorem bucketCount_erase
    {db : Tables}
    {old : Row}
    (hold : old ∈ db.handles.rows)
    (b : String × Nat) :
    KeyedTable.total (fun r => if r.bucket = b then 1 else 0)
        (db.handles.erase old.handle) =
      db.bucketCount b - if old.bucket = b then 1 else 0 :=
  KeyedTable.total_erase _ db.handles hold

/-- Deleting a row and firing `handles_count_delete` keeps the accounting. -/
theorem accounted_deleteRow
    {ever : List (String × Nat)}
    {db : Tables}
    (h : Accounted ever db)
    {old : Row}
    (hold : old ∈ db.handles.rows) :
    Accounted ever (db.deleteRow old) where
  rows := by
    show db.storageTotals.rows - 1 = KeyedTable.total _ (db.handles.erase old.handle)
    rw [KeyedTable.total_erase _ db.handles hold, h.rows]
  bytes := by
    show db.storageTotals.bytes - old.certData.length - old.zoneData.length =
      KeyedTable.total _ (db.handles.erase old.handle)
    rw [KeyedTable.total_erase _ db.handles hold, h.bytes]
    simp only [Row.bytes]
    push_cast
    ring
  counts := by
    intro b
    have hfind : (db.deleteRow old).spaceEpochCounts.find? b = _ :=
      Tables.find?_handlesCountDelete db old b
    rw [hfind, h.counts b]
    have hcount : (db.deleteRow old).bucketCount b =
        db.bucketCount b - if old.bucket = b then 1 else 0 :=
      bucketCount_erase hold b
    rw [hcount]
    by_cases hb : b ∈ ever
    · rw [if_pos hb, if_pos hb, Option.map_some]
      by_cases hold' : b = old.bucket
      · simp [hold', EpochCount.decr]
      · simp [hold', Ne.symm hold']
    · rw [if_neg hb, if_neg hb]
      rfl
  counted := by
    intro r hr
    rw [Tables.handles_deleteRow, KeyedTable.mem_erase] at hr
    exact h.counted r hr.1

theorem accounted_displaceRow
    {ever : List (String × Nat)}
    {db : Tables}
    (h : Accounted ever db)
    (handle : String) :
    Accounted ever (db.displaceRow handle) := by
  unfold Tables.displaceRow
  cases hfind : db.handles.find? handle with
  | some old =>
      exact accounted_deleteRow h (KeyedTable.find?_eq_some_iff.1 hfind).1
  | none =>
      exact h

/-- Appending a row of a new handle adds its weight. -/
theorem total_insert_fresh
    (w : Row → ℤ)
    {db : Tables}
    {new : Row}
    (hfresh : db.handles.find? new.handle = none) :
    KeyedTable.total w (db.handles.insertOrReplace new) =
      KeyedTable.total w db.handles + w new := by
  rw [KeyedTable.total_insertOrReplace, KeyedTable.erase_of_find?_none hfresh]

/-- No row of a bucket is stored that was never stored. -/
theorem bucketCount_eq_zero
    {ever : List (String × Nat)}
    {db : Tables}
    (h : Accounted ever db)
    {b : String × Nat}
    (hb : b ∉ ever) :
    db.bucketCount b = 0 := by
  unfold Tables.bucketCount
  rw [KeyedTable.total_indicator]
  simp only [Nat.cast_eq_zero, List.length_eq_zero_iff, List.filter_eq_nil_iff,
    decide_eq_true_eq]
  intro r hr he
  exact hb (he ▸ h.counted r hr)

/-- Inserting a row of a new handle and firing `handles_count_insert` keeps the
accounting, with the bucket of the row among those ever stored. -/
theorem accounted_handlesCountInsert
    {ever : List (String × Nat)}
    {db : Tables}
    (h : Accounted ever db)
    {new : Row}
    (hfresh : db.handles.find? new.handle = none) :
    Accounted (new.bucket :: ever)
      (Tables.handlesCountInsert
        { db with handles := db.handles.insertOrReplace new } new) where
  rows := by
    show db.storageTotals.rows + 1 = _
    rw [h.rows]
    exact (total_insert_fresh _ hfresh).symm
  bytes := by
    show db.storageTotals.bytes + new.certData.length + new.zoneData.length = _
    have htotal := total_insert_fresh (fun r => (r.bytes : ℤ)) hfresh
    refine Eq.trans ?_ htotal.symm
    rw [h.bytes]
    simp only [Row.bytes]
    push_cast
    ring
  counts := by
    intro b
    have hcount : KeyedTable.total (fun r => if r.bucket = b then 1 else 0)
        (db.handles.insertOrReplace new) =
          db.bucketCount b + if new.bucket = b then 1 else 0 :=
      total_insert_fresh _ hfresh
    rw [Tables.find?_handlesCountInsert, h.counts b]
    show _ = if b ∈ new.bucket :: ever then
      some (EpochCount.mk b.1 b.2 (KeyedTable.total _ (db.handles.insertOrReplace new)))
      else none
    rw [hcount]
    by_cases hb : b = new.bucket
    · have hnow : b ∈ new.bucket :: ever := by
        simp [hb]
      rw [if_pos hb, if_pos hnow, if_pos hb.symm]
      by_cases hmem : b ∈ ever
      · rw [if_pos hmem]
        rfl
      · rw [if_neg hmem, bucketCount_eq_zero h hmem]
        rfl
    · rw [if_neg hb, if_neg (Ne.symm hb), add_zero]
      simp [hb]
  counted := by
    intro r hr
    rw [Tables.handles_handlesCountInsert, KeyedTable.mem_insertOrReplace] at hr
    rcases hr with ⟨hr, _⟩ | rfl
    · exact List.mem_cons_of_mem _ (h.counted r hr)
    · exact List.mem_cons_self

/-- **One row of a bulk replace** keeps the accounting. -/
theorem accounted_insertOrReplaceRow
    {ever : List (String × Nat)}
    {db : Tables}
    (h : Accounted ever db)
    (new : Row) :
    Accounted (new.bucket :: ever) (db.insertOrReplaceRow new) := by
  refine accounted_handlesCountInsert (accounted_displaceRow h new.handle) ?_
  rw [Tables.handles_displaceRow, KeyedTable.find?_eq_none_iff]
  intro r hr
  exact (KeyedTable.mem_erase.1 hr).2

theorem Accounted.of_sameHandles
    {ever : List (String × Nat)}
    {db db' : Tables}
    (h : Accounted ever db)
    (hsame : SameHandles db db') :
    Accounted ever db' where
  rows := by
    rw [hsame.storageTotals, hsame.handles]
    exact h.rows
  bytes := by
    rw [hsame.storageTotals, hsame.handles]
    exact h.bytes
  counts := by
    intro b
    rw [hsame.spaceEpochCounts, h.counts b]
    unfold Tables.bucketCount
    rw [hsame.handles]
  counted := by
    rw [hsame.handles]
    exact h.counted

/-- The accounting does not depend on the write counter. -/
theorem Accounted.of_sameHandles_counter
    {ever : List (String × Nat)}
    {db : Tables}
    (h : Accounted ever db)
    (n : Nat) :
    Accounted ever { db with syncCounter := n } :=
  ⟨h.rows, h.bytes, h.counts, h.counted⟩

/-- The order in which buckets were stored does not matter. -/
theorem Accounted.congr
    {ever ever' : List (String × Nat)}
    {db : Tables}
    (h : Accounted ever db)
    (hever : ∀ b, b ∈ ever ↔ b ∈ ever') :
    Accounted ever' db where
  rows := h.rows
  bytes := h.bytes
  counts b := by
    rw [h.counts b]
    simp only [hever]
  counted r hr := (hever _).1 (h.counted r hr)

theorem accounted_insertRows
    {ever : List (String × Nat)}
    {db : Tables}
    (h : Accounted ever db)
    (rows : List Row) :
    Accounted (ever ++ rows.map Row.bucket) (db.insertRows rows) := by
  induction rows generalizing ever db with
  | nil =>
      rw [List.map_nil, List.append_nil]
      exact h
  | cons r rows ih =>
      have hrest := ih (accounted_insertOrReplaceRow h r)
      apply hrest.congr
      intro b
      simp only [List.map_cons, List.mem_append, List.mem_cons]
      tauto

/-- Deleting distinct stored rows one by one keeps the accounting. -/
theorem accounted_deleteRows
    {ever : List (String × Nat)}
    {rows : List Row}
    (hdistinct : (rows.map Row.handle).Nodup)
    {db : Tables}
    (hrows : ∀ r ∈ rows, r ∈ db.handles.rows)
    (h : Accounted ever db) :
    Accounted ever (rows.foldl Tables.deleteRow db) := by
  induction rows generalizing db with
  | nil =>
      exact h
  | cons r rows ih =>
      rw [List.map_cons, List.nodup_cons] at hdistinct
      apply ih hdistinct.2
      · intro s hs
        rw [Tables.handles_deleteRow, KeyedTable.mem_erase]
        refine ⟨hrows s (List.mem_cons_of_mem r hs), ?_⟩
        intro he
        exact hdistinct.1 (he ▸ List.mem_map_of_mem hs)
      · exact accounted_deleteRow h (hrows r List.mem_cons_self)

end Accounted

section EverStored

variable (V : Crates)

/-- The buckets that a batch stores rows in. -/
def updateBuckets (now : Nat) (db : Tables) (updates : List HandleRecord) :
    List (String × Nat) :=
  match updateHandles V now db updates with
  | .ok _ => (toStore V now db updates).map (fun e => (e.space, e.epochHeight))
  | .error _ => []

/-- The buckets that a call stores rows in. -/
def callBuckets (db : Tables) : StoreCall → List (String × Nat)
  | .updateHandles now updates => updateBuckets V now db updates
  | _ => []

/-- The buckets ever stored in a run. -/
def everStored (db : Tables) : List StoreCall → List (String × Nat)
  | [] => []
  | c :: calls => callBuckets V db c ++ everStored (runCall V db c) calls

variable {V}

/-- The inserted rows have the buckets of the written entries. -/
theorem map_bucket_of_rowOf
    {now : Nat}
    {db : Tables}
    {es : List Prepared}
    {rows : List Row}
    (h : List.Forall₂ (RowOf V now db) es rows) :
    rows.map Row.bucket = es.map (fun e => (e.space, e.epochHeight)) := by
  induction h with
  | nil =>
      rfl
  | cons hr _ ih =>
      rw [List.map_cons, List.map_cons, ih]
      simp only [Row.bucket, hr.space, hr.epochHeight]

theorem accounted_deliver
    {ever : List (String × Nat)}
    {db : Tables}
    (h : Accounted ever db)
    (now : Nat)
    (updates : List HandleRecord) :
    Accounted (ever ++ updateBuckets V now db updates) (deliver V now db updates) := by
  unfold updateBuckets
  cases hok : updateHandles V now db updates with
  | error e =>
      rw [List.append_nil]
      unfold deliver
      rw [hok]
      exact h
  | ok out =>
      obtain ⟨_, _, rows, hrows, hdb⟩ := updateHandles_cases V hok
      rw [deliver_of_ok V hok, ← map_bucket_of_rowOf (valuesRows_ok V hrows).1, hdb]
      exact accounted_insertRows (h.of_sameHandles_counter _) rows

/-- Deleting handles keeps the accounting. -/
theorem accounted_deleteHandles
    {ever : List (String × Nat)}
    {db : Tables}
    (h : Accounted ever db)
    (handles : List String) :
    Accounted ever (deleteHandles V db handles).1 := by
  obtain ⟨mid, hsame, heq⟩ := deleteHandles_cases V db handles
  rw [heq]
  apply accounted_deleteRows
  · exact (List.filter_sublist.map Row.handle).nodup mid.handles.nodup
  · exact fun r hr => (mem_victims.1 hr).1
  · exact h.of_sameHandles hsame

/-- **Every call keeps the accounting exact.** -/
theorem accounted_runCall
    {ever : List (String × Nat)}
    {db : Tables}
    (h : Accounted ever db)
    (call : StoreCall) :
    Accounted (ever ++ callBuckets V db call) (runCall V db call) := by
  have hquiet : ∀ db', SameHandles db db' → Accounted (ever ++ []) db' := by
    intro db' hsame
    rw [List.append_nil]
    exact h.of_sameHandles hsame
  cases call with
  | updateHandles now updates =>
      exact accounted_deliver h now updates
  | deleteHandles handles =>
      show Accounted (ever ++ []) (deleteHandles V db handles).1
      rw [List.append_nil]
      exact accounted_deleteHandles h handles
  | setRevs now entries =>
      exact hquiet _ ⟨rfl, rfl, rfl, rfl⟩
  | setAddrs now handle rev entries =>
      exact hquiet _ ⟨rfl, rfl, rfl, rfl⟩
  | setWatermark now peerUrl cursor =>
      exact hquiet _ ⟨rfl, rfl, rfl, rfl⟩

theorem accounted_runCalls
    {ever : List (String × Nat)}
    {db : Tables}
    (h : Accounted ever db)
    (calls : List StoreCall) :
    Accounted (ever ++ everStored V db calls) (runCalls V db calls) := by
  induction calls generalizing ever db with
  | nil =>
      rw [everStored, List.append_nil]
      exact h
  | cons c calls ih =>
      rw [everStored, ← List.append_assoc]
      exact ih (accounted_runCall h c)

/-- In an accounted store the bucket rows are those of the buckets ever stored. -/
theorem Accounted.exists_bucket_iff
    {ever : List (String × Nat)}
    {db : Tables}
    (h : Accounted ever db)
    (b : String × Nat) :
    (∃ c ∈ db.spaceEpochCounts.rows, c.bucket = b) ↔ b ∈ ever := by
  constructor
  · rintro ⟨c, hc, rfl⟩
    have hfind := KeyedTable.find?_key hc
    rw [h.counts] at hfind
    by_contra hno
    rw [if_neg hno] at hfind
    cases hfind
  · intro hb
    have hfind := h.counts b
    rw [if_pos hb, KeyedTable.find?_eq_some_iff] at hfind
    exact ⟨_, hfind.1, hfind.2⟩

theorem Accounted.count_eq
    {ever : List (String × Nat)}
    {db : Tables}
    (h : Accounted ever db)
    {c : EpochCount}
    (hc : c ∈ db.spaceEpochCounts.rows) :
    c.handles = (db.handles.rows.filter (fun r => decide (r.bucket = c.bucket))).length := by
  have hfind := KeyedTable.find?_key hc
  rw [h.counts, if_pos ((h.exists_bucket_iff c.bucket).1 ⟨c, hc, rfl⟩)] at hfind
  have hcount := congrArg EpochCount.handles (Option.some.inj hfind)
  rw [← KeyedTable.total_indicator]
  exact hcount.symm

theorem Accounted.rows_eq
    {ever : List (String × Nat)}
    {db : Tables}
    (h : Accounted ever db) :
    db.storageTotals.rows = db.handles.rows.length := by
  rw [h.rows, KeyedTable.total_one]

theorem Accounted.bytes_eq
    {ever : List (String × Nat)}
    {db : Tables}
    (h : Accounted ever db) :
    db.storageTotals.bytes = (db.handles.rows.map Row.bytes).sum := by
  rw [h.bytes, Nat.cast_list_sum, List.map_map]
  rfl

/-- The totals read are those of the rows. -/
theorem Accounted.readStorageTotals_eq
    {ever : List (String × Nat)}
    {db : Tables}
    (h : Accounted ever db) :
    db.readStorageTotals =
      (db.handles.rows.length, (db.handles.rows.map Row.bytes).sum) := by
  unfold Tables.readStorageTotals
  rw [h.rows_eq, h.bytes_eq, max_eq_left (Int.natCast_nonneg _),
    max_eq_left (Int.natCast_nonneg _), Int.toNat_natCast, Int.toNat_natCast]

/-- The handles counted for a space are its rows. -/
theorem Accounted.stored_eq
    {ever : List (String × Nat)}
    {db : Tables}
    (h : Accounted ever db)
    (space : String) :
    (db.spaceUsage space).1 =
      (db.handles.rows.filter (fun r => decide (r.space = space))).length := by
  let counts := db.spaceEpochCounts.rows.filter (fun c => decide (c.space = space))
  let inBucket := fun b => (db.handles.rows.filter (fun r => decide (r.bucket = b))).length
  have hcounts : counts.map EpochCount.handles =
      ((counts.map EpochCount.bucket).map inBucket).map Nat.cast := by
    rw [List.map_map, List.map_map]
    exact List.map_congr_left (fun c hc => h.count_eq (List.mem_of_mem_filter hc))
  have hnodup : (counts.map EpochCount.bucket).Nodup :=
    (List.filter_sublist.map _).nodup db.spaceEpochCounts.nodup
  -- the buckets of the space are those of its rows
  have hbucket : ∀ r ∈ db.handles.rows,
      r.bucket ∈ counts.map EpochCount.bucket ↔ r.space = space := by
    intro r hr
    rw [List.mem_map]
    constructor
    · rintro ⟨c, hc, heq⟩
      have hspace : c.space = space := of_decide_eq_true (List.mem_filter.1 hc).2
      exact (congrArg Prod.fst heq).symm.trans hspace
    · intro hspace
      obtain ⟨c, hc, heq⟩ := (h.exists_bucket_iff r.bucket).2 (h.counted r hr)
      have hcspace : c.space = space := (congrArg Prod.fst heq).trans hspace
      exact ⟨c, List.mem_filter.2 ⟨hc, decide_eq_true hcspace⟩, heq⟩
  have htotal : ((counts.map EpochCount.bucket).map inBucket).sum =
      (db.handles.rows.filter (fun r => decide (r.space = space))).length :=
    (KeyedTable.sum_length_filter_key hnodup db.handles.rows).trans
      (congrArg List.length
        (List.filter_congr (fun r hr => decide_eq_decide.2 (hbucket r hr))))
  have hsum : (counts.map EpochCount.handles).sum =
      ((db.handles.rows.filter (fun r => decide (r.space = space))).length : ℤ) := by
    rw [hcounts, ← Nat.cast_list_sum, htotal]
  show (max (counts.map EpochCount.handles).sum 0).toNat = _
  rw [hsum, max_eq_left (Int.natCast_nonneg _), Int.toNat_natCast]

/-- The epoch count of a space grows with the buckets ever stored. -/
theorem Accounted.epochs_le
    {ever more : List (String × Nat)}
    {db db' : Tables}
    (h : Accounted ever db)
    (h' : Accounted (ever ++ more) db')
    (space : String) :
    (db.spaceUsage space).2 ≤ (db'.spaceUsage space).2 := by
  apply KeyedTable.length_filter_key_le db.spaceEpochCounts db'.spaceEpochCounts _
    (fun b => decide (b.1 = space))
  intro c hc
  apply (h'.exists_bucket_iff c.bucket).2
  exact List.mem_append_left _ ((h.exists_bucket_iff c.bucket).1 ⟨c, hc, rfl⟩)

/-- The epoch count of a space is that of the buckets ever stored. -/
theorem Accounted.epochs_eq
    {ever : List (String × Nat)}
    {db db' : Tables}
    (h : Accounted ever db)
    (h' : Accounted ever db')
    (space : String) :
    (db'.spaceUsage space).2 = (db.spaceUsage space).2 := by
  have happend : ∀ {db : Tables}, Accounted ever db → Accounted (ever ++ []) db := by
    intro db h
    rwa [List.append_nil]
  exact le_antisymm (h'.epochs_le (happend h) space) (h.epochs_le (happend h') space)

variable (V)

/-- **The accounting is exact in every reachable state**: totals and buckets count
the stored rows, nothing is negative, a bucket exists for exactly the spaces and
epochs ever stored, and no further call takes an epoch off a space. -/
theorem storage_accounting_exact
    (calls : List StoreCall) :
    let db := runCalls V Tables.init calls
    db.storageTotals.rows = db.handles.rows.length ∧
      db.storageTotals.bytes = (db.handles.rows.map Row.bytes).sum ∧
      db.readStorageTotals =
        (db.handles.rows.length, (db.handles.rows.map Row.bytes).sum) ∧
      (∀ c ∈ db.spaceEpochCounts.rows, 0 ≤ c.handles ∧ c.handles =
        (db.handles.rows.filter (fun r => decide (r.bucket = c.bucket))).length) ∧
      (∀ b, (∃ c ∈ db.spaceEpochCounts.rows, c.bucket = b) ↔
        b ∈ everStored V Tables.init calls) ∧
      (∀ more space,
        (db.spaceUsage space).2 ≤ ((runCalls V db more).spaceUsage space).2) := by
  intro db
  have h : Accounted (everStored V Tables.init calls) db := by
    simpa using accounted_runCalls accounted_init calls
  refine ⟨h.rows_eq, h.bytes_eq, h.readStorageTotals_eq, ?_, h.exists_bucket_iff, ?_⟩
  · intro c hc
    have hcount := h.count_eq hc
    exact ⟨by omega, hcount⟩
  · intro more space
    exact h.epochs_le (accounted_runCalls h more) space

end EverStored

end CertRelay
