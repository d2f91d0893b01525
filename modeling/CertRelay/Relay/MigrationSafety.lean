import CertRelay.Relay.Migration

/-!
# Migration of a pre-sync database

`init` may crash between any two committed steps and is then run again on what it left.
Rows without a number are numbered in `(updated_at, handle)` order, so at any time the
numbered rows are a first part of that order, and the counter is their number.

**Results.**
* `sortRows_numberChunk`: a chunk numbers the rows that follow the numbered ones;
* `good_step`: every step keeps the invariant `Sound` and its own preconditions;
* `init_reaches_opened`: `init` ends, whatever crashes came before;
* `migration_safe`: the store is then migrated, and opening it again changes nothing.
-/

namespace CertRelay
namespace DbFile

section Order

instance : Std.Total FileRow.Le :=
  ⟨fun r s => le_total (toLex (r.updatedAt, r.handle)) (toLex (s.updatedAt, s.handle))⟩

instance : IsTrans FileRow FileRow.Le :=
  ⟨fun _ _ _ hrs hst => le_trans (α := ℕ ×ₗ String) hrs hst⟩

theorem FileRow.handle_eq_of_le
    {r s : FileRow}
    (hrs : FileRow.Le r s)
    (hsr : FileRow.Le s r) :
    r.handle = s.handle :=
  congrArg (fun p => (ofLex p).2) (le_antisymm (α := ℕ ×ₗ String) hrs hsr)

theorem perm_sortRows
    (rows : List FileRow) :
    (sortRows rows).Perm rows :=
  List.perm_insertionSort _ rows

/-- Selecting rows and sorting them commute. -/
theorem sortRows_filter
    (t : KeyedTable FileRow FileRow.handle)
    (p : FileRow → Bool) :
    sortRows (t.rows.filter p) = (sortRows t.rows).filter p := by
  refine @List.Perm.eq_of_pairwise _ FileRow.Le _ _ ?_ ?_ ?_ ?_
  · intro r s hr hs hrs hsr
    have hrt := List.mem_of_mem_filter ((perm_sortRows _).mem_iff.1 hr)
    have hst := (perm_sortRows _).mem_iff.1 (List.mem_of_mem_filter hs)
    exact t.eq_of_key_eq hrt hst (FileRow.handle_eq_of_le hrs hsr)
  · exact List.pairwise_insertionSort _ _
  · exact (List.pairwise_insertionSort _ _).filter _
  · exact (perm_sortRows _).trans ((perm_sortRows t.rows).symm.filter p)

/-- Rewriting columns that the order does not look at. -/
theorem sortRows_map
    (rows : List FileRow)
    {f : FileRow → FileRow}
    (hf : ∀ r, (f r).updatedAt = r.updatedAt ∧ (f r).handle = r.handle) :
    sortRows (rows.map f) = (sortRows rows).map f := by
  symm
  apply List.map_insertionSort
  intro r _ s _
  unfold FileRow.Le
  rw [(hf r).1, (hf r).2, (hf s).1, (hf s).2]

end Order

section Chunks

variable {V : Crates}

theorem renumber_of_ne
    {handle : String}
    {zoneData : Bytes}
    {seq : Nat}
    {r : FileRow}
    (h : r.handle ≠ handle) :
    renumber V handle zoneData seq r = r :=
  if_neg h

theorem data_renumber
    (handle : String)
    (zoneData : Bytes)
    (seq : Nat)
    (r : FileRow) :
    (renumber V handle zoneData seq r).data = r.data := by
  unfold renumber
  split_ifs <;> rfl

theorem order_renumber
    (handle : String)
    (zoneData : Bytes)
    (seq : Nat)
    (r : FileRow) :
    (renumber V handle zoneData seq r).updatedAt = r.updatedAt ∧
      (renumber V handle zoneData seq r).handle = r.handle := by
  unfold renumber
  split_ifs <;> exact ⟨rfl, rfl⟩

/-- The numbered rows of a chunk. -/
def numbered (V : Crates) : Nat → List FileRow → List FileRow
  | _, [] => []
  | base, r :: rows =>
      { r with syncSeq := base + 1, zoneHash := zoneHash V r.zoneData } ::
        numbered V (base + 1) rows

theorem length_numbered
    (base : Nat)
    (rows : List FileRow) :
    (numbered V base rows).length = rows.length := by
  induction rows generalizing base with
  | nil =>
      rfl
  | cons r rows ih =>
      rw [numbered, List.length_cons, ih, List.length_cons]

theorem syncSeq_numbered
    (base : Nat)
    (rows : List FileRow) :
    (numbered V base rows).map FileRow.syncSeq = List.range' (base + 1) rows.length := by
  induction rows generalizing base with
  | nil =>
      rfl
  | cons r rows ih =>
      rw [numbered, List.map_cons, ih, List.length_cons, List.range'_succ]

theorem zoneHash_numbered
    {base : Nat}
    {rows : List FileRow}
    {r : FileRow}
    (h : r ∈ numbered V base rows) :
    r.zoneHash = zoneHash V r.zoneData := by
  induction rows generalizing base with
  | nil =>
      exact absurd h List.not_mem_nil
  | cons s rows ih =>
      rcases List.mem_cons.1 h with rfl | h
      · rfl
      · exact ih h

/-- The statement for one row changes that row alone. -/
theorem map_renumber
    {done rest : List FileRow}
    {r : FileRow}
    (hnodup : ((done ++ r :: rest).map FileRow.handle).Nodup)
    (seq : Nat) :
    (done ++ r :: rest).map (renumber V r.handle r.zoneData seq) =
      (done ++ [{ r with syncSeq := seq, zoneHash := zoneHash V r.zoneData }]) ++ rest := by
  rw [List.map_append, List.map_cons, List.nodup_append, List.nodup_cons] at hnodup
  obtain ⟨_, ⟨hrest, _⟩, hdone⟩ := hnodup
  have hsame : ∀ rows : List FileRow, (∀ s ∈ rows, s.handle ≠ r.handle) →
      rows.map (renumber V r.handle r.zoneData seq) = rows := by
    intro rows hrows
    have hid : rows.map (renumber V r.handle r.zoneData seq) = rows.map id :=
      List.map_congr_left fun s hs => renumber_of_ne (hrows s hs)
    rw [hid, List.map_id]
  rw [List.map_append, List.map_cons,
    hsame done fun s hs => hdone _ (List.mem_map_of_mem hs) _ List.mem_cons_self,
    hsame rest fun s hs he => hrest (he ▸ List.mem_map_of_mem hs), List.append_assoc]
  simp [renumber]

/-- **A chunk numbers the rows that follow the numbered ones.** -/
theorem sortRows_numberChunk
    {done chunk rest : List FileRow}
    {base : Nat}
    {t : KeyedTable FileRow FileRow.handle}
    (h : sortRows t.rows = done ++ (chunk ++ rest)) :
    sortRows (numberChunk V base (chunk.map (fun r => (r.handle, r.zoneData))) t).rows =
      done ++ (numbered V base chunk ++ rest) := by
  induction chunk generalizing done base t with
  | nil =>
      exact h
  | cons r chunk ih =>
      have hnodup : ((done ++ r :: (chunk ++ rest)).map FileRow.handle).Nodup := by
        rw [List.cons_append] at h
        rw [← h]
        exact ((perm_sortRows t.rows).map _).nodup_iff.2 t.nodup
      have hstep : sortRows (t.map (renumber V r.handle r.zoneData (base + 1))
          (handle_renumber V _ _ _)).rows =
          (done ++ [{ r with syncSeq := base + 1, zoneHash := zoneHash V r.zoneData }]) ++
            (chunk ++ rest) := by
        rw [KeyedTable.map, sortRows_map _ (order_renumber _ _ _), h, List.cons_append,
          map_renumber hnodup]
      rw [List.map_cons, numberChunk]
      refine (ih hstep).trans ?_
      rw [numbered, List.append_assoc]
      rfl

theorem data_numberChunk
    (base : Nat)
    (chunk : List (String × Bytes))
    (t : KeyedTable FileRow FileRow.handle) :
    (numberChunk V base chunk t).rows.map FileRow.data = t.rows.map FileRow.data := by
  induction chunk generalizing base t with
  | nil =>
      rfl
  | cons p chunk ih =>
      obtain ⟨handle, zoneData⟩ := p
      rw [numberChunk, ih, KeyedTable.map, List.map_map]
      exact List.map_congr_left fun r _ => data_renumber handle zoneData (base + 1) r

end Chunks

section Invariant

variable (V : Crates) (legacy : KeyedTable FileRow FileRow.handle)

/-- The counter, 0 while it does not exist. -/
def counterOf (db : DbFile) : Nat :=
  db.syncCounter.join.getD 0

/-- The totals, 0 while they do not exist. -/
def totalsOf (db : DbFile) : StorageTotals :=
  db.storageTotals.join.getD ⟨0, 0⟩

def countsOf (db : DbFile) : KeyedTable EpochCount EpochCount.bucket :=
  db.spaceEpochCounts.getD .empty

/-- The accounting agrees with a full scan of the rows. -/
structure Scanned (rows : List FileRow) (totals : StorageTotals)
    (counts : KeyedTable EpochCount EpochCount.bucket) : Prop where
  totals : totals = scanTotals rows
  counts : ∀ b, counts.find? b =
    if b ∈ rows.map FileRow.bucket then
      some ⟨b.1, b.2, rows.countP (fun r => decide (r.bucket = b))⟩
    else none

/-- The invariant of `init` and of its crashes: the rows keep their data, and in
`(updated_at, handle)` order those `done` are numbered from 1 and hashed. -/
structure Sound (db : DbFile) (t : HandlesTable) (done rest : List FileRow) : Prop where
  handles : db.handles = some t
  data : t.rows.rows.map FileRow.data = legacy.rows.map FileRow.data
  sorted : sortRows t.rows.rows = done ++ rest
  numbers : done.map FileRow.syncSeq = List.range' 1 done.length
  hashed : ∀ r ∈ done, r.zoneHash = zoneHash V r.zoneData
  pending : t.columns.syncSeq = true → ∀ r ∈ rest, r.syncSeq = 0
  columns : done ≠ [] → t.columns = ⟨true, true⟩
  counter : counterOf db = done.length
  accounting : (totalsOf db = ⟨0, 0⟩ ∧ countsOf db = .empty) ∨
    Scanned legacy.rows (totalsOf db) (countsOf db)

/-- What a statement of the schema leaves behind. -/
def SchemaStatement.Ran (db : DbFile) : SchemaStatement → Prop
  | .createHandles => True
  | .indexSyncSeq => True
  | .createSyncCounter => ∃ row, db.syncCounter = some row
  | .insertSyncCounter => ∃ base, db.syncCounter = some (some base)
  | .createSpaceEpochCounts => ∃ counts, db.spaceEpochCounts = some counts
  | .createStorageTotals => ∃ row, db.storageTotals = some row
  | .insertStorageTotals => ∃ totals, db.storageTotals = some (some totals)

/-- What each phase of `init` starts from. -/
def Ready (db : DbFile) (t : HandlesTable) (rest : List FileRow) : Phase → Prop
  | .migrateColumns => True
  | .alterSyncSeq columns => columns = t.columns
  | .alterZoneHash columns =>
      t.columns.syncSeq = true ∧ columns.zoneHash = t.columns.zoneHash
  | .schema left =>
      t.columns = ⟨true, true⟩ ∧ left ∈ schema.tails ∧ ∀ s ∈ schema, s ∉ left → s.Ran db
  | .backfillSync => t.columns = ⟨true, true⟩ ∧ ∀ s ∈ schema, s.Ran db
  | .backfillStorage => t.columns = ⟨true, true⟩ ∧ (∀ s ∈ schema, s.Ran db) ∧ rest = []
  | .opened =>
      t.columns = ⟨true, true⟩ ∧ (∀ s ∈ schema, s.Ran db) ∧ rest = [] ∧
        Scanned legacy.rows (totalsOf db) (countsOf db)
  | .failed => False

/-- Some split of the rows meets the invariant, and the phase may start. -/
def Good (s : Phase × DbFile) : Prop :=
  ∃ t done rest, Sound V legacy s.2 t done rest ∧ Ready legacy s.2 t rest s.1

end Invariant

section Steps

variable {V : Crates} {legacy : KeyedTable FileRow FileRow.handle} {db : DbFile}
  {t : HandlesTable} {done rest : List FileRow}

theorem good_opening : Good V legacy (opening legacy) := by
  refine ⟨_, [], sortRows legacy.rows, ⟨rfl, rfl, rfl, rfl, ?_, ?_, ?_, rfl, Or.inl ⟨rfl, rfl⟩⟩,
    trivial⟩
  · exact fun r hr => absurd hr List.not_mem_nil
  · exact fun h => Bool.noConfusion h
  · exact fun h => absurd rfl h

/-- After a crash the rows stay as they are split. -/
theorem good_crash
    {s : Phase × DbFile}
    (h : Good V legacy s) :
    Good V legacy (.migrateColumns, s.2) := by
  obtain ⟨t, done, rest, hsound, _⟩ := h
  exact ⟨t, done, rest, hsound, trivial⟩

/-- While a column is missing no row is numbered. -/
theorem Sound.nothing_done
    (h : Sound V legacy db t done rest)
    (hcolumns : t.columns ≠ ⟨true, true⟩) :
    done = [] := by
  by_contra hne
  exact hcolumns (h.columns hne)

/-- Before rows are numbered, a rewrite of the two columns keeps the invariant. -/
theorem Sound.rewrite
    (h : Sound V legacy db t [] rest)
    {columns : Columns}
    {f : FileRow → FileRow}
    (hf : ∀ r, (f r).handle = r.handle)
    (hdata : ∀ r, (f r).data = r.data)
    (hpending : columns.syncSeq = true → ∀ r ∈ rest, (f r).syncSeq = 0) :
    Sound V legacy { db with handles := some ⟨columns, t.rows.map f hf⟩ }
      ⟨columns, t.rows.map f hf⟩ [] (rest.map f) where
  handles := rfl
  data := by
    rw [← h.data, KeyedTable.map, List.map_map]
    exact List.map_congr_left fun r _ => hdata r
  sorted := by
    have hupdated : ∀ r, (f r).updatedAt = r.updatedAt := by
      intro r
      have hsame := congrArg FileRow.updatedAt (hdata r)
      exact hsame
    rw [KeyedTable.map, sortRows_map _ fun r => ⟨hupdated r, hf r⟩, h.sorted]
    rfl
  numbers := rfl
  hashed := fun r hr => absurd hr List.not_mem_nil
  pending := by
    intro hcolumn r hr
    obtain ⟨s, hs, rfl⟩ := List.mem_map.1 hr
    exact hpending hcolumn s hs
  columns := fun hne => absurd rfl hne
  counter := h.counter
  accounting := h.accounting

theorem good_alterSyncSeq
    (h : Sound V legacy db t done rest) :
    Good V legacy (step V (.alterSyncSeq t.columns, db)) := by
  rw [step]
  cases hcolumn : t.columns.syncSeq with
  | true =>
      exact ⟨t, done, rest, h, hcolumn, rfl⟩
  | false =>
      have hdone : done = [] := h.nothing_done fun he => by
        rw [he] at hcolumn
        exact Bool.noConfusion hcolumn
      subst hdone
      rw [if_neg Bool.false_ne_true, h.handles]
      exact ⟨addSyncSeq t, [], _,
        h.rewrite (f := fun r => { r with syncSeq := 0 }) (fun _ => rfl) (fun _ => rfl)
          (fun _ _ _ => rfl), rfl, rfl⟩

theorem good_alterZoneHash
    (h : Sound V legacy db t done rest)
    {columns : Columns}
    (hsyncSeq : t.columns.syncSeq = true)
    (hzoneHash : columns.zoneHash = t.columns.zoneHash) :
    Good V legacy (step V (.alterZoneHash columns, db)) := by
  have hschema : schema ∈ schema.tails := (List.mem_tails _ _).2 (List.suffix_refl _)
  rw [step, hzoneHash]
  cases hcolumn : t.columns.zoneHash with
  | true =>
      exact ⟨t, done, rest, h, congrArg₂ Columns.mk hsyncSeq hcolumn, hschema,
        fun s hs hnot => absurd hs hnot⟩
  | false =>
      have hdone : done = [] := h.nothing_done fun he => by
        rw [he] at hcolumn
        exact Bool.noConfusion hcolumn
      subst hdone
      rw [if_neg Bool.false_ne_true, h.handles]
      exact ⟨addZoneHash t, [], _,
        h.rewrite (f := fun r => { r with zoneHash := [] }) (fun _ => rfl) (fun _ => rfl)
          (fun _ r hr => h.pending hsyncSeq r hr),
        congrArg₂ Columns.mk hsyncSeq rfl, hschema, fun s hs hnot => absurd hs hnot⟩

/-- A statement of the schema adds what is missing and keeps what is there. -/
structure Extends (db db' : DbFile) : Prop where
  handles : ∀ t, db.handles = some t → db'.handles = some t
  counter : counterOf db' = counterOf db
  totals : totalsOf db' = totalsOf db
  counts : countsOf db' = countsOf db
  ran : ∀ s : SchemaStatement, s.Ran db → s.Ran db'

theorem extends_run
    {s : SchemaStatement}
    {db' : DbFile}
    (h : s.run db = some db') :
    Extends db db' ∧ s.Ran db' := by
  cases s with
  | createHandles =>
      cases h
      refine ⟨⟨fun t ht => ?_, rfl, rfl, rfl, fun s hs => ?_⟩, trivial⟩
      · rw [ht, Option.getD_some]
      · cases s <;> exact hs
  | indexSyncSeq =>
      rw [SchemaStatement.run] at h
      split_ifs at h
      cases h
      exact ⟨⟨fun _ ht => ht, rfl, rfl, rfl, fun _ hs => hs⟩, trivial⟩
  | createSyncCounter =>
      cases h
      refine ⟨⟨fun _ ht => ht, ?_, rfl, rfl, fun s hs => ?_⟩, _, rfl⟩
      · cases hrow : db.syncCounter <;> simp [counterOf, hrow]
      · cases s with
        | createSyncCounter => exact ⟨_, rfl⟩
        | insertSyncCounter =>
            obtain ⟨base, hbase⟩ := hs
            exact ⟨base, by rw [hbase, Option.getD_some]⟩
        | _ => exact hs
  | insertSyncCounter =>
      obtain ⟨row, hrow, rfl⟩ := Option.map_eq_some_iff.1 h
      refine ⟨⟨fun _ ht => ht, ?_, rfl, rfl, fun s hs => ?_⟩, _, rfl⟩
      · simp [counterOf, hrow]
      · cases s with
        | createSyncCounter => exact ⟨_, rfl⟩
        | insertSyncCounter => exact ⟨_, rfl⟩
        | _ => exact hs
  | createSpaceEpochCounts =>
      cases h
      refine ⟨⟨fun _ ht => ht, rfl, rfl, ?_, fun s hs => ?_⟩, _, rfl⟩
      · simp [countsOf]
      · cases s with
        | createSpaceEpochCounts => exact ⟨_, rfl⟩
        | _ => exact hs
  | createStorageTotals =>
      cases h
      refine ⟨⟨fun _ ht => ht, rfl, ?_, rfl, fun s hs => ?_⟩, _, rfl⟩
      · cases hrow : db.storageTotals <;> simp [totalsOf, hrow]
      · cases s with
        | createStorageTotals => exact ⟨_, rfl⟩
        | insertStorageTotals =>
            obtain ⟨totals, htotals⟩ := hs
            exact ⟨totals, by rw [htotals, Option.getD_some]⟩
        | _ => exact hs
  | insertStorageTotals =>
      obtain ⟨row, hrow, rfl⟩ := Option.map_eq_some_iff.1 h
      refine ⟨⟨fun _ ht => ht, rfl, ?_, rfl, fun s hs => ?_⟩, _, rfl⟩
      · simp [totalsOf, hrow]
      · cases s with
        | createStorageTotals => exact ⟨_, rfl⟩
        | insertStorageTotals => exact ⟨_, rfl⟩
        | _ => exact hs

/-- The rows of the invariant do not see what a statement of the schema adds. -/
theorem Sound.of_extends
    {db' : DbFile}
    (h : Sound V legacy db t done rest)
    (hext : Extends db db') :
    Sound V legacy db' t done rest where
  handles := hext.handles t h.handles
  data := h.data
  sorted := h.sorted
  numbers := h.numbers
  hashed := h.hashed
  pending := h.pending
  columns := h.columns
  counter := hext.counter.trans h.counter
  accounting := by
    rw [hext.totals, hext.counts]
    exact h.accounting

/-- A statement of the schema finds the column or the table it needs. -/
theorem run_succeeds
    {s : SchemaStatement}
    {left : List SchemaStatement}
    (hhandles : db.handles = some t)
    (hcolumns : t.columns = ⟨true, true⟩)
    (hleft : s :: left ∈ schema.tails)
    (hran : ∀ s' ∈ schema, s' ∉ s :: left → s'.Ran db) :
    ∃ db', s.run db = some db' := by
  have horder : ∀ l ∈ schema.tails,
      (l.head? = some .insertSyncCounter → .createSyncCounter ∉ l) ∧
        (l.head? = some .insertStorageTotals → .createStorageTotals ∉ l) := by
    decide
  cases s with
  | indexSyncSeq =>
      exact ⟨db, if_pos (by rw [hhandles, Option.any_some, hcolumns])⟩
  | insertSyncCounter =>
      obtain ⟨row, hrow⟩ := hran .createSyncCounter (by decide) ((horder _ hleft).1 rfl)
      exact ⟨_, congrArg (Option.map _) hrow⟩
  | insertStorageTotals =>
      obtain ⟨row, hrow⟩ := hran .createStorageTotals (by decide) ((horder _ hleft).2 rfl)
      exact ⟨_, congrArg (Option.map _) hrow⟩
  | _ =>
      exact ⟨_, rfl⟩

theorem good_schema
    (h : Sound V legacy db t done rest)
    {left : List SchemaStatement}
    (hready : Ready legacy db t rest (.schema left)) :
    Good V legacy (step V (.schema left, db)) := by
  obtain ⟨hcolumns, hleft, hran⟩ := hready
  cases left with
  | nil =>
      exact ⟨t, done, rest, h, hcolumns, fun s hs => hran s hs List.not_mem_nil⟩
  | cons s left =>
      obtain ⟨db', hrun⟩ := run_succeeds h.handles hcolumns hleft hran
      obtain ⟨hext, hs⟩ := extends_run hrun
      rw [step, hrun]
      refine ⟨t, done, rest, h.of_extends hext, hcolumns, ?_, fun s' hs' hnot => ?_⟩
      · rw [List.mem_tails] at hleft ⊢
        exact (List.suffix_cons s left).trans hleft
      · by_cases hsame : s' = s
        · rw [hsame]
          exact hs
        · exact hext.ran s' (hran s' hs' fun hmem =>
            hnot ((List.mem_cons.1 hmem).resolve_left hsame))

/-- Rows numbered from 1 do not wait for a number. -/
theorem filter_numbered_eq_nil
    {rows : List FileRow}
    {n : Nat}
    (h : rows.map FileRow.syncSeq = List.range' 1 n) :
    rows.filter (fun r => decide (r.syncSeq = 0)) = [] := by
  rw [List.filter_eq_nil_iff]
  intro r hr
  have hmem : r.syncSeq ∈ List.range' 1 n := h ▸ List.mem_map_of_mem hr
  have hpos := (List.mem_range'_1.1 hmem).1
  rw [decide_eq_true_eq]
  omega

/-- The rows that wait for a number are those that are not done. -/
theorem Sound.filter_pending
    (h : Sound V legacy db t done rest)
    (hcolumn : t.columns.syncSeq = true) :
    (sortRows t.rows.rows).filter (fun r => decide (r.syncSeq = 0)) = rest := by
  have hrest : rest.filter (fun r => decide (r.syncSeq = 0)) = rest :=
    List.filter_eq_self.2 fun r hr => decide_eq_true (h.pending hcolumn r hr)
  rw [h.sorted, List.filter_append, filter_numbered_eq_nil h.numbers, hrest, List.nil_append]

/-- The rows that a chunk is taken from are those not numbered yet. -/
theorem Sound.nextChunk_eq
    (h : Sound V legacy db t done rest)
    (hcolumn : t.columns.syncSeq = true) :
    nextChunk t.rows.rows =
      (rest.take chunkSize).map (fun r => (r.handle, r.zoneData)) := by
  rw [nextChunk, sortRows_filter, h.filter_pending hcolumn]

/-- A committed chunk moves rows from those pending to those done. -/
theorem Sound.chunk
    (h : Sound V legacy db t done rest)
    (hcolumns : t.columns = ⟨true, true⟩)
    {chunk later : List FileRow}
    (hrest : rest = chunk ++ later) :
    Sound V legacy
      { db with
        handles := some { t with
          rows := numberChunk V done.length (chunk.map (fun r => (r.handle, r.zoneData))) t.rows }
        syncCounter := some (some (done.length + chunk.length)) }
      { t with
        rows := numberChunk V done.length (chunk.map (fun r => (r.handle, r.zoneData))) t.rows }
      (done ++ numbered V done.length chunk) later where
  handles := rfl
  data := (data_numberChunk _ _ _).trans h.data
  sorted := by
    have hsorted : sortRows t.rows.rows = done ++ (chunk ++ later) := by
      rw [h.sorted, hrest]
    rw [sortRows_numberChunk hsorted, List.append_assoc]
  numbers := by
    rw [List.map_append, h.numbers, syncSeq_numbered, List.length_append, length_numbered,
      Nat.add_comm done.length 1, List.range'_append_1]
  hashed := by
    intro r hr
    rcases List.mem_append.1 hr with hold | hnew
    · exact h.hashed r hold
    · exact zoneHash_numbered hnew
  pending := fun hcolumn r hr =>
    h.pending hcolumn r (hrest ▸ List.mem_append_right chunk hr)
  columns := fun _ => hcolumns
  counter := by
    rw [List.length_append, length_numbered]
    rfl
  accounting := h.accounting

theorem good_backfillSync
    (h : Sound V legacy db t done rest)
    (hcolumns : t.columns = ⟨true, true⟩)
    (hran : ∀ s ∈ schema, s.Ran db) :
    Good V legacy (step V (.backfillSync, db)) := by
  have hchunk := h.nextChunk_eq (by rw [hcolumns])
  simp only [step, backfillChunk, h.handles]
  rw [if_pos hcolumns, hchunk]
  cases hrest : rest.take chunkSize with
  | nil =>
      have hempty : rest = [] := (List.take_eq_nil_iff.1 hrest).resolve_left (by decide)
      exact ⟨t, done, rest, h, hcolumns, hran, hempty⟩
  | cons r chunk =>
      obtain ⟨base, hbase⟩ := hran .insertSyncCounter (by decide)
      have hcounter : base = done.length := by
        rw [← h.counter, counterOf, hbase]
        rfl
      subst hcounter
      have hsplit : rest = (r :: chunk) ++ rest.drop chunkSize := by
        rw [← hrest, List.take_append_drop]
      have hnext := h.chunk hcolumns hsplit
      simp only [List.map_cons, hbase, List.length_cons, List.length_map] at hnext ⊢
      refine ⟨_, _, _, hnext, hcolumns, fun s hs => ?_⟩
      have hs' := hran s hs
      cases s with
      | createSyncCounter => exact ⟨_, rfl⟩
      | insertSyncCounter => exact ⟨_, rfl⟩
      | _ => exact hs'

/-- A scan reads the data alone. -/
theorem scanTotals_of_data
    {rows rows' : List FileRow}
    (h : rows.map FileRow.data = rows'.map FileRow.data) :
    scanTotals rows = scanTotals rows' := by
  have hscan : ∀ l : List FileRow, scanTotals l = scanTotals (l.map FileRow.data) := by
    intro l
    rw [scanTotals, scanTotals, List.length_map, List.map_map]
    rfl
  rw [hscan rows, h, ← hscan rows']

theorem groupCounts_of_data
    {rows rows' : List FileRow}
    (h : rows.map FileRow.data = rows'.map FileRow.data) :
    groupCounts rows = groupCounts rows' := by
  have hgroup : ∀ l : List FileRow, groupCounts l = groupCounts (l.map FileRow.data) := by
    intro l
    rw [groupCounts, groupCounts, List.map_map]
    apply List.map_congr_left
    intro b _
    rw [List.countP_map]
    rfl
  rw [hgroup rows, h, ← hgroup rows']

/-- The grouped counts, put into an empty table, are those of a scan. -/
theorem scanned_groupCounts
    (rows : List FileRow) :
    Scanned rows (scanTotals rows)
      ((groupCounts rows).foldl KeyedTable.insertOrReplace .empty) where
  totals := rfl
  counts := by
    intro b
    have hkeys : (groupCounts rows).map EpochCount.bucket =
        (rows.map FileRow.bucket).dedup := by
      rw [groupCounts, List.map_map]
      exact (List.map_congr_left fun b _ => rfl).trans (List.map_id _)
    have hnodup : ((groupCounts rows).map EpochCount.bucket).Nodup := by
      rw [hkeys]
      exact List.nodup_dedup _
    have hmem : ∀ c, c ∈ ((groupCounts rows).foldl KeyedTable.insertOrReplace
        (KeyedTable.empty : KeyedTable EpochCount EpochCount.bucket)).rows ↔
        c ∈ groupCounts rows := by
      intro c
      rw [KeyedTable.mem_foldl_insertOrReplace hnodup]
      simp
    split_ifs with hb
    · refine KeyedTable.find?_eq_some_iff.2 ⟨(hmem _).2 ?_, rfl⟩
      exact List.mem_map.2 ⟨b, List.mem_dedup.2 hb, rfl⟩
    · refine KeyedTable.find?_eq_none_iff.2 fun c hc he => hb ?_
      rw [← he, ← List.mem_dedup, ← hkeys]
      exact List.mem_map_of_mem ((hmem c).1 hc)

/-- No rows, no accounting. -/
theorem scanned_nil : Scanned [] ⟨0, 0⟩ .empty :=
  scanned_groupCounts []

theorem length_data
    (h : Sound V legacy db t done rest) :
    t.rows.rows.length = legacy.rows.length := by
  have hlen := congrArg List.length h.data
  rwa [List.length_map, List.length_map] at hlen

theorem good_backfillStorage
    (h : Sound V legacy db t done rest)
    (hcolumns : t.columns = ⟨true, true⟩)
    (hran : ∀ s ∈ schema, s.Ran db)
    (hrest : rest = []) :
    Good V legacy (step V (.backfillStorage, db)) := by
  obtain ⟨totals, htotals⟩ := hran .insertStorageTotals (by decide)
  obtain ⟨counts, hcounts⟩ := hran .createSpaceEpochCounts (by decide)
  have htotalsOf : totalsOf db = totals := by
    rw [totalsOf, htotals]
    rfl
  have hcountsOf : countsOf db = counts := by
    rw [countsOf, hcounts]
    rfl
  have hlen := length_data h
  simp only [step, backfillTotals, htotals, h.handles, hcounts]
  split_ifs with hnonzero hempty
  · refine ⟨t, done, rest, h, hcolumns, hran, hrest, h.accounting.resolve_left fun hnone => ?_⟩
    rw [htotalsOf] at hnone
    rw [hnone.1] at hnonzero
    exact hnonzero rfl
  · have hnil : legacy.rows = [] := List.length_eq_zero_iff.1 (hlen ▸ hempty)
    refine ⟨t, done, rest, h, hcolumns, hran, hrest, h.accounting.elim (fun hnone => ?_) id⟩
    rw [hnone.1, hnone.2, hnil]
    exact scanned_nil
  · -- totals of zero with rows in the table: nothing was accounted yet
    have hnone : countsOf db = .empty := by
      refine (h.accounting.resolve_right fun hscan => hempty ?_).2
      have hrows := congrArg StorageTotals.rows hscan.totals
      rw [htotalsOf] at hrows
      rw [hlen]
      have hzero : ((legacy.rows.length : ℕ) : ℤ) = 0 := hrows.symm.trans (not_not.1 hnonzero)
      exact_mod_cast hzero
    have hscan : Scanned legacy.rows (scanTotals t.rows.rows)
        ((groupCounts t.rows.rows).foldl KeyedTable.insertOrReplace counts) := by
      rw [scanTotals_of_data h.data, groupCounts_of_data h.data, ← hcountsOf, hnone]
      exact scanned_groupCounts legacy.rows
    refine ⟨t, done, rest, ⟨rfl, h.data, h.sorted, h.numbers, h.hashed, h.pending, h.columns,
      h.counter, Or.inr hscan⟩, hcolumns, fun s hs => ?_, hrest, hscan⟩
    have hs' := hran s hs
    cases s with
    | createSpaceEpochCounts => exact ⟨_, rfl⟩
    | createStorageTotals => exact ⟨_, rfl⟩
    | insertStorageTotals => exact ⟨_, rfl⟩
    | _ => exact hs'

/-- **Every step of `init` keeps the invariant.** -/
theorem good_step
    (s : Phase × DbFile)
    (h : Good V legacy s) :
    Good V legacy (step V s) := by
  obtain ⟨phase, db⟩ := s
  obtain ⟨t, done, rest, hsound, hready⟩ := h
  cases phase with
  | migrateColumns =>
      have hcolumns : readColumns db = .alterSyncSeq t.columns := by
        rw [readColumns, hsound.handles]
      refine ⟨t, done, rest, hsound, ?_⟩
      rw [step, hcolumns]
      rfl
  | alterSyncSeq columns =>
      obtain rfl : columns = t.columns := hready
      exact good_alterSyncSeq hsound
  | alterZoneHash columns =>
      exact good_alterZoneHash hsound hready.1 hready.2
  | schema left =>
      exact good_schema hsound hready
  | backfillSync =>
      exact good_backfillSync hsound hready.1 hready.2
  | backfillStorage =>
      exact good_backfillStorage hsound hready.1 hready.2.1 hready.2.2
  | opened =>
      exact ⟨t, done, rest, hsound, hready⟩
  | failed =>
      exact absurd hready id

end Steps

section Termination

variable {V : Crates} {legacy : KeyedTable FileRow FileRow.handle} {db : DbFile}
  {t : HandlesTable} {done rest : List FileRow}

/-- Rows without a number. -/
def pendingOf (db : DbFile) : Nat :=
  match db.handles with
  | some t => t.rows.rows.countP (fun r => decide (r.syncSeq = 0))
  | none => 0

/-- A bound on the steps left for a file of `n` rows. -/
def stepsLeft (n : Nat) : Phase × DbFile → Nat
  | (.migrateColumns, _) => n + 12
  | (.alterSyncSeq _, _) => n + 11
  | (.alterZoneHash _, _) => n + 10
  | (.schema left, _) => n + 2 + left.length
  | (.backfillSync, db) => pendingOf db + 1
  | _ => 0

theorem Sound.pendingOf_eq
    (h : Sound V legacy db t done rest)
    (hcolumns : t.columns = ⟨true, true⟩) :
    pendingOf db = rest.length := by
  have hpending := h.filter_pending (by rw [hcolumns])
  have hcount : (sortRows t.rows.rows).countP (fun r => decide (r.syncSeq = 0)) =
      rest.length := by
    rw [List.countP_eq_length_filter, hpending]
  rw [pendingOf, h.handles, ← hcount]
  exact ((perm_sortRows _).countP_eq _).symm

theorem Sound.length_rest_le
    (h : Sound V legacy db t done rest) :
    rest.length ≤ legacy.rows.length := by
  have hperm := (perm_sortRows t.rows.rows).length_eq
  rw [h.sorted, List.length_append, length_data h] at hperm
  omega

/-- A chunk leaves fewer rows pending. -/
theorem pendingOf_chunk
    (h : Sound V legacy db t done rest)
    (hcolumns : t.columns = ⟨true, true⟩)
    (hran : ∀ s ∈ schema, s.Ran db) :
    stepsLeft legacy.rows.length (step V (.backfillSync, db)) <
      stepsLeft legacy.rows.length (.backfillSync, db) := by
  have hchunk := h.nextChunk_eq (by rw [hcolumns])
  have hpending := h.pendingOf_eq hcolumns
  simp only [step, backfillChunk, h.handles]
  rw [if_pos hcolumns, hchunk]
  cases hrest : rest.take chunkSize with
  | nil =>
      exact Nat.succ_pos _
  | cons r chunk =>
      obtain ⟨base, hbase⟩ := hran .insertSyncCounter (by decide)
      have hcounter : base = done.length := by
        rw [← h.counter, counterOf, hbase]
        rfl
      subst hcounter
      have hsplit : rest = (r :: chunk) ++ rest.drop chunkSize := by
        rw [← hrest, List.take_append_drop]
      have hnext := (h.chunk hcolumns hsplit).pendingOf_eq hcolumns
      simp only [List.map_cons, hbase, List.length_cons, List.length_map] at hnext ⊢
      rw [stepsLeft, stepsLeft, hnext, hpending]
      have hlen := congrArg List.length hsplit
      rw [List.length_append, List.length_cons] at hlen
      omega

/-- **`init` ends**, on whatever a crash left. -/
theorem init_reaches_opened
    {s : Phase × DbFile}
    (h : Good V legacy s) :
    ∃ n, ((step V)^[n] s).1 = .opened := by
  refine ⟨stepsLeft legacy.rows.length s + 1, ?_⟩
  refine Runs.iterate_reaches (Good V legacy) (fun s => s.1 = .opened)
    (stepsLeft legacy.rows.length) good_step ?_ ?_ h (Or.inr (Nat.lt_succ_self _))
  · rintro ⟨phase, db⟩ _ rfl
    rfl
  · rintro ⟨phase, db⟩ ⟨t, done, rest, hsound, hready⟩ hopen
    cases phase with
    | migrateColumns =>
        right
        rw [step, readColumns, hsound.handles]
        exact Nat.lt_succ_self _
    | alterSyncSeq columns =>
        exact Or.inr (Nat.lt_succ_self _)
    | alterZoneHash columns =>
        exact Or.inr (Nat.lt_succ_self _)
    | schema left =>
        right
        obtain ⟨hcolumns, hleft, hran⟩ := hready
        cases left with
        | nil =>
            have hle := hsound.length_rest_le
            rw [step, stepsLeft, stepsLeft, hsound.pendingOf_eq hcolumns, List.length_nil]
            omega
        | cons s left =>
            obtain ⟨db', hrun⟩ := run_succeeds hsound.handles hcolumns hleft hran
            rw [step, hrun]
            exact Nat.lt_succ_self _
    | backfillSync =>
        exact Or.inr (pendingOf_chunk hsound hready.1 hready.2)
    | backfillStorage =>
        left
        obtain ⟨totals, htotals⟩ := hready.2.1 .insertStorageTotals (by decide)
        obtain ⟨counts, hcounts⟩ := hready.2.1 .createSpaceEpochCounts (by decide)
        have hhandles := hsound.handles
        dsimp only at htotals hcounts hhandles
        simp only [step, backfillTotals, htotals, hhandles, hcounts]
        split_ifs <;> rfl
    | opened =>
        exact absurd rfl hopen
    | failed =>
        exact absurd hready id

end Termination

section Migrated

variable {V : Crates} {legacy : KeyedTable FileRow FileRow.handle} {db : DbFile}
  {t : HandlesTable} {done rest : List FileRow}

/-- A migrated store: every row has kept its data, its zone is hashed, the numbers are 1 to
the number of rows in `(updated_at, handle)` order, and counter and accounting agree. -/
structure Migrated (V : Crates) (legacy : KeyedTable FileRow FileRow.handle) (db : DbFile)
    (t : HandlesTable) : Prop where
  handles : db.handles = some t
  columns : t.columns = ⟨true, true⟩
  data : t.rows.rows.map FileRow.data = legacy.rows.map FileRow.data
  hashed : ∀ r ∈ t.rows.rows, r.zoneHash = zoneHash V r.zoneData
  numbered : (sortRows t.rows.rows).map FileRow.syncSeq =
    List.range' 1 t.rows.rows.length
  counter : db.syncCounter = some (some t.rows.rows.length)
  accounting : ∃ totals counts, db.storageTotals = some (some totals) ∧
    db.spaceEpochCounts = some counts ∧ Scanned t.rows.rows totals counts

theorem bucket_of_data
    {rows rows' : List FileRow}
    (h : rows.map FileRow.data = rows'.map FileRow.data) :
    rows.map FileRow.bucket = rows'.map FileRow.bucket := by
  have hmap := congrArg (List.map FileRow.bucket) h
  rwa [List.map_map, List.map_map] at hmap

/-- A scan of the rows sees their data. -/
theorem Scanned.of_data
    {rows rows' : List FileRow}
    {totals : StorageTotals}
    {counts : KeyedTable EpochCount EpochCount.bucket}
    (h : Scanned rows totals counts)
    (hdata : rows.map FileRow.data = rows'.map FileRow.data) :
    Scanned rows' totals counts where
  totals := h.totals.trans (scanTotals_of_data hdata)
  counts := by
    intro b
    have hcount : ∀ l : List FileRow, l.countP (fun r => decide (r.bucket = b)) =
        (l.map FileRow.bucket).countP (fun b' => decide (b' = b)) := by
      intro l
      rw [List.countP_map]
      rfl
    rw [h.counts, hcount, hcount rows', bucket_of_data hdata]

/-- What is opened is migrated. -/
theorem migrated_of_good
    (h : Good V legacy (.opened, db)) :
    ∃ t, Migrated V legacy db t := by
  obtain ⟨t, done, rest, hsound, hcolumns, hran, rfl, hscan⟩ := h
  obtain ⟨base, hbase⟩ := hran .insertSyncCounter (by decide)
  obtain ⟨totals, htotals⟩ := hran .insertStorageTotals (by decide)
  obtain ⟨counts, hcounts⟩ := hran .createSpaceEpochCounts (by decide)
  have hsorted : sortRows t.rows.rows = done := hsound.sorted.trans (List.append_nil done)
  have hlen : done.length = t.rows.rows.length :=
    hsorted ▸ (perm_sortRows t.rows.rows).length_eq
  refine ⟨t, hsound.handles, hcolumns, hsound.data, fun r hr => ?_, ?_, ?_, totals, counts,
    htotals, hcounts, ?_⟩
  · exact hsound.hashed r (hsorted ▸ (perm_sortRows _).mem_iff.2 hr)
  · rw [hsorted, hsound.numbers, hlen]
  · have hcounter := hsound.counter
    rw [counterOf, hbase] at hcounter
    rw [hbase, ← hlen, ← hcounter]
    rfl
  · rw [totalsOf, htotals, countsOf, hcounts] at hscan
    exact hscan.of_data hsound.data.symm

/-- Phases that `init` may be in on a store that lacks nothing. -/
def Phase.Settled : Phase → Prop
  | .alterSyncSeq columns => columns = ⟨true, true⟩
  | .alterZoneHash columns => columns = ⟨true, true⟩
  | .failed => False
  | _ => True

/-- The schema is there already. -/
theorem Migrated.run_eq
    (h : Migrated V legacy db t)
    (s : SchemaStatement) :
    s.run db = some db := by
  obtain ⟨totals, counts, htotals, hcounts, -⟩ := h.accounting
  have hhandles := h.handles
  have hcounter := h.counter
  obtain ⟨handles, syncCounter, spaceEpochCounts, storageTotals⟩ := db
  dsimp only at htotals hcounts hhandles hcounter
  subst htotals hcounts hhandles hcounter
  cases s with
  | indexSyncSeq =>
      exact if_pos (by rw [Option.any_some, h.columns])
  | _ =>
      rfl

/-- Every row has a number. -/
theorem Migrated.nextChunk_eq
    (h : Migrated V legacy db t) :
    nextChunk t.rows.rows = [] := by
  rw [nextChunk, sortRows_filter, filter_numbered_eq_nil h.numbered]
  rfl

/-- **On a migrated store `init` writes nothing.** -/
theorem Migrated.step_eq
    (h : Migrated V legacy db t)
    {phase : Phase}
    (hphase : phase.Settled) :
    (step V (phase, db)).2 = db ∧ (step V (phase, db)).1.Settled := by
  cases phase with
  | migrateColumns =>
      refine ⟨rfl, ?_⟩
      rw [step, readColumns, h.handles]
      exact h.columns
  | alterSyncSeq columns =>
      obtain rfl : columns = ⟨true, true⟩ := hphase
      exact ⟨rfl, rfl⟩
  | alterZoneHash columns =>
      obtain rfl : columns = ⟨true, true⟩ := hphase
      exact ⟨rfl, trivial⟩
  | schema left =>
      cases left with
      | nil =>
          exact ⟨rfl, trivial⟩
      | cons s left =>
          rw [step, h.run_eq]
          exact ⟨rfl, trivial⟩
  | backfillSync =>
      simp only [step, backfillChunk, h.handles]
      rw [if_pos h.columns, h.nextChunk_eq]
      exact ⟨rfl, trivial⟩
  | backfillStorage =>
      obtain ⟨totals, counts, htotals, hcounts, hscan⟩ := h.accounting
      have hrows : totals.rows = (t.rows.rows.length : ℤ) :=
        congrArg StorageTotals.rows hscan.totals
      simp only [step, backfillTotals, htotals, h.handles, hcounts]
      split_ifs with hnonzero hempty
      · exact ⟨rfl, trivial⟩
      · exact ⟨rfl, trivial⟩
      · rw [not_not, hrows] at hnonzero
        exact absurd (by exact_mod_cast hnonzero) hempty
  | opened =>
      exact ⟨rfl, trivial⟩
  | failed =>
      exact absurd hphase id

/-- Opening a migrated store, any number of times, changes nothing. -/
theorem Migrated.unchanged
    (h : Migrated V legacy db t)
    (moves : List Runs.Move) :
    (moves.foldl (initMove V) (.opened, db)).2 = db := by
  have hsettled : (moves.foldl (initMove V) (.opened, db)).2 = db ∧
      (moves.foldl (initMove V) (.opened, db)).1.Settled := by
    apply Runs.invariant_of_crashes (s := (Phase.opened, db))
      (I := fun s : Phase × DbFile => s.2 = db ∧ s.1.Settled)
    · rintro ⟨phase, db'⟩ ⟨rfl, hphase⟩
      exact h.step_eq hphase
    · rintro s ⟨hsame, _⟩
      exact ⟨hsame, trivial⟩
    · exact ⟨rfl, trivial⟩
  exact hsettled.1

variable (V) (legacy)

/-- **Migration of any pre-sync database.**  Whatever crashes interrupt it, `init` can be
run to its end; the store is then migrated, and opening it again changes nothing. -/
theorem migration_safe
    (moves : List Runs.Move) :
    (∃ n, ((step V)^[n] (moves.foldl (initMove V) (opening legacy))).1 = .opened) ∧
      ((moves.foldl (initMove V) (opening legacy)).1 = .opened →
        ∃ t, Migrated V legacy (moves.foldl (initMove V) (opening legacy)).2 t ∧
          ∀ more : List Runs.Move,
            (more.foldl (initMove V) (moves.foldl (initMove V) (opening legacy))).2 =
              (moves.foldl (initMove V) (opening legacy)).2) := by
  have hgood : Good V legacy (moves.foldl (initMove V) (opening legacy)) :=
    Runs.invariant_of_crashes good_step (fun _ => good_crash) good_opening moves
  refine ⟨init_reaches_opened hgood, fun hopened => ?_⟩
  generalize moves.foldl (initMove V) (opening legacy) = s at hgood hopened
  obtain ⟨phase, db⟩ := s
  obtain rfl : phase = .opened := hopened
  obtain ⟨t, ht⟩ := migrated_of_good hgood
  exact ⟨t, ht, ht.unchanged⟩

end Migrated

end DbFile
end CertRelay
